import RocketMQClient.Library.OrderedMap
import RocketMQClient.Messages.Decompression
import RocketMQClient.Messages.MessageId

/-!
# Decoding stored messages

`decode` reads one message from the memory behind a pointer: 22 words of header, the body, the topic
with its length in one byte, and the properties with their length in two. It checks none of the
lengths that it reads. `decodes` calls it until the lengths it reported add up to the length of the
data. Both record what they do to memory: every call has the ranges it reads and the sizes it asks
for beside the message, which is absent when an exception makes `decode` return NULL, and the length
it reports, which is then not assigned.

Memory is a function on all positions relative to the pointer, so that a read outside the data has a
value too. The fields of a message are machine integers; `bodyLen`, `topicLen` and
`propertiesLength` are read as signed ones.
-/

set_option autoImplicit false
set_option relaxedAutoImplicit false

namespace RocketMQClient.Messages

open Library Transport

/-- The bytes of memory by their distance from a pointer. -/
abbrev Memory := ℤ → Byte

/-- The bytes of a range of memory. -/
def bytesAt (memory : Memory) (position : ℤ) (count : ℕ) : ByteString :=
  (List.range count).map fun index : ℕ ↦ memory (position + index)

theorem length_bytesAt (memory : Memory) (position : ℤ) (count : ℕ) :
    (bytesAt memory position count).length = count := by
  rw [bytesAt, List.length_map, List.length_range]

/-- An `int` copied from memory. -/
def memcpyInt (host : ByteOrder) (memory : Memory) (position : ℤ) : BitVec 32 :=
  BitVec.ofNat 32 (host.ofMemory (bytesAt memory position 4))

/-- A `short` copied from memory. -/
def memcpyShort (host : ByteOrder) (memory : Memory) (position : ℤ) : BitVec 16 :=
  BitVec.ofNat 16 (host.ofMemory (bytesAt memory position 2))

/-- A `long long` copied from memory. -/
def memcpyLong (host : ByteOrder) (memory : Memory) (position : ℤ) : BitVec 64 :=
  BitVec.ofNat 64 (host.ofMemory (bytesAt memory position 8))

/-! ### Properties -/

/-- Between the name and the value of a property. -/
def nameValueSeparator : Byte := 1

/-- Behind each property. -/
def propertySeparator : Byte := 2

/-- Properties by name. -/
abbrev Properties := OrderedMap ByteString ByteString

/-- The text of properties. -/
def messageProperties2String (properties : Properties) : ByteString :=
  properties.entries.flatMap fun property ↦
    property.1 ++ [nameValueSeparator] ++ property.2 ++ [propertySeparator]

/-- Adds the property that a piece of text describes; a piece without exactly one separator is
skipped. -/
def addProperty (properties : Properties) (piece : ByteString) : Properties :=
  match piece.splitOn nameValueSeparator with
  | [name, value] => properties.assign name value
  | _ => properties

/-- Adds the properties of a text. -/
def string2messageProperties (properties : Properties) (propertiesString : ByteString) :
    Properties :=
  (propertiesString.splitOn propertySeparator).foldl addProperty properties

/-! ### Messages -/

/-- A message as it was stored by a broker. -/
structure MessageExt where
  storeSize : BitVec 32
  bodyCRC : BitVec 32
  queueId : BitVec 32
  flag : BitVec 32
  queueOffset : BitVec 64
  commitLogOffset : BitVec 64
  sysFlag : BitVec 32
  bornTimestamp : BitVec 64
  bornHost : SockAddrIn
  storeTimestamp : BitVec 64
  storeHost : SockAddrIn
  reconsumeTimes : BitVec 32
  preparedTransactionOffset : BitVec 64
  body : Option ByteString
  topic : ByteString
  properties : Properties
  msgId : ByteString
  deriving DecidableEq

/-- The properties that the constructor of a message sets. -/
def MessageExt.initialProperties : Properties :=
  OrderedMap.empty.assign (ofString "WAIT") (ofString "true")

/-- The flag of a compressed body. -/
def compressedSysFlag : BitVec 32 := 1

/-- The body that `setBody` copies, and the size that it asks for. -/
def setBody (body : ByteString) (len : ℤ) : Option ByteString × List ℤ :=
  if len > 0 then (some (body.take len.toNat), [len]) else (none, [])

/-- The body that is set for the bytes of a stored message, and the sizes that are asked for. -/
def bodyOf (inflate : Inflate) (sysFlag : BitVec 32) (body : ByteString) :
    Option ByteString × List ℤ :=
  if sysFlag &&& compressedSysFlag = compressedSysFlag then
    let inflated := decompress inflate body
    match inflated.output with
    | some (pOut, outLen) =>
      ((setBody pOut outLen).1, inflated.allocations ++ (setBody pOut outLen).2)
    | none =>
      ((setBody body body.length).1, inflated.allocations ++ (setBody body body.length).2)
  else setBody body body.length

/-- The address and the port at a position. -/
def hostAt (host : ByteOrder) (memory : Memory) (position : ℤ) : SockAddrIn :=
  let port := htonl host (memcpyInt host memory (position + 4))
  ⟨htons host (port.setWidth 16), memcpyInt host memory position⟩

/-- One call of `decode`: the message or NULL, the length that it reports or leaves unassigned, the
ranges of memory that it reads, and the sizes that it asks for. -/
structure DecodeCall where
  message : Option MessageExt
  offset : Option ℤ
  reads : List (ℤ × ℤ)
  allocations : List ℤ
  deriving DecidableEq

/-- The ranges of the header fields that are read; the magic code is not. -/
def headerReads (position : ℤ) : List (ℤ × ℤ) :=
  [(position, 4), (position + 8, 4), (position + 12, 4), (position + 16, 4), (position + 20, 8),
    (position + 28, 8), (position + 36, 4), (position + 40, 8), (position + 48, 4),
    (position + 52, 4), (position + 56, 8), (position + 64, 4), (position + 68, 4),
    (position + 72, 4), (position + 76, 8), (position + 84, 4)]

/-- The length of the body of the message at a position. -/
def bodyLenAt (host : ByteOrder) (memory : Memory) (position : ℤ) : ℤ :=
  (htonl host (memcpyInt host memory (position + 84))).toInt

/-- The position of the length of the topic, and that length. -/
def topicAt (host : ByteOrder) (memory : Memory) (position : ℤ) : ℤ × ℤ :=
  let start := position + 88 + bodyLenAt host memory position
  (start, (BitVec.ofNat 8 (memory start).val).toInt)

/-- The position of the length of the properties, and that length. -/
def propertiesAt (host : ByteOrder) (memory : Memory) (position : ℤ) : ℤ × ℤ :=
  let topic := topicAt host memory position
  let start := topic.1 + 1 + topic.2
  (start, (ntohs host (memcpyShort host memory start)).toInt)

/-- A length converted to the unsigned type of `memcpy`. -/
def sizeOfInt (length : ℤ) : ℤ := if length < 0 then length + 18446744073709551616 else length

/-- Reads the message at a position. -/
def decode (host : ByteOrder) (inflate : Inflate) (readBody : Bool) (memory : Memory)
    (position : ℤ) : DecodeCall :=
  let sysFlag := ntohl host (memcpyInt host memory (position + 36))
  let physicOffset := n2hll host (memcpyLong host memory (position + 28))
  let storeHost := hostAt host memory (position + 64)
  let bodyLen := bodyLenAt host memory position
  let body := if bodyLen > 0 ∧ readBody = true then
      bodyOf inflate sysFlag (bytesAt memory (position + 88) bodyLen.toNat)
    else (none, [])
  let bodyReads := if bodyLen > 0 ∧ readBody = true then [(position + 88, bodyLen)] else []
  let topic := topicAt host memory position
  let properties := propertiesAt host memory position
  if topic.2 + 1 < 0 then
    { message := none
      offset := none
      reads := headerReads position ++ bodyReads ++ [(topic.1, 1)]
      allocations := body.2 ++ [topic.2 + 1] }
  else
    { message := some
        { storeSize := ntohl host (memcpyInt host memory position)
          bodyCRC := ntohl host (memcpyInt host memory (position + 8))
          queueId := ntohl host (memcpyInt host memory (position + 12))
          flag := ntohl host (memcpyInt host memory (position + 16))
          queueOffset := n2hll host (memcpyLong host memory (position + 20))
          commitLogOffset := physicOffset
          sysFlag := sysFlag
          bornTimestamp := n2hll host (memcpyLong host memory (position + 40))
          bornHost := hostAt host memory (position + 48)
          storeTimestamp := n2hll host (memcpyLong host memory (position + 56))
          storeHost := storeHost
          reconsumeTimes := htonl host (memcpyInt host memory (position + 72))
          preparedTransactionOffset := n2hll host (memcpyLong host memory (position + 76))
          body := body.1
          topic := cString (bytesAt memory (topic.1 + 1) topic.2.toNat)
          properties := if properties.2 > 0 then
              string2messageProperties OrderedMap.empty
                (cString (bytesAt memory (properties.1 + 2) properties.2.toNat))
            else MessageExt.initialProperties
          msgId := createMessageId host storeHost physicOffset }
      offset := some (toInt32
        (88 + bodyLenAt host memory position + 1 + topic.2 + 2 + properties.2))
      reads := headerReads position ++ bodyReads ++ [(topic.1, 1)] ++
        [(topic.1 + 1, sizeOfInt topic.2), (properties.1, 2)] ++
        if properties.2 > 0 then [(properties.1 + 2, properties.2)] else []
      allocations := body.2 ++ [topic.2 + 1] ++
        if properties.2 > 0 then [properties.2 + 1] else [] }

/-- The loop of `decodes`, with the position reached and the value left in the variable for the
reported length: the calls made, when it ends within the given number of them. -/
def decodesLoop (host : ByteOrder) (inflate : Inflate) (memory : Memory) (len : ℤ) :
    ℕ → ℤ → ℤ → Option (List DecodeCall)
  | 0, offset, _ => if offset < len then none else some []
  | fuel + 1, offset, tmp =>
    if offset < len then
      let call := decode host inflate true memory offset
      let reported := call.offset.getD tmp
      (decodesLoop host inflate memory len fuel (toInt32 (offset + reported)) reported).map
        fun calls ↦ call :: calls
    else some []

end RocketMQClient.Messages
