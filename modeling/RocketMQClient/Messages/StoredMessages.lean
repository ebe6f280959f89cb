import RocketMQClient.Messages.MessageDecoder

/-!
# Reading back stored messages

`StoredMessage` is a message with everything that its record holds, and `encode` the layout of the
record. The invariants of the format are fields: a topic of at most 127 bytes without a zero byte,
properties whose names and values are free of the separators, and stored bytes that are the body
itself or, with the flag of a compressed body, a compressed stream of it.

`decode_encode` is what one call makes of a record in memory. It reports the length of the record,
and every field is that of the message, with two exceptions: a message without properties comes back
with the property that the constructor sets, and a compressed body whose buffer cannot grow far
enough comes back as its stored bytes. `decodes_encode_iff` says this of a list of records.

A record is put into memory at any position, and the calls read it through the words of the header
(`holds_header`); the byte order of the host is a parameter throughout. Decompression enters as what
the library does with the stored bytes, and `readBack_eq_iff` collects the two exceptions for one
message.
-/

set_option autoImplicit false
set_option relaxedAutoImplicit false

namespace RocketMQClient.Messages

open Library Transport

/-! ### Memory -/

/-- Memory has the given bytes at a position. -/
def Holds (memory : Memory) (position : ℤ) (bytes : ByteString) : Prop :=
  bytesAt memory position bytes.length = bytes

instance (memory : Memory) (position : ℤ) (bytes : ByteString) :
    Decidable (Holds memory position bytes) :=
  inferInstanceAs (Decidable (_ = _))

theorem bytesAt_add (memory : Memory) (position : ℤ) (first second : ℕ) :
    bytesAt memory position (first + second) =
      bytesAt memory position first ++ bytesAt memory (position + first) second := by
  rw [bytesAt, List.range_add, List.map_append, List.map_map]
  refine congrArg₂ _ rfl (List.map_congr_left fun index _ ↦ ?_)
  show memory (position + (first + index : ℕ)) = memory (position + first + index)
  rw [Int.natCast_add, ← Int.add_assoc]

/-- Bytes one behind the other. -/
theorem holds_append {memory : Memory} {position : ℤ} {first second : ByteString} :
    Holds memory position (first ++ second) ↔
      Holds memory position first ∧ Holds memory (position + first.length) second := by
  unfold Holds
  rw [List.length_append, bytesAt_add]
  refine ⟨fun hbytes ↦ List.append_inj hbytes (length_bytesAt memory position first.length), ?_⟩
  rintro ⟨hfirst, hsecond⟩
  rw [hfirst, hsecond]

/-! ### Fields -/

section Fields

variable {host : ByteOrder} {memory : Memory} {position : ℤ}

/-- Bytes that are copied to an integer and converted to host order. -/
theorem networkToHost_bytesAt {count value : ℕ} (hvalue : value < 256 ^ count)
    (hholds : Holds memory position (bigEndian count value)) :
    host.networkToHost count (host.ofMemory (bytesAt memory position count)) = value := by
  unfold Holds at hholds
  rw [length_bigEndian] at hholds
  rw [host.networkToHost_ofMemory (length_bytesAt memory position count), hholds,
    ofBigEndian_bigEndian, Nat.mod_eq_of_lt hvalue]

theorem toNat_memcpyInt : (memcpyInt host memory position).toNat =
    host.ofMemory (bytesAt memory position 4) := by
  rw [memcpyInt, BitVec.toNat_ofNat]
  exact Nat.mod_eq_of_lt (host.ofMemory_lt (length_bytesAt memory position 4))

theorem htonl_eq_ntohl (host : ByteOrder) (v : BitVec 32) : htonl host v = ntohl host v := by
  rw [htonl, ntohl, host.networkToHost_eq_hostToNetwork]

theorem ntohl_memcpyInt {value : BitVec 32}
    (hholds : Holds memory position (bigEndian 4 value.toNat)) :
    ntohl host (memcpyInt host memory position) = value := by
  rw [ntohl, toNat_memcpyInt, networkToHost_bytesAt value.isLt hholds, BitVec.ofNat_toNat,
    BitVec.setWidth_eq]

theorem htonl_memcpyInt {value : BitVec 32}
    (hholds : Holds memory position (bigEndian 4 value.toNat)) :
    htonl host (memcpyInt host memory position) = value := by
  rw [htonl_eq_ntohl, ntohl_memcpyInt hholds]

theorem ntohs_memcpyShort {value : BitVec 16}
    (hholds : Holds memory position (bigEndian 2 value.toNat)) :
    ntohs host (memcpyShort host memory position) = value := by
  have hcopy : (memcpyShort host memory position).toNat =
      host.ofMemory (bytesAt memory position 2) := by
    rw [memcpyShort, BitVec.toNat_ofNat]
    exact Nat.mod_eq_of_lt (host.ofMemory_lt (length_bytesAt memory position 2))
  rw [ntohs, hcopy, networkToHost_bytesAt value.isLt hholds, BitVec.ofNat_toNat,
    BitVec.setWidth_eq]

theorem n2hll_memcpyLong {value : BitVec 64}
    (hholds : Holds memory position (bigEndian 8 value.toNat)) :
    n2hll host (memcpyLong host memory position) = value := by
  have hcopy : (memcpyLong host memory position).toNat =
      host.ofMemory (bytesAt memory position 8) := by
    rw [memcpyLong, BitVec.toNat_ofNat]
    exact Nat.mod_eq_of_lt (host.ofMemory_lt (length_bytesAt memory position 8))
  rw [n2hll, ← BitVec.toNat_inj, toNat_swapll, hcopy, networkToHost_bytesAt value.isLt hholds]

/-- An address and the port behind it. -/
theorem hostAt_eq {addr : SockAddrIn} (haddress : Holds memory position (addr.addressBytes host))
    (hport : Holds memory (position + 4) (bigEndian 4 (addr.port host))) :
    hostAt host memory position = addr := by
  have hsAddr : memcpyInt host memory position = addr.sAddr := by
    unfold Holds at haddress
    rw [SockAddrIn.addressBytes, host.length_toMemory] at haddress
    rw [← BitVec.toNat_inj, toNat_memcpyInt, haddress, host.ofMemory_toMemory]
    exact Nat.mod_eq_of_lt addr.sAddr.isLt
  have hlt : addr.port host < 4294967296 := lt_trans (port_lt host addr) (by decide)
  have hword : htonl host (memcpyInt host memory (position + 4)) =
      BitVec.ofNat 32 (addr.port host) := by
    refine htonl_memcpyInt ?_
    rwa [BitVec.toNat_ofNat, Nat.mod_eq_of_lt hlt]
  have hlow : ((BitVec.ofNat 32 (addr.port host)).setWidth 16).toNat = addr.port host := by
    rw [BitVec.toNat_setWidth, BitVec.toNat_ofNat, Nat.mod_eq_of_lt hlt]
    exact Nat.mod_eq_of_lt (port_lt host addr)
  have hsinPort : htons host ((BitVec.ofNat 32 (addr.port host)).setWidth 16) = addr.sinPort := by
    rw [htons, hlow, SockAddrIn.port, host.hostToNetwork_networkToHost, ← BitVec.toNat_inj,
      BitVec.toNat_ofNat]
    exact (Nat.mod_eq_of_lt (Nat.mod_lt _ (by decide))).trans (Nat.mod_eq_of_lt addr.sinPort.isLt)
  rw [hostAt, hword, hsinPort, hsAddr]

end Fields

/-! ### Properties -/

/-- Names and values without zero bytes and separators. -/
def PlainProperties (properties : Properties) : Prop :=
  ∀ property ∈ properties.entries, ∀ byte ∈ property.1 ++ property.2,
    byte ≠ 0 ∧ byte ≠ nameValueSeparator ∧ byte ≠ propertySeparator

instance (properties : Properties) : Decidable (PlainProperties properties) :=
  inferInstanceAs (Decidable (∀ _ ∈ _, ∀ _ ∈ _, _))

/-- The piece of text of a property adds the property. -/
theorem addProperty_piece (properties : Properties) {name value : ByteString}
    (hname : nameValueSeparator ∉ name) (hvalue : nameValueSeparator ∉ value) :
    addProperty properties (name ++ [nameValueSeparator] ++ value) =
      properties.assign name value := by
  rw [addProperty, List.append_assoc, List.singleton_append, List.splitOn_append_cons_self,
    List.splitOn_eq_singleton hname, List.splitOn_eq_singleton hvalue]
  rfl

/-- The text of properties is split into the pieces of the properties and an empty one. -/
theorem splitOn_properties {entries : List (ByteString × ByteString)}
    (hplain : ∀ property ∈ entries, propertySeparator ∉ property.1 ∧
      propertySeparator ∉ property.2) :
    (entries.flatMap fun property ↦
        property.1 ++ [nameValueSeparator] ++ property.2 ++ [propertySeparator]).splitOn
          propertySeparator =
      (entries.map fun property ↦ property.1 ++ [nameValueSeparator] ++ property.2) ++ [[]] := by
  induction entries with
  | nil => rfl
  | cons property rest ih =>
    have hhere : propertySeparator ∉ property.1 ++ [nameValueSeparator] ++ property.2 := by
      have hseparators : propertySeparator ≠ nameValueSeparator := by decide
      have hparts := hplain property List.mem_cons_self
      simp [hparts.1, hparts.2, hseparators]
    rw [List.flatMap_cons, List.append_assoc, List.singleton_append,
      List.splitOn_append_cons_self, List.splitOn_eq_singleton hhere,
      ih fun other hother ↦ hplain other (List.mem_cons_of_mem property hother)]
    rfl

/-- Names and values without separators. -/
def SeparatorFree (properties : Properties) : Prop :=
  ∀ property ∈ properties.entries, ∀ byte ∈ property.1 ++ property.2,
    byte ≠ nameValueSeparator ∧ byte ≠ propertySeparator

instance (properties : Properties) : Decidable (SeparatorFree properties) :=
  inferInstanceAs (Decidable (∀ _ ∈ _, ∀ _ ∈ _, _))

theorem PlainProperties.separatorFree {properties : Properties}
    (hplain : PlainProperties properties) : SeparatorFree properties :=
  fun property hproperty byte hbyte ↦ (hplain property hproperty byte hbyte).2

/-- Pieces of text of properties add the properties one after another. -/
theorem foldl_addProperty {entries : List (ByteString × ByteString)} (start : Properties)
    (hfree : ∀ property ∈ entries,
      nameValueSeparator ∉ property.1 ∧ nameValueSeparator ∉ property.2) :
    (entries.map fun property ↦
        property.1 ++ [nameValueSeparator] ++ property.2).foldl addProperty start =
      start.assignPairs entries := by
  induction entries generalizing start with
  | nil => rfl
  | cons property rest ih =>
    have hparts := hfree property List.mem_cons_self
    rw [List.map_cons, List.foldl_cons, addProperty_piece start hparts.1 hparts.2,
      ih _ fun other hother ↦ hfree other (List.mem_cons_of_mem property hother)]
    rfl

/-- Reading the text of properties assigns them one after another. -/
theorem string2messageProperties_of_separatorFree (start : Properties) {properties : Properties}
    (hfree : SeparatorFree properties) :
    string2messageProperties start (messageProperties2String properties) =
      start.assignPairs properties.entries := by
  have hseparators : ∀ property ∈ properties.entries, ∀ separator : Byte,
      separator = nameValueSeparator ∨ separator = propertySeparator →
        separator ∉ property.1 ∧ separator ∉ property.2 := by
    intro property hproperty separator hseparator
    have hbytes := hfree property hproperty separator
    constructor
    · intro hmem
      have hother := hbytes (List.mem_append_left _ hmem)
      exact hseparator.elim hother.1 hother.2
    · intro hmem
      have hother := hbytes (List.mem_append_right _ hmem)
      exact hseparator.elim hother.1 hother.2
  rw [string2messageProperties, messageProperties2String,
    splitOn_properties fun property hproperty ↦ hseparators property hproperty _ (Or.inr rfl),
    List.foldl_append,
    foldl_addProperty _ fun property hproperty ↦ hseparators property hproperty _ (Or.inl rfl)]
  rfl

/-- The entries of a map make the map again. -/
theorem assignPairs_entries (properties : Properties) :
    OrderedMap.empty.assignPairs properties.entries = properties := by
  have hsorted : (OrderedMap.empty.entries ++ properties.entries).Pairwise
      fun earlier later : ByteString × ByteString ↦ earlier.1 < later.1 := properties.sorted
  exact OrderedMap.ext (OrderedMap.entries_assignPairs_above hsorted)

/-- The text of properties is read back as the properties. -/
theorem string2messageProperties_messageProperties2String {properties : Properties}
    (hplain : PlainProperties properties) :
    string2messageProperties OrderedMap.empty (messageProperties2String properties) =
      properties :=
  (string2messageProperties_of_separatorFree _ hplain.separatorFree).trans
    (assignPairs_entries properties)

/-- The text of properties has no zero byte. -/
theorem zero_notMem_messageProperties2String {properties : Properties}
    (hplain : PlainProperties properties) : 0 ∉ messageProperties2String properties := by
  intro hmem
  obtain ⟨property, hproperty, hbyte⟩ := List.mem_flatMap.mp hmem
  simp only [List.mem_append, List.mem_singleton] at hbyte
  rcases hbyte with ((hname | hseparator) | hvalue) | hseparator
  · exact (hplain property hproperty 0 (List.mem_append_left _ hname)).1 rfl
  · exact absurd hseparator (by decide)
  · exact (hplain property hproperty 0 (List.mem_append_right _ hvalue)).1 rfl
  · exact absurd hseparator (by decide)

/-- Properties have an empty text only when there are none. -/
theorem messageProperties2String_eq_nil {properties : Properties} :
    messageProperties2String properties = [] ↔ properties.isEmpty = true := by
  unfold messageProperties2String OrderedMap.isEmpty
  cases properties.entries with
  | nil => simp
  | cons property rest => simp

/-! ### Records -/

/-- A message and the bytes under which its body is stored, in the ranges that the format has room
for. -/
structure StoredMessage (inflate : Inflate) where
  storeSize : BitVec 32
  magicCode : BitVec 32
  bodyCRC : BitVec 32
  queueId : BitVec 32
  flag : BitVec 32
  queueOffset : BitVec 64
  physicOffset : BitVec 64
  sysFlag : BitVec 32
  bornTimestamp : BitVec 64
  bornHost : SockAddrIn
  storeTimestamp : BitVec 64
  storeHost : SockAddrIn
  reconsumeTimes : BitVec 32
  preparedTransactionOffset : BitVec 64
  body : ByteString
  storedBody : ByteString
  topic : ByteString
  properties : Properties
  stored : if sysFlag &&& compressedSysFlag = compressedSysFlag then
      inflate.Stream storedBody body else storedBody = body
  body_length : body.length ≤ 2147483647
  topic_plain : 0 ∉ topic
  topic_length : topic.length ≤ 127
  properties_plain : PlainProperties properties
  properties_length : (messageProperties2String properties).length ≤ 32767

namespace StoredMessage

variable {inflate : Inflate}

/-- The first 22 words of a record. -/
def header (host : ByteOrder) (message : StoredMessage inflate) : ByteString :=
  bigEndian 4 message.storeSize.toNat ++ (bigEndian 4 message.magicCode.toNat ++
    (bigEndian 4 message.bodyCRC.toNat ++ (bigEndian 4 message.queueId.toNat ++
    (bigEndian 4 message.flag.toNat ++ (bigEndian 8 message.queueOffset.toNat ++
    (bigEndian 8 message.physicOffset.toNat ++ (bigEndian 4 message.sysFlag.toNat ++
    (bigEndian 8 message.bornTimestamp.toNat ++ (message.bornHost.addressBytes host ++
    (bigEndian 4 (message.bornHost.port host) ++ (bigEndian 8 message.storeTimestamp.toNat ++
    (message.storeHost.addressBytes host ++ (bigEndian 4 (message.storeHost.port host) ++
    (bigEndian 4 message.reconsumeTimes.toNat ++
    (bigEndian 8 message.preparedTransactionOffset.toNat ++
    bigEndian 4 message.storedBody.length)))))))))))))))

/-- The record of a message. -/
def encode (host : ByteOrder) (message : StoredMessage inflate) : ByteString :=
  message.header host ++ (message.storedBody ++ (bigEndian 1 message.topic.length ++
    (message.topic ++ (bigEndian 2 (messageProperties2String message.properties).length ++
    messageProperties2String message.properties))))

/-- The message that a record stands for. -/
def toMessageExt (host : ByteOrder) (message : StoredMessage inflate) : MessageExt where
  storeSize := message.storeSize
  bodyCRC := message.bodyCRC
  queueId := message.queueId
  flag := message.flag
  queueOffset := message.queueOffset
  commitLogOffset := message.physicOffset
  sysFlag := message.sysFlag
  bornTimestamp := message.bornTimestamp
  bornHost := message.bornHost
  storeTimestamp := message.storeTimestamp
  storeHost := message.storeHost
  reconsumeTimes := message.reconsumeTimes
  preparedTransactionOffset := message.preparedTransactionOffset
  body := if message.body = [] then none else some message.body
  topic := message.topic
  properties := message.properties
  msgId := createMessageId host message.storeHost message.physicOffset

/-- The body that is read back. -/
def readBody (message : StoredMessage inflate) : ByteString :=
  if message.storedBody = message.body ∨ inflate.Grows message.storedBody then message.body
  else message.storedBody

/-- The properties that are read back. -/
def readProperties (message : StoredMessage inflate) : Properties :=
  if message.properties.isEmpty then MessageExt.initialProperties else message.properties

/-! ### One record -/

theorem length_header (host : ByteOrder) (message : StoredMessage inflate) :
    (message.header host).length = 88 := by
  simp only [header, List.length_append, length_bigEndian, SockAddrIn.addressBytes,
    ByteOrder.length_toMemory]

theorem length_encode (host : ByteOrder) (message : StoredMessage inflate) :
    (message.encode host).length = 88 + message.storedBody.length + 1 + message.topic.length + 2 +
      (messageProperties2String message.properties).length := by
  simp only [encode, List.length_append, length_bigEndian, length_header]
  omega

/-- The words of a header in memory. -/
theorem holds_header {host : ByteOrder} {memory : Memory} {position : ℤ}
    {message : StoredMessage inflate} (hholds : Holds memory position (message.header host)) :
    Holds memory position (bigEndian 4 message.storeSize.toNat) ∧
      Holds memory (position + 8) (bigEndian 4 message.bodyCRC.toNat) ∧
      Holds memory (position + 12) (bigEndian 4 message.queueId.toNat) ∧
      Holds memory (position + 16) (bigEndian 4 message.flag.toNat) ∧
      Holds memory (position + 20) (bigEndian 8 message.queueOffset.toNat) ∧
      Holds memory (position + 28) (bigEndian 8 message.physicOffset.toNat) ∧
      Holds memory (position + 36) (bigEndian 4 message.sysFlag.toNat) ∧
      Holds memory (position + 40) (bigEndian 8 message.bornTimestamp.toNat) ∧
      hostAt host memory (position + 48) = message.bornHost ∧
      Holds memory (position + 56) (bigEndian 8 message.storeTimestamp.toNat) ∧
      hostAt host memory (position + 64) = message.storeHost ∧
      Holds memory (position + 72) (bigEndian 4 message.reconsumeTimes.toNat) ∧
      Holds memory (position + 76) (bigEndian 8 message.preparedTransactionOffset.toNat) ∧
      Holds memory (position + 84) (bigEndian 4 message.storedBody.length) := by
  have haddress : ∀ addr : SockAddrIn, (addr.addressBytes host).length = 4 :=
    fun addr ↦ host.length_toMemory 4 addr.sAddr.toNat
  simp only [header, holds_append, length_bigEndian, haddress, Nat.cast_ofNat, Int.add_assoc,
    Int.reduceAdd] at hholds
  obtain ⟨hstoreSize, -, hbodyCRC, hqueueId, hflag, hqueueOffset, hphysicOffset, hsysFlag,
    hbornTimestamp, hbornHost, hbornPort, hstoreTimestamp, hstoreHost, hstorePort, hreconsume,
    hprepared, hbodyLen⟩ := hholds
  refine ⟨hstoreSize, hbodyCRC, hqueueId, hflag, hqueueOffset, hphysicOffset, hsysFlag,
    hbornTimestamp, hostAt_eq hbornHost ?_, hstoreTimestamp, hostAt_eq hstoreHost ?_, hreconsume,
    hprepared, hbodyLen⟩
  · rw [Int.add_assoc]
    exact hbornPort
  · rw [Int.add_assoc]
    exact hstorePort

/-- `setBody` with the whole of some bytes. -/
theorem setBody_length (body : ByteString) :
    (setBody body body.length).1 = if body = [] then none else some body := by
  unfold setBody
  by_cases hempty : body = []
  · rw [if_pos hempty, hempty]
    rfl
  · have hpositive : (body.length : ℤ) > 0 := by
      exact_mod_cast List.length_pos_iff.mpr hempty
    rw [if_neg hempty, if_pos hpositive, Int.toNat_natCast, List.take_length]

/-- The body that is set for the stored bytes. -/
theorem bodyOf_storedBody (message : StoredMessage inflate) :
    (bodyOf inflate message.sysFlag message.storedBody).1 =
      if message.readBody = [] then none else some message.readBody := by
  have hstored := message.stored
  unfold bodyOf readBody
  by_cases hflag : message.sysFlag &&& compressedSysFlag = compressedSysFlag
  · rw [if_pos hflag] at hstored ⊢
    have houtput := decompress_stream hstored message.body_length
    by_cases hgrows : inflate.Grows message.storedBody
    · rw [if_pos hgrows] at houtput
      simp only [houtput, hgrows, or_true, if_true]
      exact setBody_length message.body
    · rw [if_neg hgrows] at houtput
      simp only [houtput, hgrows, or_false]
      rw [setBody_length]
      by_cases hsame : message.storedBody = message.body
      · rw [if_pos hsame, hsame]
      · rw [if_neg hsame]
  · rw [if_neg hflag] at hstored ⊢
    rw [if_pos (Or.inl hstored), setBody_length, hstored]

/-- Nothing is read back for a record without a body. -/
theorem readBody_of_nil {message : StoredMessage inflate} (hempty : message.storedBody = []) :
    message.readBody = [] := by
  have hstored := message.stored
  have hbody : message.body = [] := by
    split_ifs at hstored with hflag
    · rw [← hstored.output, hempty, inflate.pieces_nil]
      rfl
    · rw [← hstored, hempty]
  unfold readBody
  rw [hbody, hempty, if_pos (Or.inl rfl)]

section Layout

variable {host : ByteOrder} {memory : Memory} {position : ℤ} {message : StoredMessage inflate}

/-- A length below the sign bit is read as it is. -/
theorem toInt_ofNat_of_lt {width length : ℕ} (hlength : 2 * length < 2 ^ width) :
    (BitVec.ofNat width length).toInt = length := by
  have hvalue : (BitVec.ofNat width length).toNat = length := by
    rw [BitVec.toNat_ofNat, Nat.mod_eq_of_lt (by omega)]
  rw [BitVec.toInt_eq_toNat_of_lt (by rw [hvalue]; exact hlength), hvalue]

theorem bodyLenAt_encode
    (hholds : Holds memory (position + 84) (bigEndian 4 message.storedBody.length))
    (hlength : message.storedBody.length ≤ 2147483647) :
    bodyLenAt host memory position = message.storedBody.length := by
  have hword : htonl host (memcpyInt host memory (position + 84)) =
      BitVec.ofNat 32 message.storedBody.length := by
    refine htonl_memcpyInt ?_
    rwa [BitVec.toNat_ofNat, Nat.mod_eq_of_lt (by omega)]
  rw [bodyLenAt, hword]
  exact toInt_ofNat_of_lt (by omega)

theorem topicAt_encode (hbodyLen : bodyLenAt host memory position = message.storedBody.length)
    (hholds : Holds memory (position + 88 + message.storedBody.length)
      (bigEndian 1 message.topic.length)) :
    topicAt host memory position =
      (position + 88 + message.storedBody.length, (message.topic.length : ℤ)) := by
  have hlength := message.topic_length
  have hbyte : memory (position + 88 + message.storedBody.length) =
      Fin.ofNat 256 message.topic.length := by
    have hlist : [memory (position + 88 + message.storedBody.length + (0 : ℕ))] =
        [Fin.ofNat 256 message.topic.length] := hholds
    simpa using hlist
  have hvalue : (Fin.ofNat 256 message.topic.length : Byte).val = message.topic.length := by
    rw [Fin.val_ofNat, Nat.mod_eq_of_lt (by omega)]
  rw [topicAt, hbodyLen, hbyte, hvalue, toInt_ofNat_of_lt (by omega)]

theorem propertiesAt_encode {start : ℤ}
    (htopic : topicAt host memory position = (start, (message.topic.length : ℤ)))
    (hholds : Holds memory (start + 1 + message.topic.length)
      (bigEndian 2 (messageProperties2String message.properties).length)) :
    propertiesAt host memory position = (start + 1 + message.topic.length,
      ((messageProperties2String message.properties).length : ℤ)) := by
  have hlength := message.properties_length
  have hword : ntohs host (memcpyShort host memory (start + 1 + message.topic.length)) =
      BitVec.ofNat 16 (messageProperties2String message.properties).length := by
    refine ntohs_memcpyShort ?_
    rwa [BitVec.toNat_ofNat, Nat.mod_eq_of_lt (by omega)]
  rw [propertiesAt, htopic, hword, toInt_ofNat_of_lt (by omega)]

end Layout

/-- The body that a call sets from the bytes of a record. -/
theorem body_encode (message : StoredMessage inflate) :
    (if (message.storedBody.length : ℤ) > 0 ∧ True then
        bodyOf inflate message.sysFlag message.storedBody else (none, [])).1 =
      if message.readBody = [] then none else some message.readBody := by
  by_cases hempty : message.storedBody = []
  · rw [readBody_of_nil hempty, hempty]
    rfl
  · rw [if_pos ⟨by exact_mod_cast List.length_pos_iff.mpr hempty, trivial⟩]
    exact bodyOf_storedBody message

/-- The properties that a call reads from the text of a record. -/
theorem properties_encode {memory : Memory} {start : ℤ} {message : StoredMessage inflate}
    (hholds : Holds memory start (messageProperties2String message.properties)) :
    (if ((messageProperties2String message.properties).length : ℤ) > 0 then
        string2messageProperties OrderedMap.empty (cString (bytesAt memory start
          (messageProperties2String message.properties).length))
      else MessageExt.initialProperties) = message.readProperties := by
  have hbytes : bytesAt memory start (messageProperties2String message.properties).length =
    messageProperties2String message.properties := hholds
  unfold readProperties
  by_cases hempty : message.properties.isEmpty = true
  · rw [if_pos hempty, messageProperties2String_eq_nil.mpr hempty]
    rfl
  · have hpositive : ((messageProperties2String message.properties).length : ℤ) > 0 := by
      have hne := fun hnil ↦ hempty (messageProperties2String_eq_nil.mp hnil)
      exact_mod_cast List.length_pos_iff.mpr hne
    rw [if_pos hpositive, if_neg hempty, hbytes,
      cString_eq_self (zero_notMem_messageProperties2String message.properties_plain),
      string2messageProperties_messageProperties2String message.properties_plain]

/-- The message that a call reads from a record, and the length that it reports. -/
theorem decode_encode {host : ByteOrder} {memory : Memory} {position : ℤ}
    {message : StoredMessage inflate} (hholds : Holds memory position (message.encode host))
    (hlength : (message.encode host).length ≤ 2147483647) :
    (decode host inflate true memory position).message = some { message.toMessageExt host with
        body := if message.readBody = [] then none else some message.readBody
        properties := message.readProperties } ∧
      (decode host inflate true memory position).offset =
        some ((message.encode host).length : ℤ) := by
  rw [length_encode] at hlength
  simp only [encode, holds_append, length_header, length_bigEndian, Nat.cast_ofNat,
    Nat.cast_one] at hholds
  obtain ⟨hheader, hbody, htopicLen, htopicBytes, hpropertiesLen, hpropertiesBytes⟩ := hholds
  obtain ⟨hstoreSize, hbodyCRC, hqueueId, hflag, hqueueOffset, hphysicOffset, hsysFlag,
    hbornTimestamp, hbornHost, hstoreTimestamp, hstoreHost, hreconsume, hprepared, hbodyWord⟩ :=
    holds_header hheader
  have hbodyLen := @bodyLenAt_encode inflate host memory position message hbodyWord (by omega)
  have htopic := topicAt_encode hbodyLen htopicLen
  have hproperties := propertiesAt_encode htopic hpropertiesLen
  have hbodyBytes : bytesAt memory (position + 88) message.storedBody.length =
    message.storedBody := hbody
  have htopicText : cString (bytesAt memory (position + 88 + message.storedBody.length + 1)
      message.topic.length) = message.topic := by
    have hbytes : bytesAt memory (position + 88 + message.storedBody.length + 1)
        message.topic.length = message.topic := htopicBytes
    rw [hbytes, cString_eq_self message.topic_plain]
  have hsize : ¬ ((message.topic.length : ℤ) + 1 < 0) := by omega
  constructor
  · unfold decode toMessageExt
    simp only [hbodyLen, htopic, hproperties, if_neg hsize, ntohl_memcpyInt hstoreSize,
      ntohl_memcpyInt hbodyCRC, ntohl_memcpyInt hqueueId, ntohl_memcpyInt hflag,
      n2hll_memcpyLong hqueueOffset, n2hll_memcpyLong hphysicOffset, ntohl_memcpyInt hsysFlag,
      n2hll_memcpyLong hbornTimestamp, hbornHost, n2hll_memcpyLong hstoreTimestamp, hstoreHost,
      htonl_memcpyInt hreconsume, n2hll_memcpyLong hprepared, Int.toNat_natCast, hbodyBytes,
      body_encode, htopicText, properties_encode hpropertiesBytes]
  · unfold decode
    simp only [hbodyLen, htopic, hproperties, if_neg hsize]
    rw [length_encode, toInt32_eq_self (by omega) (by omega)]
    push_cast
    rfl

/-! ### A list of records -/

/-- The calls for records one behind the other. -/
def callsAt (host : ByteOrder) (memory : Memory) :
    ℤ → List (StoredMessage inflate) → List DecodeCall
  | _, [] => []
  | position, message :: rest =>
    decode host inflate true memory position ::
      callsAt host memory (position + (message.encode host).length) rest

/-- The message that is read back from a record. -/
def readBack (host : ByteOrder) (message : StoredMessage inflate) : MessageExt :=
  { message.toMessageExt host with
    body := if message.readBody = [] then none else some message.readBody
    properties := message.readProperties }

theorem encode_length_pos (host : ByteOrder) (message : StoredMessage inflate) :
    0 < (message.encode host).length := by
  rw [length_encode]
  omega

section Lists

variable {host : ByteOrder} {memory : Memory} {position : ℤ}
variable {messages : List (StoredMessage inflate)}

/-- The results of the calls for records in memory. -/
theorem callsAt_results (hholds : Holds memory position (messages.flatMap (encode host)))
    (hlength : (messages.flatMap (encode host)).length ≤ 2147483647) :
    (callsAt host memory position messages).map DecodeCall.message =
        messages.map (fun message ↦ some (message.readBack host)) ∧
      (callsAt host memory position messages).map DecodeCall.offset =
        messages.map fun message ↦ some ((message.encode host).length : ℤ) := by
  induction messages generalizing position with
  | nil => exact ⟨rfl, rfl⟩
  | cons message rest ih =>
    rw [List.flatMap_cons, List.length_append] at hlength
    rw [List.flatMap_cons, holds_append] at hholds
    obtain ⟨hmessage, hoffset⟩ := decode_encode hholds.1 (by omega)
    obtain ⟨hmessages, hoffsets⟩ := ih hholds.2 (by omega)
    rw [callsAt, List.map_cons, List.map_cons, List.map_cons, List.map_cons, hmessage, hoffset,
      hmessages, hoffsets]
    exact ⟨rfl, rfl⟩

/-- The loop makes one call for each record and ends behind the last. -/
theorem decodesLoop_encode {len : ℤ} (fuel : ℕ) (tmp : ℤ)
    (hholds : Holds memory position (messages.flatMap (encode host)))
    (hposition : 0 ≤ position)
    (hlen : position + (messages.flatMap (encode host)).length = len) (hbound : len ≤ 2147483647) :
    decodesLoop host inflate memory len fuel position tmp =
      if messages.length ≤ fuel then some (callsAt host memory position messages) else none := by
  induction messages generalizing fuel position tmp with
  | nil =>
    have hend : ¬ position < len := by
      rw [List.flatMap_nil, List.length_nil] at hlen
      omega
    rw [List.length_nil, if_pos (Nat.zero_le fuel), callsAt]
    cases fuel with
    | zero => rw [decodesLoop, if_neg hend]
    | succ fuel => rw [decodesLoop, if_neg hend]
  | cons message rest ih =>
    have hpositive := message.encode_length_pos host
    rw [List.flatMap_cons, List.length_append] at hlen
    rw [List.flatMap_cons, holds_append] at hholds
    have hinside : position < len := by omega
    cases fuel with
    | zero => rw [decodesLoop, if_pos hinside, if_neg (by simp)]
    | succ fuel =>
      obtain ⟨-, hoffset⟩ := decode_encode hholds.1 (by omega)
      have hnext : toInt32 (position + (message.encode host).length) =
          position + (message.encode host).length := toInt32_eq_self (by omega) (by omega)
      rw [decodesLoop, if_pos hinside]
      dsimp only
      rw [hoffset, Option.getD_some, hnext, ih fuel _ hholds.2 (by omega) (by omega), callsAt]
      by_cases henough : rest.length ≤ fuel
      · rw [if_pos henough, if_pos (by simpa using henough)]
        rfl
      · rw [if_neg henough, if_neg (by simpa using henough)]
        rfl

end Lists

/-- A message is read back as it was stored exactly when it has properties, and its stored bytes are
its body or the buffer for the body can grow. -/
theorem readBack_eq_iff (host : ByteOrder) (message : StoredMessage inflate) :
    message.readBack host = message.toMessageExt host ↔
      message.properties.isEmpty = false ∧
        (message.storedBody = message.body ∨ inflate.Grows message.storedBody) := by
  have hbody : message.readBody = message.body ↔
      message.storedBody = message.body ∨ inflate.Grows message.storedBody := by
    unfold readBody
    by_cases hread : message.storedBody = message.body ∨ inflate.Grows message.storedBody
    · rw [if_pos hread]
      exact iff_of_true rfl hread
    · rw [if_neg hread]
      exact iff_of_false (fun hsame ↦ hread (Or.inl hsame)) hread
  have hset : ((if message.readBody = [] then none else some message.readBody) =
      if message.body = [] then none else some message.body) ↔
        message.readBody = message.body := by
    by_cases hread : message.readBody = []
    · by_cases hempty : message.body = [] <;> simp [hread, hempty, eq_comm]
    · by_cases hempty : message.body = [] <;> simp [hread, hempty]
  have hproperties : message.readProperties = message.properties ↔
      message.properties.isEmpty = false := by
    unfold readProperties
    by_cases hempty : message.properties.isEmpty = true
    · rw [if_pos hempty]
      refine iff_of_false (fun hsame ↦ ?_) (by rw [hempty]; decide)
      rw [← hsame] at hempty
      exact absurd hempty (by decide)
    · rw [if_neg hempty]
      exact iff_of_true rfl (by simpa using hempty)
  rw [← hproperties, ← hbody, ← hset]
  unfold readBack toMessageExt
  simp only [MessageExt.mk.injEq, true_and, and_true]
  exact And.comm

end StoredMessage

/-- Assumes: the records lie in memory one behind the other, and their length is a 32-bit integer.
`decodes` returns the messages in order, every call reporting the length of its record, exactly when
every message has properties and the buffer for every compressed body can grow. -/
theorem decodes_encode_iff {host : ByteOrder} {inflate : Inflate} {memory : Memory}
    {messages : List (StoredMessage inflate)} (tmp : ℤ)
    (hholds : Holds memory 0 (messages.flatMap (StoredMessage.encode host)))
    (hlength : (messages.flatMap (StoredMessage.encode host)).length ≤ 2147483647) :
    (∃ fuel calls, decodesLoop host inflate memory
          (messages.flatMap (StoredMessage.encode host)).length fuel 0 tmp = some calls ∧
        calls.map DecodeCall.message =
          messages.map (fun message ↦ some (message.toMessageExt host)) ∧
        calls.map DecodeCall.offset =
          messages.map fun message ↦ some ((message.encode host).length : ℤ)) ↔
      ∀ message ∈ messages, message.properties.isEmpty = false ∧
        (message.storedBody = message.body ∨ inflate.Grows message.storedBody) := by
  obtain ⟨hmessages, hoffsets⟩ := StoredMessage.callsAt_results hholds hlength
  have hloop := fun fuel ↦ @StoredMessage.decodesLoop_encode inflate host memory 0 messages _ fuel
    tmp hholds (le_refl 0) (Int.zero_add _) (by exact_mod_cast hlength)
  have hread : (messages.map (fun message ↦ some (message.readBack host)) =
      messages.map fun message ↦ some (message.toMessageExt host)) ↔
        ∀ message ∈ messages, message.properties.isEmpty = false ∧
          (message.storedBody = message.body ∨ inflate.Grows message.storedBody) := by
    rw [List.map_inj_left]
    refine forall₂_congr fun message _ ↦ ?_
    rw [Option.some.injEq, StoredMessage.readBack_eq_iff]
  rw [← hread, ← hmessages]
  constructor
  · rintro ⟨fuel, calls, hcalls, hequal, -⟩
    rw [hloop fuel] at hcalls
    split_ifs at hcalls with henough
    rw [Option.some.inj hcalls, hequal]
  · intro hequal
    refine ⟨messages.length, _, ?_, hequal, hoffsets⟩
    rw [hloop, if_pos (Nat.le_refl _)]

/-! ### Two messages -/

/-- Memory with the given bytes, and zeros around them. -/
def memoryOf (bytes : ByteString) : Memory := fun position ↦
  if position < 0 then 0 else bytes.getD position.toNat 0

theorem holds_memoryOf (bytes : ByteString) : Holds (memoryOf bytes) 0 bytes := by
  refine List.ext_getElem (length_bytesAt _ _ _) fun index hleft hright ↦ ?_
  simp only [bytesAt, List.getElem_map, List.getElem_range, memoryOf]
  rw [if_neg (by omega)]
  simp [List.getD, hright]

/-- What the compression library makes of sixty letters `a`. -/
def sixtyLettersStream : ByteString := [120, 94, 75, 76, 36, 31, 0, 0, 181, 192, 22, 189]

/-- The decompression of the library, as far as one input goes. -/
def inflateOfSixtyLetters : Inflate where
  pieces := fun input ↦ if input = sixtyLettersStream then [List.replicate 60 97] else []
  status := fun input ↦ if input = sixtyLettersStream then .streamEnd else .error
  length_le := by
    intro input piece hpiece
    split_ifs at hpiece with hinput
    · rw [List.mem_singleton.mp hpiece]
      decide
    · exact absurd hpiece List.not_mem_nil
  pieces_nil := rfl

/-- A message with the body `x` in the topic `t`, without properties. -/
def bareMessage (inflate : Inflate) : StoredMessage inflate where
  storeSize := 93
  magicCode := 0xaabbccdd
  bodyCRC := 0
  queueId := 3
  flag := 0
  queueOffset := 42
  physicOffset := 1000
  sysFlag := 0
  bornTimestamp := 0
  bornHost := SockAddrIn.ofIPv4 .little 10 0 0 2 50180
  storeTimestamp := 0
  storeHost := SockAddrIn.ofIPv4 .little 10 0 0 1 10911
  reconsumeTimes := 0
  preparedTransactionOffset := 0
  body := [120]
  storedBody := [120]
  topic := [116]
  properties := OrderedMap.empty
  stored := by rw [if_neg (by decide)]
  body_length := by decide
  topic_plain := by decide
  topic_length := by decide
  properties_plain := fun _ hproperty ↦ absurd hproperty List.not_mem_nil
  properties_length := by decide

/-- The same message with a property. -/
def taggedMessage (inflate : Inflate) : StoredMessage inflate :=
  { bareMessage inflate with
    storeSize := 97
    properties := ⟨[([97], [98])], List.pairwise_singleton _ _⟩
    properties_plain := by
      intro property hproperty byte hbyte
      rw [List.mem_singleton.mp hproperty] at hbyte
      rcases List.mem_pair.mp hbyte with rfl | rfl <;> decide
    properties_length := by decide }

/-- The message behind it, whose body is compressed. -/
def compressedMessage : StoredMessage inflateOfSixtyLetters :=
  { taggedMessage inflateOfSixtyLetters with
    storeSize := 108
    queueOffset := 43
    physicOffset := 1097
    sysFlag := 1
    body := List.replicate 60 97
    storedBody := sixtyLettersStream
    stored := ⟨rfl, rfl⟩
    body_length := by decide }

/-- The two messages are read back, the second one with the body that was compressed. -/
theorem decodes_two_messages :
    let messages := [taggedMessage inflateOfSixtyLetters, compressedMessage]
    let bytes := messages.flatMap (StoredMessage.encode .little)
    ∃ fuel calls, decodesLoop .little inflateOfSixtyLetters (memoryOf bytes) bytes.length fuel 0 0 =
        some calls ∧
      calls.map DecodeCall.message =
        messages.map (fun message ↦ some (message.toMessageExt .little)) ∧
      (compressedMessage.toMessageExt .little).body = some (List.replicate 60 97) ∧
      calls.map DecodeCall.offset = [some 97, some 108] := by
  intro messages bytes
  have hread : ∀ message ∈ messages, message.properties.isEmpty = false ∧
      (message.storedBody = message.body ∨
        inflateOfSixtyLetters.Grows message.storedBody) := by
    intro message hmessage
    rcases List.mem_pair.mp hmessage with rfl | rfl
    · exact ⟨rfl, Or.inl rfl⟩
    · exact ⟨rfl, Or.inr (by decide)⟩
  obtain ⟨fuel, calls, hcalls, hmessages, hoffsets⟩ :=
    (decodes_encode_iff 0 (holds_memoryOf bytes) (by decide +kernel)).mpr hread
  exact ⟨fuel, calls, hcalls, hmessages, by decide, hoffsets⟩

/-- A message without properties is read back with one. -/
theorem decodes_bare_message :
    let message := bareMessage rejectingInflate
    ¬ ∃ fuel calls, decodesLoop .little rejectingInflate
          (memoryOf ([message].flatMap (StoredMessage.encode .little)))
          ([message].flatMap (StoredMessage.encode .little)).length fuel 0 0 = some calls ∧
      calls.map DecodeCall.message = [some (message.toMessageExt .little)] := by
  rintro message ⟨fuel, calls, hcalls, hequal⟩
  have hlength : ([message].flatMap (StoredMessage.encode .little)).length ≤ 2147483647 := by
    decide
  rw [StoredMessage.decodesLoop_encode fuel 0 (holds_memoryOf _) (le_refl 0) (Int.zero_add _)
    (by exact_mod_cast hlength)] at hcalls
  split_ifs at hcalls
  rw [← Option.some.inj hcalls,
    (StoredMessage.callsAt_results (holds_memoryOf _) hlength).1] at hequal
  have hread := (StoredMessage.readBack_eq_iff .little _).mp
    (Option.some.inj (List.cons.inj hequal).1)
  exact absurd hread.1 (by decide)

end RocketMQClient.Messages
