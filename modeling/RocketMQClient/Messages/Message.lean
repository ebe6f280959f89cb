import RocketMQClient.Library.ByteString
import RocketMQClient.Library.OrderedMap

/-!
# Messages and their bodies

A message has a topic, a flag, properties and a body, which is absent for a message built without
bytes. `setBody` replaces the body by a non-empty one and ignores an empty one. `decodeBody` is the
rule by which `MessageDecoder::decode` reads the body of a stored message: a body whose system flag
says that it is compressed is decompressed, and is taken as it is when that fails.

The compression library is the parameter `Zlib`. Its laws are those of the library's documentation:
decompression inverts compression, and a compressed stream is never empty. `Validators.checkMessage`
is the check that a producer makes before it sends a message.
-/

set_option autoImplicit false
set_option relaxedAutoImplicit false

namespace RocketMQClient.Messages

open Library

/-- A message of a producer. -/
structure Message where
  topic : ByteString
  flag : ℤ
  body : Option ByteString
  properties : OrderedMap ByteString ByteString
  deriving DecidableEq

namespace Message

/-- The property that marks a prepared transaction. -/
def propertyTransactionPrepared : ByteString := ofString "TRAN_MSG"

/-- The length of the body; the length of an absent body is not used. -/
def getBodyLen (msg : Message) : ℤ := (msg.body.getD []).length

/-- Replaces the body, unless the new one is empty. -/
def setBody (msg : Message) (body : ByteString) : Message :=
  if body.length > 0 then { msg with body := some body } else msg

/-- The value of a property, or the empty string. -/
def getProperty (msg : Message) (name : ByteString) : ByteString :=
  (msg.properties.find? name).getD []

end Message

namespace MessageSysFlag

/-- The body is compressed. -/
def compressedFlag : ℕ := 1

/-- The message is a prepared transaction. -/
def transactionPreparedType : ℕ := 4

end MessageSysFlag

/-- The compression library. -/
structure Zlib where
  compress : ByteString → ℤ → Option ByteString
  decompress : ByteString → Option ByteString
  decompress_compress : ∀ body level out, compress body level = some out →
    decompress out = some body
  compress_ne_nil : ∀ body level out, compress body level = some out → out ≠ []

/-- The body that `MessageDecoder::decode` sets for the bytes of a stored message. -/
def decodeBody (zlib : Zlib) (sysFlag : ℕ) (bytes : ByteString) : Option ByteString :=
  if bytes.length > 0 then
    if sysFlag &&& MessageSysFlag.compressedFlag = MessageSysFlag.compressedFlag then
      match zlib.decompress bytes with
      | some out => if out.length > 0 then some out else none
      | none => some bytes
    else some bytes
  else none

/-- A body that is not marked as compressed is read as it is. -/
theorem decodeBody_plain (zlib : Zlib) {sysFlag : ℕ} {bytes : ByteString} (hbytes : bytes ≠ [])
    (hflag : sysFlag &&& MessageSysFlag.compressedFlag ≠ MessageSysFlag.compressedFlag) :
    decodeBody zlib sysFlag bytes = some bytes := by
  rw [decodeBody, if_pos (List.length_pos_iff.mpr hbytes), if_neg hflag]

/-- A compressed body that is marked as such is read as the body that was compressed. -/
theorem decodeBody_compressed (zlib : Zlib) {sysFlag : ℕ} {body out : ByteString} {level : ℤ}
    (hbody : body ≠ [])
    (hflag : sysFlag &&& MessageSysFlag.compressedFlag = MessageSysFlag.compressedFlag)
    (hcompress : zlib.compress body level = some out) :
    decodeBody zlib sysFlag out = some body := by
  have hout := zlib.compress_ne_nil body level out hcompress
  rw [decodeBody, if_pos (List.length_pos_iff.mpr hout), if_pos hflag,
    zlib.decompress_compress body level out hcompress]
  exact if_pos (List.length_pos_iff.mpr hbody)

/-- A compressed empty body is read as no body. -/
theorem decodeBody_of_compressed_nil (zlib : Zlib) {sysFlag : ℕ} {out : ByteString} {level : ℤ}
    (hflag : sysFlag &&& MessageSysFlag.compressedFlag = MessageSysFlag.compressedFlag)
    (hcompress : zlib.compress [] level = some out) : decodeBody zlib sysFlag out = none := by
  have hout := zlib.compress_ne_nil [] level out hcompress
  rw [decodeBody, if_pos (List.length_pos_iff.mpr hout), if_pos hflag,
    zlib.decompress_compress [] level out hcompress]
  rfl

/-! ### Checks before sending -/

/-- A string without a character other than blanks. -/
def isBlank (string : ByteString) : Bool :=
  string.all fun byte ↦ byte ∈ ofString " \t\r\n"

namespace Validators

/-- The longest topic. -/
def characterMaxLength : ℕ := 255

/-- The characters a topic may have; the matcher only tests that the topic is not blank. -/
def validPatternStr : ByteString := ofString "^[a-zA-Z0-9_-]+$"

/-- The topic that creates others. -/
def defaultTopic : ByteString := ofString "TBW102"

/-- The test against a pattern. -/
def regularExpressionMatcher (origin patternStr : ByteString) : Bool :=
  if isBlank origin then false else if isBlank patternStr then true else true

/-- The error text for a topic that may not be used. -/
def checkTopic (topic : ByteString) : Option ByteString :=
  if isBlank topic then some (ofString "the specified topic is blank")
  else if topic.length > characterMaxLength then
    some (ofString "the specified topic is longer than topic max length 255.")
  else if topic = defaultTopic then
    some (ofString "the topic[" ++ topic ++ ofString "] is conflict with default topic.")
  else if !regularExpressionMatcher topic validPatternStr then
    some (ofString "the specified topic[" ++ topic ++
      ofString "] contains illegal characters, allowing only" ++ validPatternStr)
  else none

/-- The error text for a message that may not be sent. -/
def checkMessage (msg : Message) (maxMessageSize : ℤ) : Option ByteString :=
  match checkTopic msg.topic with
  | some text => some text
  | none =>
    if msg.body = none then some (ofString "the message body is null")
    else if msg.getBodyLen = 0 then some (ofString "the message body length is zero")
    else if msg.getBodyLen > maxMessageSize then
      some (ofString "the message body size over max value, MAX: " ++
        ofString (toString maxMessageSize))
    else none

/-- A message that may be sent has a body with at least one byte. -/
theorem exists_body_of_checkMessage {msg : Message} {maxMessageSize : ℤ}
    (hcheck : checkMessage msg maxMessageSize = none) :
    ∃ body, msg.body = some body ∧ body ≠ [] := by
  unfold checkMessage at hcheck
  cases htopic : checkTopic msg.topic with
  | some text => simp [htopic] at hcheck
  | none =>
    simp only [htopic] at hcheck
    split_ifs at hcheck with hnull hzero hlarge
    obtain ⟨body, hbody⟩ := Option.ne_none_iff_exists'.mp hnull
    refine ⟨body, hbody, fun hnil ↦ hzero ?_⟩
    rw [Message.getBodyLen, hbody, hnil]
    rfl

end Validators

end RocketMQClient.Messages
