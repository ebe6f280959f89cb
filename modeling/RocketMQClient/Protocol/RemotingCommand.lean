import RocketMQClient.Library.ByteOrder
import RocketMQClient.Library.MachineInt
import RocketMQClient.Protocol.CommandCustomHeader

/-!
# Remoting commands

A `RemotingCommand` travels as a frame: the length of what follows, the length of the head, the
head, which is a JSON object, and the body. `Encode` builds the two lengths and the head from the
fields as they are at that moment; `Decode` reads the head from the ninth byte of a frame up to its
first zero byte, and takes the body from the length of the head on.
-/

set_option autoImplicit false
set_option relaxedAutoImplicit false

namespace RocketMQClient.Protocol

open Library

/-- `RemotingCommand`; a command that has not been encoded has no head, and one without a body an
empty one. -/
structure RemotingCommand where
  code : BitVec 32
  language : ByteString
  version : BitVec 32
  opaqueId : BitVec 32
  flag : BitVec 32
  remark : ByteString
  customHeader : Option CommandCustomHeader
  head : ByteString
  body : ByteString
  deriving DecidableEq

namespace RemotingCommand

/-- The members of the head. -/
def headMembers (command : RemotingCommand) : List (ByteString × ByteString) :=
  [(ofString "code", decimal command.code.toInt), (ofString "language", quoted (ofString "CPP")),
    (ofString "version", decimal command.version.toInt),
    (ofString "opaque", decimal command.opaqueId.toInt),
    (ofString "flag", decimal command.flag.toInt), (ofString "remark", quoted command.remark),
    (ofString "extFields", match command.customHeader with
      | none => ofString "\x7b\x7d"
      | some header => header.encode (ofString "\x7b\x7d"))]

/-- The JSON text that `Encode` writes. -/
def headText (command : RemotingCommand) : ByteString := pasteObject command.headMembers

/-- `Encode`; nothing comes of it when the lengths do not fit into an `int`. -/
def encode (command : RemotingCommand) : Option RemotingCommand :=
  let headLen := command.headText.length
  if headLen + 8 ≤ 2147483647 then
    some { command with
      head := bigEndian 4 (headLen + 8 + command.body.length - 4) ++
        (bigEndian 4 headLen ++ command.headText) }
  else none

/-- The frame of a command that was encoded. -/
def frame (command : RemotingCommand) : ByteString := command.head ++ command.body

/-- `isResponseType`. -/
def isResponseType (command : RemotingCommand) : Bool := decide (command.flag &&& 1 = 1)

/-- `markOnewayRPC`. -/
def markOnewayRPC (command : RemotingCommand) : RemotingCommand :=
  { command with flag := command.flag ||| 2 }

/-- `isOnewayRPC`. -/
def isOnewayRPC (command : RemotingCommand) : Bool := decide (command.flag &&& 2 = 2)

/-- `createRequestCommand`, with the next number of the sequence and the configured version. -/
def createRequestCommand (code : BitVec 32) (customHeader : Option CommandCustomHeader)
    (opaqueId version : BitVec 32) : RemotingCommand where
  code := code
  language := ofString "CPP"
  version := version
  opaqueId := opaqueId
  flag := 0
  remark := []
  customHeader := customHeader
  head := []
  body := []

/-- `SetBody`. -/
def setBody (command : RemotingCommand) (body : ByteString) : RemotingCommand :=
  { command with body := body }

end RemotingCommand

/-! ### Decoding a frame -/

/-- What `Decode` reads as a C string, from the ninth byte of a frame. -/
def frameDocument (frame : ByteString) : ByteString := cString (frame.drop 8)

/-- The second length of a frame, as a signed number. -/
def frameHeadLen (frame : ByteString) : ℤ := toInt32 (ofBigEndian ((frame.drop 4).take 4))

/-- How `Decode` fails other than by returning a null pointer. -/
inductive FrameFailure where
  | decode (failure : DecodeFailure)
  /-- Bytes outside the frame are read. -/
  | outsideFrame
  deriving DecidableEq

/-- The body of a frame. -/
def frameBody (frame : ByteString) : Except FrameFailure ByteString :=
  let bodyLen := toInt32 (frame.length - 8 - frameHeadLen frame)
  if bodyLen ≤ 0 then .ok []
  else if 8 + frameHeadLen frame < 0 then .error .outsideFrame
  else .ok ((frame.drop (8 + frameHeadLen frame).toNat).take bodyLen.toNat)

namespace RemotingCommand

/-- The command of a head. -/
def ofHead (object : Value) : Except DecodeFailure RemotingCommand := do
  let code ← intOf object "code"
  let language ← stringOf object "language"
  let version ← intOf object "version"
  let opaqueId ← intOf object "opaque"
  let flag ← intOf object "flag"
  let v ← memberOf object "remark"
  let remark ← if v.isNull then .ok [] else stringOf object "remark"
  return ⟨code, language, version, opaqueId, flag, remark, none, [], []⟩

/-- `Decode`; the result is absent for a null pointer. -/
def decode (frame : ByteString) : Except FrameFailure (Option RemotingCommand) :=
  if frame.length < 8 then .error .outsideFrame
  else do
    match ← (readDocument (frameDocument frame)).mapError .decode with
    | none => return none
    | some object =>
      let command ← (ofHead object).mapError .decode
      let body ← frameBody frame
      return some { command with body := body }

end RemotingCommand

end RocketMQClient.Protocol
