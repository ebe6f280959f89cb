import RocketMQClient.Library.Fallible
import RocketMQClient.Protocol.RemotingCommand

/-!
# When a frame is decoded

The conditions on a document under which `Decode` and the decoders of the custom headers succeed,
and what they then return. `HeadTyped` is the condition on the head (`ofHead_succeeds_iff`) and
`ExtTyped` the one on `extFields` (`CommandCustomHeader.decode_succeeds_iff`): the values have to be
convertible to what they are read as. A document that is null is one whose members are all missing.

The conditions are stated on the value of the document, with the conversions of the JSON library as
they are. They are what the receive path and the codec need of the decoders, which they do not
unfold again.
-/

set_option autoImplicit false
set_option relaxedAutoImplicit false

namespace RocketMQClient.Protocol

open Library Factory

/-! ### Conversions -/

namespace Value

/-- A value whose members can be asked for. -/
def IsStruct : Value → Prop
  | null | object _ => True
  | _ => False

/-- A value that is convertible to an `int`. -/
def HasInt : Value → Prop
  | null | int _ | boolean _ => True
  | uint value => (value : ℤ) < maxInt
  | real (.finite value) => (minInt : ℚ) ≤ value ∧ value ≤ (maxInt : ℚ)
  | _ => False

/-- A value that is convertible to a string. -/
def HasString : Value → Prop
  | null | string _ | boolean _ => True
  | _ => False

/-- The value of a member; a missing member is null. -/
def memberAt (value : Value) (name : String) : Value :=
  match value with
  | object members => (findMember (cString (ofString name)) members).getD null
  | _ => null

/-- The `int` that a value is converted to. -/
def toInt (value : Value) : BitVec 32 :=
  match value.asInt with
  | .ok number => BitVec.ofInt 32 number
  | .error _ => 0

/-- The string that a value is converted to. -/
def toText (value : Value) : ByteString :=
  match value.asString with
  | .ok text => text
  | .error _ => []

theorem asInt_succeeds_iff (value : Value) : Succeeds value.asInt ↔ value.HasInt := by
  cases value with
  | uint value =>
    rw [asInt, HasInt]
    split <;> simp [*]
  | real value =>
    cases value with
    | finite value =>
      rw [asInt, HasInt]
      split <;> simp [*]
    | infinite negative => simp [asInt, HasInt]
  | _ => simp [asInt, HasInt]

theorem asString_succeeds_iff (value : Value) : Succeeds value.asString ↔ value.HasString := by
  cases value <;> simp [asString, HasString]

end Value

variable {value : Value} {name : String}

theorem memberOf_succeeds_iff : Succeeds (memberOf value name) ↔ value.IsStruct := by
  rw [memberOf, succeeds_mapError]
  cases value <;> simp [Value.member, Value.IsStruct]

theorem memberOf_eq (hstruct : value.IsStruct) :
    memberOf value name = .ok (value.memberAt name) := by
  cases value <;> first
    | rfl
    | exact hstruct.elim

theorem stringOf_succeeds_iff :
    Succeeds (stringOf value name) ↔ value.IsStruct ∧ (value.memberAt name).HasString := by
  by_cases hstruct : value.IsStruct
  · rw [stringOf, succeeds_bind_of_ok (memberOf_eq hstruct), succeeds_mapError,
      Value.asString_succeeds_iff, and_iff_right hstruct]
  · refine iff_of_false (fun hrun ↦ hstruct ?_) fun hboth ↦ hstruct hboth.1
    exact memberOf_succeeds_iff.mp (succeeds_of_bind hrun)

theorem stringOf_eq (hstruct : value.IsStruct) (hstring : (value.memberAt name).HasString) :
    stringOf value name = .ok (value.memberAt name).toText := by
  obtain ⟨text, htext⟩ := (Value.asString_succeeds_iff _).mpr hstring
  rw [stringOf, memberOf_eq hstruct, Value.toText, htext]
  show (Value.asString (value.memberAt name)).mapError DecodeFailure.value = _
  rw [htext]
  rfl

theorem intOf_succeeds_iff :
    Succeeds (intOf value name) ↔ value.IsStruct ∧ (value.memberAt name).HasInt := by
  by_cases hstruct : value.IsStruct
  · rw [intOf, succeeds_bind_of_ok (memberOf_eq hstruct), succeeds_bind_pure, succeeds_mapError,
      Value.asInt_succeeds_iff, and_iff_right hstruct]
  · refine iff_of_false (fun hrun ↦ hstruct ?_) fun hboth ↦ hstruct hboth.1
    exact memberOf_succeeds_iff.mp (succeeds_of_bind hrun)

theorem intOf_eq (hstruct : value.IsStruct) (hint : (value.memberAt name).HasInt) :
    intOf value name = .ok (value.memberAt name).toInt := by
  obtain ⟨number, hnumber⟩ := (Value.asInt_succeeds_iff _).mpr hint
  rw [intOf, memberOf_eq hstruct, Value.toInt, hnumber]
  show ((Value.asInt (value.memberAt name)).mapError DecodeFailure.value >>= fun number ↦
    pure (BitVec.ofInt 32 number)) = _
  rw [hnumber]
  rfl

/-! ### The head and the body -/

/-- The head of a command can be taken from a document. -/
structure HeadTyped (document : Value) : Prop where
  isStruct : document.IsStruct
  code : (document.memberAt "code").HasInt
  language : (document.memberAt "language").HasString
  version : (document.memberAt "version").HasInt
  opaqueId : (document.memberAt "opaque").HasInt
  flag : (document.memberAt "flag").HasInt
  remark : (document.memberAt "remark").HasString

/-- The command of a head, without a body. -/
def commandAt (document : Value) : RemotingCommand where
  code := (document.memberAt "code").toInt
  language := (document.memberAt "language").toText
  version := (document.memberAt "version").toInt
  opaqueId := (document.memberAt "opaque").toInt
  flag := (document.memberAt "flag").toInt
  remark := (document.memberAt "remark").toText
  customHeader := none
  head := []
  body := []

variable {document : Value} {frame : ByteString}

/-- The remark that is read: none for a null value. -/
theorem remark_eq (hstruct : document.IsStruct) (hstring : (document.memberAt name).HasString) :
    (if (document.memberAt name).isNull then .ok [] else stringOf document name) =
      .ok (document.memberAt name).toText := by
  rw [stringOf_eq hstruct hstring]
  cases document.memberAt name <;> rfl

theorem ofHead_eq (htyped : HeadTyped document) :
    RemotingCommand.ofHead document = .ok (commandAt document) := by
  obtain ⟨hstruct, hcode, hlanguage, hversion, hopaque, hflag, hremark⟩ := htyped
  rw [RemotingCommand.ofHead, intOf_eq hstruct hcode, stringOf_eq hstruct hlanguage,
    intOf_eq hstruct hversion, intOf_eq hstruct hopaque, intOf_eq hstruct hflag,
    memberOf_eq hstruct]
  have hread := remark_eq hstruct hremark
  by_cases hnull : (document.memberAt "remark").isNull = true
  · rw [if_pos hnull] at hread
    show (if (document.memberAt "remark").isNull = true then _ else _) = _
    rw [if_pos hnull, hread]
    rfl
  · rw [if_neg hnull] at hread
    show (if (document.memberAt "remark").isNull = true then _ else _) = _
    rw [if_neg hnull, hread]
    rfl

/-- The head of a command is read exactly from the documents that have one. -/
theorem ofHead_succeeds_iff : Succeeds (RemotingCommand.ofHead document) ↔ HeadTyped document := by
  constructor
  · intro hrun
    obtain ⟨code, hcode, hrun⟩ := succeeds_bind.mp hrun
    obtain ⟨language, hlanguage, hrun⟩ := succeeds_bind.mp hrun
    obtain ⟨version, hversion, hrun⟩ := succeeds_bind.mp hrun
    obtain ⟨opaqueId, hopaque, hrun⟩ := succeeds_bind.mp hrun
    obtain ⟨flag, hflag, hrun⟩ := succeeds_bind.mp hrun
    obtain ⟨value, hvalue, hrun⟩ := succeeds_bind.mp hrun
    obtain ⟨hstruct, hint⟩ := intOf_succeeds_iff.mp ⟨code, hcode⟩
    refine ⟨hstruct, hint, (stringOf_succeeds_iff.mp ⟨language, hlanguage⟩).2,
      (intOf_succeeds_iff.mp ⟨version, hversion⟩).2, (intOf_succeeds_iff.mp ⟨opaqueId, hopaque⟩).2,
      (intOf_succeeds_iff.mp ⟨flag, hflag⟩).2, ?_⟩
    rw [memberOf_eq hstruct] at hvalue
    obtain rfl := Except.ok.inj hvalue
    by_cases hnull : (document.memberAt "remark").isNull = true
    · cases hmember : document.memberAt "remark" <;> simp [hmember, Value.isNull] at hnull
      trivial
    · have hremark : Succeeds (if (document.memberAt "remark").isNull = true then _ else _) := hrun
      rw [if_neg hnull] at hremark
      exact (stringOf_succeeds_iff.mp (succeeds_of_bind hremark)).2
  · exact fun htyped ↦ ⟨_, ofHead_eq htyped⟩

/-- The body of a frame lies inside it. -/
def BodyInside (frame : ByteString) : Prop :=
  toInt32 (frame.length - 8 - frameHeadLen frame) ≤ 0 ∨ 0 ≤ 8 + frameHeadLen frame

instance (frame : ByteString) : Decidable (BodyInside frame) := inferInstanceAs (Decidable (_ ∨ _))

theorem frameBody_succeeds_iff : Succeeds (frameBody frame) ↔ BodyInside frame := by
  rw [frameBody, BodyInside]
  split
  · simp [*]
  · split <;> simp [*]
    omega

theorem readDocument_eq_some_iff {text : ByteString} :
    readDocument text = .ok (some document) ↔ parse text = .ok document := by
  rw [readDocument]
  cases hparse : parse text with
  | ok value => simp
  | error fault => cases fault <;> simp

/-- The frame of a command has room for the two lengths, a typed head and a body inside it. -/
structure IsCommand (frame : ByteString) (document : Value) : Prop where
  long : 8 ≤ frame.length
  parsed : parse (frameDocument frame) = .ok document
  head : HeadTyped document
  body : BodyInside frame

theorem IsCommand.decode_eq (hcommand : IsCommand frame document) :
    ∃ body, RemotingCommand.decode frame = .ok (some { commandAt document with body := body }) := by
  obtain ⟨hlong, hparsed, hhead, hbody⟩ := hcommand
  obtain ⟨body, hbody⟩ := frameBody_succeeds_iff.mpr hbody
  refine ⟨body, ?_⟩
  rw [RemotingCommand.decode, if_neg (by omega), readDocument_eq_some_iff.mpr hparsed]
  show ((RemotingCommand.ofHead document).mapError FrameFailure.decode >>= fun command ↦
    frameBody frame >>= fun body ↦ .ok (some { command with body := body })) = _
  rw [ofHead_eq hhead, hbody]
  rfl

/-- What is decoded to a command is the frame of one. -/
theorem isCommand_of_decode {command : RemotingCommand}
    (hdecode : RemotingCommand.decode frame = .ok (some command)) :
    ∃ document, IsCommand frame document := by
  rw [RemotingCommand.decode] at hdecode
  split at hdecode
  · exact absurd hdecode (by simp)
  · rename_i hlong
    cases hread : readDocument (frameDocument frame) with
    | error failure =>
      rw [hread] at hdecode
      exact absurd hdecode (by simp [Except.mapError, bind, Except.bind])
    | ok document =>
      rw [hread] at hdecode
      cases document with
      | none =>
        exact absurd hdecode (by simp [Except.mapError, bind, Except.bind, pure, Except.pure])
      | some document =>
        have hrun : Succeeds ((RemotingCommand.ofHead document).mapError FrameFailure.decode >>=
            fun command ↦ frameBody frame >>= fun body ↦
              .ok (some { command with body := body })) := ⟨_, hdecode⟩
        obtain ⟨head, hhead, hbody⟩ := succeeds_bind.mp hrun
        exact ⟨document, by omega, readDocument_eq_some_iff.mp hread,
          ofHead_succeeds_iff.mp (succeeds_mapError.mp ⟨head, hhead⟩),
          frameBody_succeeds_iff.mp (succeeds_of_bind hbody)⟩

/-! ### Custom headers -/

namespace CommandCustomHeader

/-- The members that the decoder of a code reads, if there is one that reads any. -/
def members (code : ℤ) (isResponseType : Bool) : Option (List String) :=
  if isResponseType then
    if code = sendMessageValue then some ["msgId", "queueId", "queueOffset"]
    else if code = pullMessageValue then
      some ["suggestWhichBrokerId", "nextBeginOffset", "minOffset", "maxOffset"]
    else if code = getMaxOffsetValue ∨ code = getMinOffsetValue ∨
        code = queryConsumerOffsetValue then some ["offset"]
    else if code = getConsumerListByGroupValue then none
    else if code = heartBeatValue ∨ code = unregisterClientValue then none
    else if code = searchOffsetByTimestampValue then some ["offset"]
    else if code = getEarliestMsgStoretimeValue then some ["timestamp"]
    else none
  else if code = notifyConsumerIdsChangedValue then some ["consumerGroup"]
  else none

/-- Members that are convertible to strings. -/
def ExtTyped (names : List String) (ext : Value) : Prop :=
  ext.IsStruct ∧ ∀ name ∈ names, (ext.memberAt name).HasString

variable {ext : Value} {names : List String}

theorem extTyped_cons :
    ExtTyped (name :: names) ext ↔
      (ext.IsStruct ∧ (ext.memberAt name).HasString) ∧ ExtTyped names ext := by
  rw [ExtTyped, ExtTyped, List.forall_mem_cons]
  tauto

theorem extTyped_singleton :
    ExtTyped [name] ext ↔ ext.IsStruct ∧ (ext.memberAt name).HasString := by
  rw [ExtTyped, List.forall_mem_singleton]

theorem intTextOf_succeeds_iff :
    Succeeds (intTextOf ext name) ↔ ext.IsStruct ∧ (ext.memberAt name).HasString :=
  succeeds_bind_pure.trans stringOf_succeeds_iff

theorem longTextOf_succeeds_iff :
    Succeeds (longTextOf ext name) ↔ ext.IsStruct ∧ (ext.memberAt name).HasString :=
  succeeds_bind_pure.trans stringOf_succeeds_iff

theorem decodeSendMessageResponse_succeeds_iff :
    Succeeds (decodeSendMessageResponse ext) ↔
      ExtTyped ["msgId", "queueId", "queueOffset"] ext := by
  rw [extTyped_cons, extTyped_cons, extTyped_singleton, ← stringOf_succeeds_iff,
    ← intTextOf_succeeds_iff, ← longTextOf_succeeds_iff]
  exact succeeds_bind_iff fun _ ↦ succeeds_bind_iff fun _ ↦ succeeds_bind_pure

theorem decodePullMessageResponse_succeeds_iff :
    Succeeds (decodePullMessageResponse ext) ↔
      ExtTyped ["suggestWhichBrokerId", "nextBeginOffset", "minOffset", "maxOffset"] ext := by
  rw [extTyped_cons, extTyped_cons, extTyped_cons, extTyped_singleton, ← longTextOf_succeeds_iff,
    ← longTextOf_succeeds_iff, ← longTextOf_succeeds_iff, ← longTextOf_succeeds_iff]
  exact succeeds_bind_iff fun _ ↦ succeeds_bind_iff fun _ ↦ succeeds_bind_iff fun _ ↦
    succeeds_bind_pure

theorem decodeQueryConsumerOffsetResponse_succeeds_iff :
    Succeeds (decodeQueryConsumerOffsetResponse ext) ↔ ExtTyped ["offset"] ext :=
  succeeds_bind_pure.trans (longTextOf_succeeds_iff.trans extTyped_singleton.symm)

theorem decodeSearchOffsetResponse_succeeds_iff :
    Succeeds (decodeSearchOffsetResponse ext) ↔ ExtTyped ["offset"] ext :=
  succeeds_bind_pure.trans (longTextOf_succeeds_iff.trans extTyped_singleton.symm)

theorem decodeGetEarliestMsgStoretimeResponse_succeeds_iff :
    Succeeds (decodeGetEarliestMsgStoretimeResponse ext) ↔ ExtTyped ["timestamp"] ext :=
  succeeds_bind_pure.trans (longTextOf_succeeds_iff.trans extTyped_singleton.symm)

theorem decodeNotifyConsumerIdsChangedRequest_succeeds_iff :
    Succeeds (decodeNotifyConsumerIdsChangedRequest ext) ↔ ExtTyped ["consumerGroup"] ext :=
  succeeds_bind_pure.trans (stringOf_succeeds_iff.trans extTyped_singleton.symm)

variable {text : ByteString} {decodeExt : Value → Except DecodeFailure CommandCustomHeader}

/-- Of a document with members, `extFields` is decoded. -/
theorem decodeExtFields_eq (hparsed : parse text = .ok document) (hstruct : document.IsStruct) :
    decodeExtFields text decodeExt = some <$> decodeExt (document.memberAt "extFields") := by
  rw [decodeExtFields, readDocument_eq_some_iff.mpr hparsed]
  show (memberOf document "extFields" >>= fun ext ↦ decodeExt ext >>= fun header ↦
    pure (some header)) = _
  rw [memberOf_eq hstruct]
  show (decodeExt (document.memberAt "extFields") >>= fun header ↦ pure (some header)) = _
  rw [bind_pure_comp]

theorem decodeExtFields_succeeds_iff (hparsed : parse text = .ok document)
    (hstruct : document.IsStruct) :
    Succeeds (decodeExtFields text decodeExt) ↔
      Succeeds (decodeExt (document.memberAt "extFields")) := by
  rw [decodeExtFields_eq hparsed hstruct, ← bind_pure_comp]
  exact succeeds_bind_pure

/-- The header that is made of `extFields`. -/
theorem exists_of_decodeExtFields {customHeader : Option CommandCustomHeader}
    (hparsed : parse text = .ok document) (hstruct : document.IsStruct)
    (hdecode : decodeExtFields text decodeExt = .ok customHeader) :
    ∃ header, decodeExt (document.memberAt "extFields") = .ok header ∧
      customHeader = some header := by
  rw [decodeExtFields_eq hparsed hstruct, ← bind_pure_comp] at hdecode
  obtain ⟨header, hheader, hsome⟩ := bind_eq_ok_iff.mp hdecode
  exact ⟨header, hheader, (Except.ok.inj hsome).symm⟩

/-- The header of a document with members is decoded exactly when `extFields` has the members that
the decoder reads. -/
theorem decode_succeeds_iff (hparsed : parse text = .ok document) (hstruct : document.IsStruct)
    (code : ℤ) (isResponseType : Bool) :
    Succeeds (CommandCustomHeader.decode code text isResponseType) ↔
      ∀ names ∈ members code isResponseType, ExtTyped names (document.memberAt "extFields") := by
  rw [CommandCustomHeader.decode, members]
  split_ifs <;> simp [decodeExtFields_succeeds_iff hparsed hstruct,
    decodeSendMessageResponse_succeeds_iff, decodePullMessageResponse_succeeds_iff,
    decodeQueryConsumerOffsetResponse_succeeds_iff, decodeSearchOffsetResponse_succeeds_iff,
    decodeGetEarliestMsgStoretimeResponse_succeeds_iff,
    decodeNotifyConsumerIdsChangedRequest_succeeds_iff]

end CommandCustomHeader

end RocketMQClient.Protocol
