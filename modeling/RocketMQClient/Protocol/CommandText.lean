import RocketMQClient.Protocol.RemotingCommand

/-!
# The head of a command

What the reader makes of the head that `Encode` writes. When no string of the command has a quote or
a backslash, the head is read as the object of its members (`reads_headMembers`), whatever body
follows it, and `decode_frame` gives back the integers and the remark of the command. A zero byte
in one of the strings ends the document, and the frame is not decoded
(`decode_frame_of_zero`).

The head is an object whose member `extFields` is an object that is pasted in the same way, so that
one lemma about pasted values serves both (`Pasted.reads`). The frame comes into it through its two
lengths only: the body is what stands behind the head, and may be anything.
-/

set_option autoImplicit false
set_option relaxedAutoImplicit false

namespace RocketMQClient.Protocol

open Library

/-! ### Members of a head -/

/-- An integer of the size of a machine word. -/
def IsWord (value : ℤ) : Prop := value.natAbs < 10 ^ 20

namespace Pasted

/-- A string that is pasted is plain. -/
def IsPlain : Pasted → Prop
  | text value => Plain value
  | _ => True

/-- There is no zero byte in a string that is pasted. -/
def NoZero : Pasted → Prop
  | text value => 0 ∉ value
  | _ => True

instance (pasted : Pasted) : Decidable pasted.IsPlain :=
  match pasted with
  | text value => inferInstanceAs (Decidable (Plain value))
  | number _ | quotedNumber _ => inferInstanceAs (Decidable True)

instance (pasted : Pasted) : Decidable pasted.NoZero :=
  match pasted with
  | text value => inferInstanceAs (Decidable (0 ∉ value))
  | number _ | quotedNumber _ => inferInstanceAs (Decidable True)

/-- A number is a machine word. -/
def IsWord : Pasted → Prop
  | text _ => True
  | number value | quotedNumber value => Protocol.IsWord value

/-- The value that is read. -/
def read : Pasted → Value
  | text value => .ofStdString value
  | number value => numberValue value
  | quotedNumber value => .ofStdString (decimal value)

end Pasted

/-- The members that are written for the custom header of a command. -/
def extMembers (customHeader : Option CommandCustomHeader) : List (ByteString × Pasted) :=
  (customHeader.bind CommandCustomHeader.written).getD []

/-- The members of the head and the values that are read for them. -/
def headReads (command : RemotingCommand) : List (ByteString × Value) :=
  [(ofString "code", numberValue command.code.toInt),
    (ofString "language", .ofStdString (ofString "CPP")),
    (ofString "version", numberValue command.version.toInt),
    (ofString "opaque", numberValue command.opaqueId.toInt),
    (ofString "flag", numberValue command.flag.toInt),
    (ofString "remark", .ofStdString command.remark),
    (ofString "extFields",
      .object ((extMembers command.customHeader).map fun member ↦ (member.1, member.2.read)))]

namespace RemotingCommand

/-- The strings of a command that are pasted are plain. -/
structure PlainStrings (command : RemotingCommand) : Prop where
  remark : Plain command.remark
  customHeader : ∀ member ∈ extMembers command.customHeader, member.2.IsPlain

/-- There is no zero byte in the strings of a command that are pasted. -/
structure NoZero (command : RemotingCommand) : Prop where
  remark : 0 ∉ command.remark
  customHeader : ∀ member ∈ extMembers command.customHeader, member.2.NoZero

instance (command : RemotingCommand) : Decidable command.PlainStrings :=
  decidable_of_iff
    (Plain command.remark ∧ ∀ member ∈ extMembers command.customHeader, member.2.IsPlain)
    ⟨fun hboth ↦ ⟨hboth.1, hboth.2⟩, fun hplain ↦ ⟨hplain.1, hplain.2⟩⟩

instance (command : RemotingCommand) : Decidable command.NoZero :=
  decidable_of_iff
    ((Pasted.text command.remark).NoZero ∧
      ∀ member ∈ extMembers command.customHeader, member.2.NoZero)
    ⟨fun hboth ↦ ⟨hboth.1, hboth.2⟩, fun hzero ↦ ⟨hzero.1, hzero.2⟩⟩

end RemotingCommand

/-! ### Custom headers -/

theorem isWord_toInt {width : ℕ} (hwidth : width ≤ 64) (word : BitVec width) :
    IsWord word.toInt := by
  have hpower : 2 ^ width ≤ 2 ^ 64 := Nat.pow_le_pow_right (by decide) hwidth
  have hupper : 2 * word.toInt < ((2 ^ width : ℕ) : ℤ) := by
    exact_mod_cast BitVec.two_mul_toInt_lt
  have hlower : -((2 ^ width : ℕ) : ℤ) ≤ 2 * word.toInt := by
    exact_mod_cast BitVec.le_two_mul_toInt
  rw [IsWord]
  omega

theorem isWord_int (word : BitVec 32) : IsWord word.toInt := isWord_toInt (by decide) word

theorem isWord_long (word : BitVec 64) : IsWord word.toInt := isWord_toInt (by decide) word

theorem isWord_ofBool (value : Bool) : IsWord (ofBool value) := by
  rw [IsWord]
  cases value <;> decide

namespace CommandCustomHeader

variable {header : CommandCustomHeader} {members : List (ByteString × Pasted)}

/-- The names of the members of a header are plain and different. -/
theorem written_names (hmembers : header.written = some members) :
    (∀ name ∈ members.map Prod.fst, PlainName name) ∧ (members.map Prod.fst).Nodup := by
  cases header <;> first
    | obtain rfl := Option.some.inj hmembers
      simp only [List.map]
      decide
    | exact absurd hmembers.symm (Option.some_ne_none members)

/-- The numbers of a header are machine words. -/
theorem written_words (hmembers : header.written = some members) :
    ∀ member ∈ members, member.2.IsWord := by
  cases header <;> first
    | obtain rfl := Option.some.inj hmembers
      simp [Pasted.IsWord, isWord_int, isWord_long, isWord_ofBool]
    | exact absurd hmembers.symm (Option.some_ne_none members)

end CommandCustomHeader

/-- The members of a custom header have plain and different names, and its numbers are machine
words. -/
theorem extMembers_spec (customHeader : Option CommandCustomHeader) :
    (∀ name ∈ (extMembers customHeader).map Prod.fst, PlainName name) ∧
      ((extMembers customHeader).map Prod.fst).Nodup ∧
        ∀ member ∈ extMembers customHeader, member.2.IsWord := by
  cases hwritten : customHeader.bind CommandCustomHeader.written with
  | none => simp [extMembers, hwritten]
  | some members =>
    obtain ⟨header, rfl, hmembers⟩ := Option.bind_eq_some_iff.mp hwritten
    have hext : extMembers (some header) = members := by rw [extMembers, hwritten, Option.getD_some]
    rw [hext]
    obtain ⟨hnames, hnodup⟩ := CommandCustomHeader.written_names hmembers
    exact ⟨hnames, hnodup, CommandCustomHeader.written_words hmembers⟩

/-- The text of `extFields` is the object of the members that are written. -/
theorem extText_eq (command : RemotingCommand) :
    command.headMembers = [(ofString "code", decimal command.code.toInt),
      (ofString "language", quoted (ofString "CPP")),
      (ofString "version", decimal command.version.toInt),
      (ofString "opaque", decimal command.opaqueId.toInt),
      (ofString "flag", decimal command.flag.toInt), (ofString "remark", quoted command.remark),
      (ofString "extFields", pasteObject
        ((extMembers command.customHeader).map fun member ↦ (member.1, member.2.paste)))] := by
  have hempty : ofString "\x7b\x7d" = pasteObject [] := by decide
  rw [RemotingCommand.headMembers]
  cases hheader : command.customHeader with
  | none => simp [extMembers, hempty]
  | some header =>
    cases hwritten : header.written <;>
      simp [extMembers, CommandCustomHeader.encode, hwritten, hempty]

/-! ### Reading a head -/

/-- The text of an integer stands for itself. -/
theorem decimal_plainName (value : ℤ) : PlainName (decimal value) := by
  obtain ⟨byte, digits, htext, hbyte, hdigits⟩ := decimal_cons value
  have habsent : ∀ other : Byte, isDigit other = false → other ≠ 45 → other ∉ decimal value := by
    intro other hother hminus hmem
    rw [htext] at hmem
    obtain rfl | hmem := List.mem_cons.mp hmem
    · exact hbyte.elim (fun hdigit ↦ by simp [hdigit] at hother) hminus
    · exact not_mem_of_isDigit hdigits hother hmem
  exact ⟨⟨habsent 34 (by decide) (by decide), habsent 92 (by decide) (by decide)⟩,
    habsent 0 (by decide) (by decide)⟩

/-- A pasted value without a quote and a backslash is read. -/
theorem Pasted.reads {pasted : Pasted} (hplain : pasted.IsPlain) (hword : pasted.IsWord) :
    Reads pasted.paste pasted.read := by
  cases pasted with
  | text value => exact reads_quoted hplain
  | number value => exact reads_decimal hword
  | quotedNumber value => exact reads_quoted (decimal_plainName value).1

/-- The members of a custom header are read. -/
theorem readsMember_extMembers {customHeader : Option CommandCustomHeader}
    (hplain : ∀ member ∈ extMembers customHeader, member.2.IsPlain) :
    List.Forall₂ ReadsMember
      ((extMembers customHeader).map fun member ↦ (member.1, member.2.paste))
      ((extMembers customHeader).map fun member ↦ (member.1, member.2.read)) := by
  obtain ⟨hnames, -, hwords⟩ := extMembers_spec customHeader
  rw [List.forall₂_map_left_iff, List.forall₂_map_right_iff, List.forall₂_same]
  intro member hmember
  exact ⟨rfl, hnames _ (List.mem_map_of_mem hmember),
    (Pasted.reads (hplain member hmember) (hwords member hmember))⟩

/-- The members of a head are read. -/
theorem readsMember_headMembers {command : RemotingCommand} (hplain : command.PlainStrings) :
    List.Forall₂ ReadsMember command.headMembers (headReads command) := by
  have hext := readsMember_extMembers hplain.customHeader
  have hnodup := (extMembers_spec command.customHeader).2.1
  have hnumber : ∀ word : BitVec 32, Reads (decimal word.toInt) (numberValue word.toInt) :=
    fun word ↦ reads_decimal (isWord_int word)
  rw [extText_eq, headReads]
  have hmember : ∀ {name text : ByteString} {value : Value}, PlainName name → Reads text value →
      ReadsMember (name, text) (name, value) := fun hname hreads ↦ ⟨rfl, hname, hreads⟩
  refine .cons (hmember (by decide) (hnumber _)) (.cons (hmember (by decide)
    (reads_quoted (by decide))) (.cons (hmember (by decide) (hnumber _)) (.cons
    (hmember (by decide) (hnumber _)) (.cons (hmember (by decide) (hnumber _)) (.cons
    (hmember (by decide) (reads_quoted hplain.remark)) (.cons
    (hmember (by decide) (reads_pasteObject hext ?_)) .nil))))))
  simpa [Function.comp_def] using hnodup

theorem headReads_names (command : RemotingCommand) : ((headReads command).map Prod.fst).Nodup := by
  simp only [headReads, List.map]
  decide

/-- The head of a command is read, whatever follows it. -/
theorem parse_headText {command : RemotingCommand} (hplain : command.PlainStrings)
    (rest : ByteString) : parse (command.headText ++ rest) = .ok (.object (headReads command)) :=
  parse_pasteObject (readsMember_headMembers hplain) (headReads_names command) rest

/-! ### Frames -/

variable {command encoded : RemotingCommand}

/-- A frame is its two lengths, the head and the body. -/
theorem frame_eq (hencoded : command.encode = some encoded) :
    encoded.frame = bigEndian 4 (command.headText.length + 8 + command.body.length - 4) ++
      (bigEndian 4 command.headText.length ++ (command.headText ++ command.body)) ∧
    command.headText.length + 8 ≤ 2147483647 := by
  rw [RemotingCommand.encode] at hencoded
  split at hencoded
  · rename_i hlength
    obtain rfl := Option.some.inj hencoded
    exact ⟨by simp [RemotingCommand.frame], hlength⟩
  · exact absurd hencoded.symm (Option.some_ne_none encoded)

theorem frameDocument_frame (hencoded : command.encode = some encoded) :
    frameDocument encoded.frame = cString (command.headText ++ command.body) := by
  rw [frameDocument, (frame_eq hencoded).1, ← List.append_assoc, List.drop_left' (by simp)]

theorem frameHeadLen_frame (hencoded : command.encode = some encoded) :
    frameHeadLen encoded.frame = command.headText.length := by
  obtain ⟨hsent, hlength⟩ := frame_eq hencoded
  have hbytes : (encoded.frame.drop 4).take 4 = bigEndian 4 command.headText.length := by
    rw [hsent, List.drop_left' (by simp), List.take_left' (by simp)]
  rw [frameHeadLen, hbytes, ofBigEndian_bigEndian, Nat.mod_eq_of_lt (by omega)]
  exact toInt32_eq_self (by omega) (by omega)

/-- The body of a frame whose length fits into an `int` is the body of the command. -/
theorem frameBody_frame_of_length (hencoded : command.encode = some encoded)
    (hsize : encoded.frame.length ≤ 2147483647) :
    frameBody encoded.frame = .ok command.body := by
  obtain ⟨hsent, -⟩ := frame_eq hencoded
  have hlength : encoded.frame.length = 8 + command.headText.length + command.body.length := by
    rw [hsent]
    simp
    omega
  have hbodyLen : toInt32 (encoded.frame.length - 8 - frameHeadLen encoded.frame) =
      command.body.length := by
    rw [frameHeadLen_frame hencoded, toInt32_eq_self (by omega) (by omega)]
    omega
  have hdrop : encoded.frame.drop (8 + frameHeadLen encoded.frame).toNat = command.body := by
    rw [frameHeadLen_frame hencoded, hsent, ← List.append_assoc, ← List.append_assoc]
    refine List.drop_left' ?_
    simp
    omega
  rw [frameBody, hbodyLen, hdrop]
  by_cases hempty : (command.body.length : ℤ) ≤ 0
  · have hnone : command.body = [] := List.length_eq_zero_iff.mp (by omega)
    rw [if_pos hempty, hnone]
  · rw [if_neg hempty, if_neg (by rw [frameHeadLen_frame hencoded]; omega), Int.toNat_natCast,
      List.take_length]

/-- The body of a frame that was sent lies inside it. -/
theorem frameBody_frame (hencoded : command.encode = some encoded) :
    ∃ body, frameBody encoded.frame = .ok body := by
  rw [frameBody, frameHeadLen_frame hencoded]
  split
  · exact ⟨_, rfl⟩
  · exact ⟨_, if_neg (by omega)⟩

/-! ### Decoding what was sent -/

/-- An `int` that was written is read back. -/
theorem asInt_numberValue (word : BitVec 32) : (numberValue word.toInt).asInt = .ok word.toInt := by
  have hupper : 2 * word.toInt < ((2 ^ 32 : ℕ) : ℤ) := by exact_mod_cast BitVec.two_mul_toInt_lt
  have hlower : -((2 ^ 32 : ℕ) : ℤ) ≤ 2 * word.toInt := by exact_mod_cast BitVec.le_two_mul_toInt
  have hmax : word.toInt ≤ maxInt := by
    rw [maxInt]
    omega
  have hmin : minInt ≤ word.toInt := by
    rw [minInt]
    omega
  have hbound : |(word.toInt : ℚ)| < 2 ^ 1024 := by
    rw [← Int.cast_abs, Int.abs_eq_natAbs, Int.cast_natCast]
    calc (word.toInt.natAbs : ℚ) < (2 ^ 32 : ℕ) := Nat.cast_lt.mpr (by omega)
      _ ≤ 2 ^ 32 := by norm_num
      _ ≤ 2 ^ 1024 := pow_le_pow_right₀ one_le_two (by decide)
  have hreal := (Double.ofRational_intCast_iff hbound).mpr (hasSignificand_of_lt (by omega))
  rw [numberValue, hreal, if_pos hmax]
  by_cases hsmall : word.toInt.natAbs / 10 < (if word.toInt < 0 then 214748364 else 429496729)
  · rw [if_pos hsmall]
    rfl
  · rw [if_neg hsmall, Value.asInt, if_pos ⟨Int.cast_le.mpr hmin, Int.cast_le.mpr hmax⟩]
    simp

/-- The integers and the strings of a head that was read. -/
theorem ofHead_headReads (hzero : command.NoZero) :
    RemotingCommand.ofHead (.object (headReads command)) =
      .ok { command with
        language := ofString "CPP", customHeader := none, head := [], body := [] } := by
  have hint : ∀ (name : String) (word : BitVec 32),
      findMember (cString (ofString name)) (headReads command) = some (numberValue word.toInt) →
        intOf (.object (headReads command)) name = .ok word := by
    intro name word hfind
    have hmember : memberOf (.object (headReads command)) name =
        .ok (numberValue word.toInt) := by
      rw [memberOf, Value.member, hfind]
      rfl
    rw [intOf, hmember]
    show ((numberValue word.toInt).asInt.mapError DecodeFailure.value).bind
      (fun number ↦ Except.ok (BitVec.ofInt 32 number)) = .ok word
    rw [asInt_numberValue]
    show Except.ok (BitVec.ofInt 32 word.toInt) = _
    rw [BitVec.ofInt_toInt]
  have hlanguage : stringOf (.object (headReads command)) "language" = .ok (ofString "CPP") := rfl
  have hremark : memberOf (.object (headReads command)) "remark" =
      .ok (.ofStdString command.remark) := rfl
  have htext : stringOf (.object (headReads command)) "remark" = .ok command.remark := by
    rw [stringOf, hremark]
    show Except.ok (cString command.remark) = _
    rw [cString_eq_self hzero.remark]
  rw [RemotingCommand.ofHead, hint "code" command.code rfl, hint "version" command.version rfl,
    hint "opaque" command.opaqueId rfl, hint "flag" command.flag rfl, hlanguage, hremark, htext]
  rfl

/-- There is no zero byte in a pasted value whose string has none. -/
theorem Pasted.NoZero.paste {pasted : Pasted} (hzero : pasted.NoZero) : 0 ∉ pasted.paste := by
  cases pasted with
  | text value => exact zero_not_mem_quoted hzero
  | number value => exact (decimal_plainName value).2
  | quotedNumber value => exact zero_not_mem_quoted (decimal_plainName value).2

/-- There is no zero byte in the head of a command without one in its strings. -/
theorem zero_not_mem_headText (hzero : command.NoZero) : 0 ∉ command.headText := by
  have hdecimal : ∀ word : BitVec 32, 0 ∉ decimal word.toInt :=
    fun word ↦ (decimal_plainName word.toInt).2
  have hext : 0 ∉ pasteObject
      ((extMembers command.customHeader).map fun member ↦ (member.1, member.2.paste)) :=
    zero_not_mem_pasteObject
      (List.forall_mem_map.mpr fun member hmember ↦
        (extMembers_spec command.customHeader).1 _ (List.mem_map_of_mem hmember))
      (List.forall_mem_map.mpr fun member hmember ↦ (hzero.customHeader member hmember).paste)
  rw [RemotingCommand.headText, extText_eq]
  refine zero_not_mem_pasteObject ?_ ?_
  · simp only [List.forall_mem_cons]
    decide
  · simp [hdecimal, hext, zero_not_mem_quoted hzero.remark]
    decide

/-- The frame of a command whose strings have no quote, no backslash and no zero byte is decoded to
the command, apart from its custom header and its head, with the body of the frame. -/
theorem decode_frame_of_body (hplain : command.PlainStrings) (hzero : command.NoZero)
    (hencoded : command.encode = some encoded) {body : ByteString}
    (hbody : frameBody encoded.frame = .ok body) :
    RemotingCommand.decode encoded.frame =
      .ok (some { command with
        language := ofString "CPP", customHeader := none, head := [], body := body }) := by
  have hlength : ¬ encoded.frame.length < 8 := by
    rw [(frame_eq hencoded).1]
    simp
    omega
  have hdocument : frameDocument encoded.frame = command.headText ++ cString command.body := by
    rw [frameDocument_frame hencoded, cString_append_of_not_mem (zero_not_mem_headText hzero)]
  have hread : readDocument (frameDocument encoded.frame) =
      .ok (some (.object (headReads command))) := by
    rw [hdocument, readDocument, parse_headText hplain]
  rw [RemotingCommand.decode, if_neg hlength, hread]
  show ((RemotingCommand.ofHead (.object (headReads command))).mapError FrameFailure.decode).bind
    (fun read ↦ (frameBody encoded.frame).bind fun body ↦ .ok (some { read with body := body })) =
      _
  rw [ofHead_headReads hzero, hbody]
  rfl

theorem decode_frame (hplain : command.PlainStrings) (hzero : command.NoZero)
    (hencoded : command.encode = some encoded) :
    ∃ body, RemotingCommand.decode encoded.frame =
      .ok (some { command with
        language := ofString "CPP", customHeader := none, head := [], body := body }) := by
  obtain ⟨body, hbody⟩ := frameBody_frame hencoded
  exact ⟨body, decode_frame_of_body hplain hzero hencoded hbody⟩

/-- A pasted value with a zero byte is no value when the document ends there. -/
theorem Pasted.breaks {pasted : Pasted} (hplain : pasted.IsPlain) (hzero : 0 ∈ pasted.paste) :
    Breaks pasted.paste := by
  cases pasted with
  | text value =>
    refine breaks_quoted hplain ?_
    by_contra hnone
    exact zero_not_mem_quoted hnone hzero
  | number value => exact absurd hzero (decimal_plainName value).2
  | quotedNumber value =>
    exact absurd hzero (zero_not_mem_quoted (decimal_plainName value).2)

/-- A pasted value whose text has no zero byte has none in its string. -/
theorem Pasted.noZero_of_paste {pasted : Pasted} (hzero : 0 ∉ pasted.paste) : pasted.NoZero := by
  cases pasted with
  | text value =>
    exact fun hmem ↦ hzero (List.mem_cons_of_mem _ (List.mem_append_left _ hmem))
  | number value => trivial
  | quotedNumber value => trivial

/-- A command whose head has no zero byte has none in its strings. -/
theorem noZero_of_headText (hzero : 0 ∉ command.headText) : command.NoZero := by
  have hvalue : ∀ member ∈ command.headMembers, 0 ∉ member.2 :=
    fun member hmember hmem ↦ hzero (subset_pasteObject hmember hmem)
  rw [extText_eq] at hvalue
  simp only [List.forall_mem_cons] at hvalue
  obtain ⟨-, -, -, -, -, hremark, hext, -⟩ := hvalue
  refine ⟨fun hmem ↦ hremark ?_, fun member hmember ↦ Pasted.noZero_of_paste fun hmem ↦ hext ?_⟩
  · exact List.mem_cons_of_mem _ (List.mem_append_left _ hmem)
  · exact subset_pasteObject (List.mem_map_of_mem hmember) hmem

/-- A head with a zero byte in one of its strings is no value when the document ends there. -/
theorem breaks_headText (hplain : command.PlainStrings) (hzero : 0 ∈ command.headText) :
    Breaks command.headText := by
  have hdecimal : ∀ word : BitVec 32, 0 ∈ decimal word.toInt → Breaks (decimal word.toInt) :=
    fun word hmem ↦ absurd hmem (decimal_plainName word.toInt).2
  have hremark : 0 ∈ quoted command.remark → Breaks (quoted command.remark) :=
    fun hmem ↦ @Pasted.breaks (.text command.remark) hplain.remark hmem
  have hext := readsMember_extMembers hplain.customHeader
  have hmembers : ∀ member ∈ (extMembers command.customHeader).map fun member ↦
      (member.1, member.2.paste), 0 ∈ member.2 → Breaks member.2 :=
    List.forall_mem_map.mpr fun member hmember ↦ Pasted.breaks (hplain.customHeader member hmember)
  refine breaks_pasteObject_of_mem (readsMember_headMembers hplain) ?_ hzero
  rw [extText_eq]
  simp only [List.forall_mem_cons]
  exact ⟨hdecimal _, fun hmem ↦ absurd hmem (by decide), hdecimal _, hdecimal _, hdecimal _,
    hremark, breaks_pasteObject_of_mem hext hmembers, List.forall_mem_nil _⟩

/-- The frame of a command with a zero byte in one of its strings is not decoded. -/
theorem decode_frame_of_zero (hplain : command.PlainStrings) (hzero : ¬ command.NoZero)
    (hencoded : command.encode = some encoded) (decoded : RemotingCommand) :
    RemotingCommand.decode encoded.frame ≠ .ok (some decoded) := by
  have hmem : 0 ∈ command.headText := by
    by_contra hnone
    exact hzero (noZero_of_headText hnone)
  obtain ⟨-, hopen⟩ := breaks_headText hplain hmem
  have hdocument : frameDocument encoded.frame = cString command.headText := by
    rw [frameDocument_frame hencoded, cString_append_of_mem hmem]
  obtain ⟨fault, hfault⟩ := hopen ((cString command.headText).length + 1) (Nat.lt_succ_self _)
  have hparse : parse (frameDocument encoded.frame) = .error fault := by
    rw [hdocument, parse, hfault]
    rfl
  have hlength : ¬ encoded.frame.length < 8 := by
    rw [(frame_eq hencoded).1]
    simp
    omega
  rw [RemotingCommand.decode, if_neg hlength, readDocument, hparse]
  cases fault <;> exact fun hdecoded ↦ by cases hdecoded

end RocketMQClient.Protocol
