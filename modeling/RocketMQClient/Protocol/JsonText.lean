import RocketMQClient.Protocol.JsonReader

/-!
# Objects written by hand

The program writes JSON by pasting the text of its values between braces, quoted names, colons and
commas, and puts strings between quotes as they are. `pasteObject` is such a text.

A string is read back if there is neither a quote nor a backslash in it (`reads_quoted`), apart from
what follows a zero byte, and an object if its values are (`readValue_pasteObject`). An integer is
read as `numberValue`, which is the integer again exactly when it has at most 53 significant bits
(`number?_numberValue`): the reader takes those of more than nine digits for doubles.

`Reads` is stated for a text with something behind it, a comma or the end of an object, since the
reader looks one token ahead; the members of an object are then read one after the other by
induction (`readObject_pasteMembers`). The last section is the other direction: a zero byte ends the
document for the reader, so that the text of an object is cut off inside the first value that has
one and is not read at all (`breaks_pasteObject_of_mem`).
-/

set_option autoImplicit false
set_option relaxedAutoImplicit false

namespace RocketMQClient.Protocol

open Library

/-! ### Texts -/

/-- A string between quotes. -/
def quoted (text : ByteString) : ByteString := 34 :: (text ++ [34])

/-- The name of a member and the text of its value. -/
def pasteMember (member : ByteString × ByteString) : ByteString :=
  quoted member.1 ++ 58 :: member.2

/-- Members, separated by commas. -/
def pasteMembers : List (ByteString × ByteString) → ByteString
  | [] => []
  | member :: rest => pasteMember member ++ rest.flatMap fun other ↦ 44 :: pasteMember other

/-- An object. -/
def pasteObject (members : List (ByteString × ByteString)) : ByteString :=
  123 :: (pasteMembers members ++ [125])

/-- A string without a quote and without a backslash. -/
def Plain (text : ByteString) : Prop := 34 ∉ text ∧ 92 ∉ text

instance (text : ByteString) : Decidable (Plain text) := inferInstanceAs (Decidable (_ ∧ _))

/-- What stands behind a value: a comma or the end of an object. -/
def Follows (rest : ByteString) : Prop := ∃ behind, rest = 44 :: behind ∨ rest = 125 :: behind

/-- A text that is read as a value wherever a comma or the end of an object follows it. -/
def Reads (text : ByteString) (value : Value) : Prop :=
  ∀ fuel rest, text.length < fuel → Follows rest →
    readValue fuel (text ++ rest) = .ok (value, rest)

/-! ### Strings -/

variable {text rest : ByteString}

theorem Plain.of_cons {byte : Byte} (hplain : Plain (byte :: text)) :
    byte ≠ 34 ∧ byte ≠ 92 ∧ Plain text := by
  obtain ⟨hquote, hescape⟩ := hplain
  rw [List.mem_cons, not_or] at hquote hescape
  exact ⟨Ne.symm hquote.1, Ne.symm hescape.1, hquote.2, hescape.2⟩

/-- A plain string ends at its quote. -/
theorem Plain.readString (hplain : Plain text) (rest : ByteString) :
    readString (text ++ 34 :: rest) = some (text, rest) := by
  induction text with
  | nil => exact readString_quote rest
  | cons byte text ih =>
    obtain ⟨hquote, hescape, htext⟩ := hplain.of_cons
    rw [List.cons_append, readString_plain hquote hescape, ih htext]
    rfl

/-- A plain string without its quote does not end. -/
theorem Plain.readString_eq_none (hplain : Plain text) : Protocol.readString text = none := by
  induction text with
  | nil => rfl
  | cons byte text ih =>
    obtain ⟨hquote, hescape, htext⟩ := hplain.of_cons
    rw [readString_plain hquote hescape, ih htext]
    rfl

/-- A plain string stands for itself. -/
theorem Plain.decodeString (hplain : Plain text) : decodeString text = some text := by
  induction text with
  | nil => rfl
  | cons byte text ih =>
    obtain ⟨hquote, hescape, htext⟩ := hplain.of_cons
    rw [decodeString_plain hquote hescape, ih htext]
    rfl

/-- A token that no space precedes. -/
theorem readToken_cons {byte : Byte} (hspace : isSpace byte = false) (rest : ByteString) :
    readToken (byte :: rest) = tokenAt byte rest := by
  rw [readToken, skipSpaces, List.dropWhile_cons_of_neg (by simp [hspace])]

theorem Plain.readToken (hplain : Plain text) (rest : ByteString) :
    readToken (quoted text ++ rest) = (.string text, rest) := by
  have hquoted : quoted text ++ rest = 34 :: (text ++ 34 :: rest) := by simp [quoted]
  rw [hquoted, readToken_cons (by decide), tokenAt_quote, hplain.readString]

/-- A plain string is read back up to a zero byte. -/
theorem reads_quoted (hplain : Plain text) : Reads (quoted text) (.ofStdString text) := by
  intro fuel rest hfuel _
  obtain ⟨fuel, rfl⟩ : ∃ smaller, fuel = smaller + 1 := ⟨fuel - 1, by omega⟩
  rw [readValue, skipCommentTokens_of_readToken (hplain.readToken rest) Token.noConfusion]
  simp only [hplain.decodeString]

/-! ### Numbers -/

/-- The value that an integer is read as. -/
def numberValue (value : ℤ) : Value :=
  if value.natAbs / 10 < (if value < 0 then 214748364 else 429496729) then
    if value ≤ maxInt then .int value else .uint value.toNat
  else .real (Double.ofRational value)

theorem readDigits_append {threshold value : ℕ} {digits : ByteString} {digit : Byte}
    (hdigit : isDigit digit = true) :
    readDigits threshold value (digits ++ [digit]) =
      (readDigits threshold value digits).map fun read ↦ read.bind fun number ↦
        if threshold ≤ number then none else some (10 * number + (digit.val - 48)) := by
  induction digits generalizing value with
  | nil =>
    by_cases hlarge : threshold ≤ value <;> simp [readDigits, hdigit, hlarge, Except.map]
  | cons byte digits ih =>
    rw [List.cons_append, readDigits, readDigits]
    split_ifs
    · rfl
    · exact ih
    · rfl

/-- The digits of a number are kept unless the number without its last digit is large. -/
theorem readDigits_decimalDigits {threshold : ℕ} (hthreshold : 0 < threshold) (number : ℕ) :
    readDigits threshold 0 (decimalDigits number) =
      .ok (if number / 10 < threshold then some number else none) := by
  refine decimal_induction (motive := fun number digits ↦ readDigits threshold 0 digits =
    .ok (if number / 10 < threshold then some number else none)) ?_ ?_ number
  · intro digit hdigit
    have hval := decimalDigit_val hdigit
    rw [readDigits, if_pos (isDigit_decimalDigit hdigit), if_neg (by omega), readDigits, hval,
      if_pos (by omega)]
    simp
  · intro number digit digits _ hdigit hdigits
    have hval := decimalDigit_val hdigit
    have hquotient : (10 * number + digit) / 10 = number := by omega
    rw [readDigits_append (isDigit_decimalDigit hdigit), hdigits, hval, hquotient]
    by_cases hlarge : threshold ≤ number
    · rw [if_neg (not_lt.mpr hlarge)]
      split_ifs <;> simp [Except.map, hlarge]
    · rw [if_pos (by omega), if_pos (not_le.mp hlarge)]
      simp [Except.map, hlarge]

/-- Digits are no sign, no point and no exponent mark. -/
theorem not_mem_of_isDigit {digits : ByteString} (hdigits : ∀ byte ∈ digits, isDigit byte = true)
    {byte : Byte} (hbyte : isDigit byte = false) : byte ∉ digits := fun hmem ↦ by
  simp [hdigits byte hmem] at hbyte

theorem isDouble_eq_false {digits : ByteString} (hdigits : ∀ byte ∈ digits, isDigit byte = true)
    (sign : ByteString) (hsign : sign = [] ∨ sign = [45]) : isDouble (sign ++ digits) = false := by
  have hmark : ∀ byte ∈ sign ++ digits,
      decide (byte = 46 ∨ byte = 101 ∨ byte = 69 ∨ byte = 43) = false := by
    intro byte hbyte
    obtain hbyte | hbyte := List.mem_append.mp hbyte
    · obtain rfl | rfl := hsign
      · exact absurd hbyte List.not_mem_nil
      · rw [List.mem_singleton.mp hbyte]
        decide
    · apply decide_eq_false
      rintro (rfl | rfl | rfl | rfl) <;> exact not_mem_of_isDigit hdigits (by decide) hbyte
  have htail : (45 : Byte) ∉ (sign ++ digits).tail := by
    obtain rfl | rfl := hsign
    · exact fun hmem ↦ not_mem_of_isDigit hdigits (by decide) (List.mem_of_mem_tail hmem)
    · exact not_mem_of_isDigit hdigits (by decide)
  rw [isDouble, List.any_eq_false.mpr (by simpa using hmark), Bool.false_or]
  simpa using htail

/-- Digits do not start with a byte that is no digit. -/
theorem head?_decimalDigits_ne {number : ℕ} {byte : Byte} (hbyte : isDigit byte = false) :
    (decimalDigits number).head? ≠ some byte := fun hhead ↦
  not_mem_of_isDigit isDigit_of_mem_decimalDigits hbyte (List.mem_of_head? hhead)

theorem scanDouble_decimal (value : ℤ) :
    scanDouble (decimal value) = some (Double.ofRational value) := by
  have hwhole : (decimalDigits value.natAbs).takeWhile isDigit = decimalDigits value.natAbs :=
    List.takeWhile_eq_self_iff.mpr isDigit_of_mem_decimalDigits
  have hbehind : (decimalDigits value.natAbs).dropWhile isDigit = [] :=
    List.dropWhile_eq_nil_iff.mpr isDigit_of_mem_decimalDigits
  have hminus := @head?_decimalDigits_ne value.natAbs 45 (by decide)
  have hplus := @head?_decimalDigits_ne value.natAbs 43 (by decide)
  have hnumber := ofDecimalDigits_decimalDigits value.natAbs
  rw [decimal]
  by_cases hnegative : value < 0
  · have hvalue : |(value : ℚ)| = -value := abs_of_neg (Int.cast_lt_zero.mpr hnegative)
    simp [scanDouble, hnegative, hwhole, hbehind, decimalDigits_ne_nil, scanExponent, hnumber,
      hvalue]
  · have hvalue : |(value : ℚ)| = value := abs_of_nonneg (Int.cast_nonneg (not_lt.mp hnegative))
    simp [scanDouble, hnegative, hminus, hplus, hwhole, hbehind, decimalDigits_ne_nil,
      scanExponent, hnumber, hvalue]

theorem length_decimal_le {value : ℤ} (hvalue : value.natAbs < 10 ^ 20) :
    (decimal value).length ≤ 21 := by
  have hdigits := @length_decimalDigits_le _ 20 (by omega) hvalue
  rw [decimal]
  split
  · exact Nat.succ_le_succ hdigits
  · omega

/-- An integer of a machine word is read as `numberValue`. -/
theorem decodeNumber_decimal {value : ℤ} (hvalue : value.natAbs < 10 ^ 20) :
    decodeNumber (decimal value) = .ok (numberValue value) := by
  have hdouble : decodeDouble (decimal value) = .ok (.real (Double.ofRational value)) := by
    have hlength := length_decimal_le hvalue
    rw [decodeDouble, if_neg (by omega), scanDouble_decimal]
  have hminus := @head?_decimalDigits_ne value.natAbs 45 (by decide)
  rw [decodeNumber, numberValue]
  by_cases hnegative : value < 0
  · have hnot : isDouble (decimal value) = false := by
      rw [decimal, if_pos hnegative]
      exact isDouble_eq_false isDigit_of_mem_decimalDigits [45] (Or.inr rfl)
    have hmax : value ≤ maxInt := by
      rw [maxInt]
      omega
    rw [if_neg (by simp [hnot]), hdouble, if_pos hnegative, decimal, if_pos hnegative,
      List.head?_cons, if_pos rfl, List.tail_cons, readDigits_decimalDigits (by decide)]
    split_ifs with hsmall
    · simp [Except.bind, abs_of_neg hnegative]
    · rfl
  · have hnot : isDouble (decimal value) = false := by
      rw [decimal, if_neg hnegative]
      exact isDouble_eq_false isDigit_of_mem_decimalDigits [] (Or.inl rfl)
    have habs : |value| = value := abs_of_nonneg (not_lt.mp hnegative)
    rw [if_neg (by simp [hnot]), hdouble, if_neg hnegative, decimal, if_neg hnegative,
      if_neg hminus, readDigits_decimalDigits (by decide)]
    split_ifs with hsmall hmax
    · simp [Except.bind, habs, hmax]
    · have htoNat : value.natAbs = value.toNat := by omega
      simp [Except.bind, hmax, htoNat]
    · rfl

/-- The number that a value is. -/
def Value.number? : Value → Option ℚ
  | .int value => some value
  | .uint value => some value
  | .real (.finite value) => some value
  | _ => none

/-- An integer of at most 53 bits has no more significant bits. -/
theorem hasSignificand_of_lt {value : ℤ} (hvalue : value.natAbs < 2 ^ 53) :
    HasSignificand value := by
  have hlog : Nat.log 2 value.natAbs ≤ 52 := by
    by_cases hzero : value.natAbs = 0
    · rw [hzero, Nat.log_zero_right]
      exact Nat.zero_le 52
    · exact Nat.le_of_lt_succ (Nat.log_lt_of_lt_pow hzero hvalue)
  rw [HasSignificand, Nat.sub_eq_zero_of_le hlog]
  exact one_dvd value

/-- An integer is read as itself exactly when it has at most 53 significant bits. -/
theorem number?_numberValue {value : ℤ} (hvalue : value.natAbs < 10 ^ 20) :
    (numberValue value).number? = some (value : ℚ) ↔ HasSignificand value := by
  have hthreshold : (if value < 0 then 214748364 else 429496729) ≤ 429496729 := by
    split <;> omega
  rw [numberValue]
  by_cases hsmall : value.natAbs / 10 < (if value < 0 then 214748364 else 429496729)
  · refine iff_of_true ?_ (hasSignificand_of_lt (by omega))
    rw [if_pos hsmall]
    split
    · rfl
    · rename_i hmax
      rw [maxInt] at hmax
      have hnonneg : ((value.toNat : ℕ) : ℤ) = value := Int.toNat_of_nonneg (by omega)
      rw [Value.number?, ← Int.cast_natCast, hnonneg]
  · have hbound : |(value : ℚ)| < 2 ^ 1024 := by
      rw [← Int.cast_abs, Int.abs_eq_natAbs, Int.cast_natCast]
      calc (value.natAbs : ℚ) < (10 ^ 20 : ℕ) := Nat.cast_lt.mpr hvalue
        _ ≤ 2 ^ 67 := by norm_num
        _ ≤ 2 ^ 1024 := pow_le_pow_right₀ one_le_two (by decide)
    rw [if_neg hsmall, ← Double.ofRational_intCast_iff hbound]
    cases Double.ofRational (value : ℚ) with
    | finite other => simp [Value.number?]
    | infinite negative => simp [Value.number?]

theorem Follows.not_number (hfollows : Follows rest) :
    ∀ byte ∈ rest.head?, isNumberByte byte = false := by
  obtain ⟨behind, rfl | rfl⟩ := hfollows
  · intro byte hbyte
    rw [← Option.some.inj hbyte]
    decide
  · intro byte hbyte
    rw [← Option.some.inj hbyte]
    decide

/-- An integer starts with a digit or a sign and goes on with digits. -/
theorem decimal_cons (value : ℤ) : ∃ byte digits, decimal value = byte :: digits ∧
    (isDigit byte ∨ byte = 45) ∧ ∀ digit ∈ digits, isDigit digit = true := by
  have hdigits := @isDigit_of_mem_decimalDigits value.natAbs
  rw [decimal]
  split
  · exact ⟨45, _, rfl, Or.inr rfl, hdigits⟩
  · cases htext : decimalDigits value.natAbs with
    | nil => exact absurd htext (decimalDigits_ne_nil _)
    | cons byte digits =>
      rw [htext] at hdigits
      exact ⟨byte, digits, rfl, Or.inl (hdigits byte List.mem_cons_self),
        fun digit hdigit ↦ hdigits digit (List.mem_cons_of_mem byte hdigit)⟩

/-- A number ends where no number goes on. -/
theorem readToken_decimal (value : ℤ) (hrest : ∀ byte ∈ rest.head?, isNumberByte byte = false) :
    readToken (decimal value ++ rest) = (.number (decimal value), rest) := by
  obtain ⟨byte, digits, htext, hbyte, hdigits⟩ := decimal_cons value
  have hspace : isSpace byte = false := by
    obtain hdigit | rfl := hbyte
    · have hval := of_decide_eq_true hdigit
      exact decide_eq_false (by rintro (rfl | rfl | rfl | rfl) <;> exact absurd hval (by decide))
    · decide
  have hnumber : ∀ digit ∈ digits, isNumberByte digit = true := fun digit hdigit ↦ by
    rw [isNumberByte, hdigits digit hdigit, Bool.true_or]
  have hend : rest.takeWhile isNumberByte = [] ∧ rest.dropWhile isNumberByte = rest := by
    cases rest with
    | nil => exact ⟨rfl, rfl⟩
    | cons other behind => simp [hrest other rfl]
  rw [htext, List.cons_append, readToken_cons hspace, tokenAt_number hbyte,
    List.takeWhile_append_of_pos hnumber, List.dropWhile_append_of_pos hnumber, hend.1, hend.2,
    List.append_nil]

/-- An integer of a machine word is read. -/
theorem reads_decimal {value : ℤ} (hvalue : value.natAbs < 10 ^ 20) :
    Reads (decimal value) (numberValue value) := by
  intro fuel rest hfuel hfollows
  obtain ⟨fuel, rfl⟩ : ∃ smaller, fuel = smaller + 1 := ⟨fuel - 1, by omega⟩
  rw [readValue, skipCommentTokens_of_readToken (readToken_decimal value hfollows.not_number)
    Token.noConfusion]
  simp only [decodeNumber_decimal hvalue]
  rfl

/-! ### Objects -/

/-- A name that stands for itself: without a quote, a backslash and a zero byte. -/
def PlainName (name : ByteString) : Prop := Plain name ∧ 0 ∉ name

instance (name : ByteString) : Decidable (PlainName name) := inferInstanceAs (Decidable (_ ∧ _))

/-- The text of a member is one of its name and value. -/
def ReadsMember (member : ByteString × ByteString) (read : ByteString × Value) : Prop :=
  member.1 = read.1 ∧ PlainName read.1 ∧ Reads member.2 read.2

variable {readNext : ByteString → Except ReaderFault (Value × ByteString)} {name : ByteString}
  {value : Value} {members : List (ByteString × Value)} {rounds : ℕ}

theorem readSeparator_comma (rest : ByteString) :
    readSeparator (44 :: rest) = some (false, rest) := by
  rw [readSeparator, readToken_cons (by decide)]
  rfl

theorem readSeparator_end (rest : ByteString) :
    readSeparator (125 :: rest) = some (true, rest) := by
  rw [readSeparator, readToken_cons (by decide)]
  rfl

/-- The value of a member is read behind its name and a colon. -/
theorem readObject_pasteMember {other : ByteString} (hname : PlainName other) :
    readObject readNext (rounds + 1) name members (pasteMember (other, text) ++ rest) =
      (readNext (text ++ rest)).bind fun read ↦
        match readSeparator read.2 with
        | none => .error .syntaxError
        | some (true, behind) => .ok (.object (assignMember other read.1 members), behind)
        | some (false, behind) =>
          readObject readNext rounds other (assignMember other read.1 members) behind := by
  have hpaste : pasteMember (other, text) ++ rest = quoted other ++ 58 :: (text ++ rest) := by
    simp [pasteMember]
  have hcolon : readToken (58 :: (text ++ rest)) = (.memberSeparator, text ++ rest) := by
    rw [readToken_cons (by decide)]
    rfl
  have htoken := skipCommentTokens_of_readToken (hname.1.readToken (58 :: (text ++ rest)))
    Token.noConfusion
  rw [readObject, hpaste, htoken, if_neg fun hend ↦ Token.noConfusion hend.1]
  cases hnext : readNext (text ++ rest) with
  | error fault => simp only [memberName, hname.1.decodeString, hcolon, hnext, Except.bind]
  | ok read =>
    rcases hseparator : readSeparator read.2 with _ | ⟨_ | _, behind⟩ <;>
      simp only [memberName, hname.1.decodeString, hcolon, cString_eq_self hname.2, hnext,
        hseparator, Except.bind]

/-- A member whose value is read is assigned, and what follows it is looked at. -/
theorem readObject_member {other : ByteString} (hname : PlainName other)
    (hread : readNext (text ++ rest) = .ok (value, rest)) :
    readObject readNext (rounds + 1) name members (pasteMember (other, text) ++ rest) =
      match readSeparator rest with
      | none => .error .syntaxError
      | some (true, behind) => .ok (.object (assignMember other value members), behind)
      | some (false, behind) =>
        readObject readNext rounds other (assignMember other value members) behind := by
  rw [readObject_pasteMember hname, hread]
  rfl

theorem pasteMembers_cons_cons (first second : ByteString × ByteString)
    (texts : List (ByteString × ByteString)) (rest : ByteString) :
    pasteMembers (first :: second :: texts) ++ rest =
      pasteMember first ++ 44 :: (pasteMembers (second :: texts) ++ rest) := by
  simp [pasteMembers]

theorem follows_comma (rest : ByteString) : Follows (44 :: rest) := ⟨rest, Or.inl rfl⟩

theorem follows_end (rest : ByteString) : Follows (125 :: rest) := ⟨rest, Or.inr rfl⟩

/-- The name of a member is not one of those before it. -/
theorem not_mem_names {read : ByteString × Value} {others : List (ByteString × Value)}
    (hnames : ((members ++ read :: others).map Prod.fst).Nodup) :
    read.1 ∉ members.map Prod.fst := by
  intro hmem
  rw [List.map_append, List.nodup_append] at hnames
  exact hnames.2.2 _ hmem _ (by simp) rfl

/-- Members with different names are read one after the other. -/
theorem readObject_pasteMembers {fuel : ℕ} {first : ByteString × ByteString}
    {texts : List (ByteString × ByteString)} {reads : List (ByteString × Value)}
    (hreads : List.Forall₂ ReadsMember (first :: texts) reads)
    (hfuel : ∀ member ∈ first :: texts, member.2.length < fuel)
    (hrounds : texts.length < rounds)
    (hnames : ((members ++ reads).map Prod.fst).Nodup) (rest : ByteString) :
    readObject (readValue fuel) rounds name members
      (pasteMembers (first :: texts) ++ 125 :: rest) = .ok (.object (members ++ reads), rest) := by
  induction texts generalizing first reads members name rounds with
  | nil =>
    obtain ⟨rounds, rfl⟩ : ∃ smaller, rounds = smaller + 1 := ⟨rounds - 1, by omega⟩
    obtain ⟨read, others, hread, hothers, rfl⟩ := List.forall₂_cons_left_iff.mp hreads
    rw [List.forall₂_nil_left_iff] at hothers
    subst hothers
    obtain ⟨hname, hplain, hvalue⟩ := hread
    have hnew := not_mem_names hnames
    have hpaste : pasteMembers [first] ++ 125 :: rest =
        pasteMember (read.1, first.2) ++ 125 :: rest := by simp [pasteMembers, ← hname]
    rw [hpaste, readObject_member hplain (hvalue fuel _ (hfuel first (by simp)) (follows_end rest)),
      readSeparator_end]
    show Except.ok (Value.object (assignMember read.1 read.2 members), rest) = _
    rw [assignMember_of_not_mem hnew]
  | cons second texts ih =>
    obtain ⟨rounds, rfl⟩ : ∃ smaller, rounds = smaller + 1 := ⟨rounds - 1, by omega⟩
    obtain ⟨read, others, hread, hothers, rfl⟩ := List.forall₂_cons_left_iff.mp hreads
    obtain ⟨hname, hplain, hvalue⟩ := hread
    have hnew := not_mem_names hnames
    have hpaste : pasteMembers (first :: second :: texts) ++ 125 :: rest =
        pasteMember (read.1, first.2) ++ 44 :: (pasteMembers (second :: texts) ++ 125 :: rest) := by
      rw [pasteMembers_cons_cons, ← hname]
    rw [hpaste, readObject_member hplain (hvalue fuel _ (hfuel first (by simp)) (follows_comma _)),
      readSeparator_comma]
    show readObject (readValue fuel) rounds read.1 (assignMember read.1 read.2 members) _ = _
    rw [assignMember_of_not_mem hnew,
      ih hothers (fun member hmember ↦ hfuel member (List.mem_cons_of_mem first hmember))
        (by rw [List.length_cons] at hrounds; omega) (by simpa using hnames)]
    simp

theorem length_le_pasteMember (member : ByteString × ByteString) :
    member.2.length ≤ (pasteMember member).length := by
  rw [pasteMember, List.length_append, List.length_cons]
  omega

/-- The members behind the first one take more than their texts. -/
theorem length_le_flatMap {texts : List (ByteString × ByteString)} :
    texts.length ≤ (texts.flatMap fun other ↦ 44 :: pasteMember other).length ∧
      ∀ member ∈ texts,
        member.2.length ≤ (texts.flatMap fun other ↦ 44 :: pasteMember other).length := by
  induction texts with
  | nil => simp
  | cons first texts ih =>
    rw [List.flatMap_cons, List.length_append, List.length_cons, List.length_cons]
    refine ⟨by omega, fun member hmember ↦ ?_⟩
    obtain rfl | hmember := List.mem_cons.mp hmember
    · have hlength := length_le_pasteMember member
      omega
    · have hlength := ih.2 member hmember
      omega

/-- An object takes more than the texts of its members. -/
theorem length_lt_pasteObject {texts : List (ByteString × ByteString)} :
    texts.length < (pasteObject texts).length ∧
      ∀ member ∈ texts, member.2.length + 1 < (pasteObject texts).length := by
  cases texts with
  | nil => simp [pasteObject]
  | cons first texts =>
    have hpaste : (pasteObject (first :: texts)).length =
        (pasteMember first).length +
          (texts.flatMap fun other ↦ 44 :: pasteMember other).length + 2 := by
      rw [pasteObject, pasteMembers, List.length_cons, List.length_append, List.length_append,
        List.length_singleton]
    have hfirst := length_le_pasteMember first
    obtain ⟨hlength, hmembers⟩ := @length_le_flatMap texts
    refine ⟨by rw [hpaste, List.length_cons]; omega, fun member hmember ↦ ?_⟩
    obtain rfl | hmember := List.mem_cons.mp hmember
    · omega
    · have hle := hmembers member hmember
      omega

/-- An object of members with different names is read, whatever follows it. -/
theorem readValue_pasteObject {texts : List (ByteString × ByteString)}
    {reads : List (ByteString × Value)} (hreads : List.Forall₂ ReadsMember texts reads)
    (hnames : (reads.map Prod.fst).Nodup) {fuel : ℕ} (hfuel : (pasteObject texts).length < fuel)
    (rest : ByteString) :
    readValue fuel (pasteObject texts ++ rest) = .ok (.object reads, rest) := by
  obtain ⟨fuel, rfl⟩ : ∃ smaller, fuel = smaller + 1 := ⟨fuel - 1, by omega⟩
  have hpaste : pasteObject texts ++ rest = 123 :: (pasteMembers texts ++ 125 :: rest) := by
    simp [pasteObject]
  have hbrace : readToken (123 :: (pasteMembers texts ++ 125 :: rest)) =
      (.objectBegin, pasteMembers texts ++ 125 :: rest) := by
    rw [readToken_cons (by decide)]
    rfl
  rw [readValue, hpaste, skipCommentTokens_of_readToken hbrace Token.noConfusion]
  show readObject (readValue fuel) _ [] [] _ = _
  cases texts with
  | nil =>
    rw [List.forall₂_nil_left_iff] at hreads
    subst hreads
    have hend : readToken (125 :: rest) = (.objectEnd, rest) := by
      rw [readToken_cons (by decide)]
      rfl
    rw [readObject, pasteMembers, List.nil_append,
      skipCommentTokens_of_readToken hend Token.noConfusion]
    rfl
  | cons first texts =>
    obtain ⟨hcount, htexts⟩ := @length_lt_pasteObject (first :: texts)
    have hlength : (pasteMembers (first :: texts) ++ 125 :: rest).length =
        (pasteObject (first :: texts)).length - 1 + rest.length := by
      simp [pasteObject]
      omega
    refine @readObject_pasteMembers [] [] _ _ _ _ _ hreads (fun member hmember ↦ ?_) ?_ hnames rest
    · have hmemberLength := htexts member hmember
      omega
    · rw [List.length_cons] at hcount
      omega

/-- An object of members with different names is a value. -/
theorem reads_pasteObject {texts : List (ByteString × ByteString)}
    {reads : List (ByteString × Value)} (hreads : List.Forall₂ ReadsMember texts reads)
    (hnames : (reads.map Prod.fst).Nodup) : Reads (pasteObject texts) (.object reads) :=
  fun _ rest hfuel _ ↦ readValue_pasteObject hreads hnames hfuel rest

/-- A document that starts with an object of members with different names is read as it. -/
theorem parse_pasteObject {texts : List (ByteString × ByteString)}
    {reads : List (ByteString × Value)} (hreads : List.Forall₂ ReadsMember texts reads)
    (hnames : (reads.map Prod.fst).Nodup) (rest : ByteString) :
    parse (pasteObject texts ++ rest) = .ok (.object reads) := by
  rw [parse, readValue_pasteObject hreads hnames (by rw [List.length_append]; omega)]
  rfl

/-! ### Texts that end too early -/

/-- A text that is not read as a value when the document ends with it. -/
def Open (text : ByteString) : Prop :=
  ∀ fuel, text.length < fuel → ∃ fault, readValue fuel text = .error fault

/-- A text that a zero byte cuts off to one that is not read as a value. -/
def Breaks (text : ByteString) : Prop := 0 ∈ text ∧ Open (cString text)

theorem Plain.cString (hplain : Plain text) : Plain (cString text) :=
  ⟨fun hmem ↦ hplain.1 (cString_subset hmem), fun hmem ↦ hplain.2 (cString_subset hmem)⟩

/-- A string without its closing quote. -/
theorem open_quote (hplain : Plain text) : Open (34 :: text) := by
  intro fuel hfuel
  obtain ⟨fuel, rfl⟩ : ∃ smaller, fuel = smaller + 1 := ⟨fuel - 1, by omega⟩
  have htoken : readToken (34 :: text) = (.error, []) := by
    rw [readToken_cons (by decide), tokenAt_quote, hplain.readString_eq_none]
  rw [readValue, skipCommentTokens_of_readToken htoken Token.noConfusion]
  exact ⟨_, rfl⟩

/-- A string with a zero byte. -/
theorem breaks_quoted (hplain : Plain text) (hzero : 0 ∈ text) : Breaks (quoted text) := by
  refine ⟨List.mem_cons_of_mem _ (List.mem_append_left _ hzero), ?_⟩
  have hcut : cString (quoted text) = 34 :: cString text := by
    have hquote := @cString_append_of_not_mem [34] (by decide) (text ++ [34])
    rwa [cString_append_of_mem hzero] at hquote
  rw [hcut]
  exact open_quote hplain.cString

/-- Members with commas behind them. -/
def pasteBefore (members : List (ByteString × ByteString)) : ByteString :=
  members.flatMap fun member ↦ pasteMember member ++ [44]

theorem pasteMembers_append (before after : List (ByteString × ByteString))
    (member : ByteString × ByteString) :
    pasteMembers (before ++ member :: after) =
      pasteBefore before ++ pasteMember member ++
        after.flatMap fun other ↦ 44 :: pasteMember other := by
  cases before with
  | nil => simp [pasteMembers, pasteBefore]
  | cons first before =>
    have hshift : ∀ texts : List (ByteString × ByteString),
        (texts.flatMap fun other ↦ 44 :: pasteMember other) ++ [44] =
          44 :: pasteBefore texts := by
      intro texts
      induction texts with
      | nil => rfl
      | cons other texts ih => simp [pasteBefore, ih]
    have hbefore := hshift before
    rw [List.cons_append, pasteMembers, List.flatMap_append, List.flatMap_cons]
    rw [pasteBefore, List.flatMap_cons, ← pasteBefore]
    calc pasteMember first ++ ((before.flatMap fun other ↦ 44 :: pasteMember other) ++
          (44 :: pasteMember member ++ after.flatMap fun other ↦ 44 :: pasteMember other))
        = pasteMember first ++ (((before.flatMap fun other ↦ 44 :: pasteMember other) ++ [44]) ++
            (pasteMember member ++ after.flatMap fun other ↦ 44 :: pasteMember other)) := by simp
      _ = _ := by
        rw [hbefore]
        simp

theorem length_le_pasteBefore {texts : List (ByteString × ByteString)} :
    ∀ member ∈ texts, member.2.length ≤ (pasteBefore texts).length := by
  induction texts with
  | nil => simp
  | cons first texts ih =>
    have hfirst := length_le_pasteMember first
    have hlength : (pasteBefore (first :: texts)).length =
        (pasteMember first).length + 1 + (pasteBefore texts).length := by
      simp [pasteBefore]
      omega
    refine List.forall_mem_cons.mpr ⟨by omega, fun member hmember ↦ ?_⟩
    have hle := ih member hmember
    omega

/-- Members are not read when the value of the last one is not. -/
theorem readObject_open {fuel : ℕ} {texts : List (ByteString × ByteString)}
    {reads : List (ByteString × Value)} (hreads : List.Forall₂ ReadsMember texts reads)
    (hfuel : ∀ member ∈ texts, member.2.length < fuel) {other : ByteString}
    (hother : PlainName other) (hopen : Open text) (htext : text.length < fuel) :
    ∃ fault, readObject (readValue fuel) rounds name members
      (pasteBefore texts ++ pasteMember (other, text)) = .error fault := by
  induction texts generalizing reads members name rounds with
  | nil =>
    cases rounds with
    | zero => exact ⟨_, rfl⟩
    | succ rounds =>
      obtain ⟨fault, hfault⟩ := hopen fuel htext
      have hpaste : pasteBefore [] ++ pasteMember (other, text) =
          pasteMember (other, text) ++ [] := (List.append_nil _).symm
      rw [hpaste, readObject_pasteMember hother, List.append_nil, hfault]
      exact ⟨fault, rfl⟩
  | cons first texts ih =>
    cases rounds with
    | zero => exact ⟨_, rfl⟩
    | succ rounds =>
      obtain ⟨read, others, ⟨hname, hplain, hvalue⟩, hothers, rfl⟩ :=
        List.forall₂_cons_left_iff.mp hreads
      have hpaste : pasteBefore (first :: texts) ++ pasteMember (other, text) =
          pasteMember (read.1, first.2) ++
            44 :: (pasteBefore texts ++ pasteMember (other, text)) := by
        simp [pasteBefore, ← hname]
      rw [hpaste,
        readObject_member hplain (hvalue fuel _ (hfuel first (by simp)) (follows_comma _)),
        readSeparator_comma]
      exact ih hothers fun member hmember ↦ hfuel member (List.mem_cons_of_mem first hmember)

theorem ReadsMember.plainName {texts : List (ByteString × ByteString)}
    {reads : List (ByteString × Value)} (hreads : List.Forall₂ ReadsMember texts reads) :
    ∀ member ∈ texts, PlainName member.1 := by
  induction hreads with
  | nil => simp
  | cons hread _ ih => exact List.forall_mem_cons.mpr ⟨hread.1 ▸ hread.2.1, ih⟩

theorem zero_not_mem_quoted (hzero : 0 ∉ text) : 0 ∉ quoted text := by
  simp [quoted, hzero]

/-- There is no zero byte in a member whose value has none. -/
theorem zero_not_mem_pasteMember {member : ByteString × ByteString} (hname : PlainName member.1)
    (hvalue : 0 ∉ member.2) : 0 ∉ pasteMember member := by
  simp [pasteMember, zero_not_mem_quoted hname.2, hvalue]

/-- An object of members of which one breaks, while those before it have no zero byte. -/
theorem breaks_pasteObject {before after : List (ByteString × ByteString)}
    {reads : List (ByteString × Value)} (hreads : List.Forall₂ ReadsMember before reads)
    (hbefore : ∀ member ∈ before, 0 ∉ member.2) {other : ByteString} (hother : PlainName other)
    (hbreaks : Breaks text) : Breaks (pasteObject (before ++ (other, text) :: after)) := by
  obtain ⟨hzero, hopen⟩ := hbreaks
  have hmembers : 0 ∉ pasteBefore before := by
    intro hmem
    obtain ⟨member, hmember, hmem⟩ := List.mem_flatMap.mp hmem
    have hnone := zero_not_mem_pasteMember (ReadsMember.plainName hreads member hmember)
      (hbefore member hmember)
    exact (List.mem_append.mp hmem).elim hnone (by decide)
  have hpaste : pasteObject (before ++ (other, text) :: after) =
      (123 :: (pasteBefore before ++ (quoted other ++ [58]))) ++
        (text ++ ((after.flatMap fun other ↦ 44 :: pasteMember other) ++ [125])) := by
    rw [pasteObject, pasteMembers_append]
    simp [pasteMember]
  have hfront : 0 ∉ 123 :: (pasteBefore before ++ (quoted other ++ [58])) := by
    simp [hmembers, zero_not_mem_quoted hother.2]
  have hcut : cString (pasteObject (before ++ (other, text) :: after)) =
      123 :: (pasteBefore before ++ pasteMember (other, cString text)) := by
    rw [hpaste, cString_append_of_not_mem hfront, cString_append_of_mem hzero]
    simp [pasteMember]
  refine ⟨?_, fun fuel hfuel ↦ ?_⟩
  · rw [hpaste]
    exact List.mem_append_right _ (List.mem_append_left _ hzero)
  · rw [hcut] at hfuel ⊢
    obtain ⟨fuel, rfl⟩ : ∃ smaller, fuel = smaller + 1 := ⟨fuel - 1, by omega⟩
    have hbrace : readToken (123 :: (pasteBefore before ++ pasteMember (other, cString text))) =
        (.objectBegin, pasteBefore before ++ pasteMember (other, cString text)) := by
      rw [readToken_cons (by decide)]
      rfl
    rw [readValue, skipCommentTokens_of_readToken hbrace Token.noConfusion]
    rw [List.length_cons, List.length_append] at hfuel
    refine readObject_open hreads (fun member hmember ↦ ?_) hother hopen ?_
    · have hlength := length_le_pasteBefore member hmember
      omega
    · have hlength : (cString text).length ≤ (pasteMember (other, cString text)).length :=
        length_le_pasteMember (other, cString text)
      omega

/-- There is no zero byte in an object whose values have none. -/
theorem zero_not_mem_pasteObject {texts : List (ByteString × ByteString)}
    (hnames : ∀ member ∈ texts, PlainName member.1) (hvalues : ∀ member ∈ texts, 0 ∉ member.2) :
    0 ∉ pasteObject texts := by
  have hmember : ∀ member ∈ texts, 0 ∉ pasteMember member := fun member hmember ↦
    zero_not_mem_pasteMember (hnames member hmember) (hvalues member hmember)
  cases texts with
  | nil => decide
  | cons first texts =>
    obtain ⟨hfirst, htexts⟩ := List.forall_mem_cons.mp hmember
    have hothers : 0 ∉ texts.flatMap fun other ↦ 44 :: pasteMember other := by
      intro hmem
      obtain ⟨other, hother, hmem⟩ := List.mem_flatMap.mp hmem
      exact htexts other hother (List.mem_of_ne_of_mem (by decide) hmem)
    simp [pasteObject, pasteMembers, hfirst, hothers]

/-- The text of a value is a part of its object. -/
theorem subset_pasteObject {texts : List (ByteString × ByteString)}
    {member : ByteString × ByteString} (hmember : member ∈ texts) :
    member.2 ⊆ pasteObject texts := by
  obtain ⟨before, after, rfl⟩ := List.append_of_mem hmember
  rw [pasteObject, pasteMembers_append]
  intro byte hbyte
  simp [pasteMember, hbyte]

/-- An object breaks when the first of its values that has a zero byte does. -/
theorem breaks_pasteObject_of_mem {texts : List (ByteString × ByteString)}
    {reads : List (ByteString × Value)} (hreads : List.Forall₂ ReadsMember texts reads)
    (hbreaks : ∀ member ∈ texts, 0 ∈ member.2 → Breaks member.2)
    (hzero : 0 ∈ pasteObject texts) : Breaks (pasteObject texts) := by
  have hsome : ∃ member ∈ texts, 0 ∈ member.2 := by
    by_contra hnone
    push Not at hnone
    exact zero_not_mem_pasteObject (ReadsMember.plainName hreads) hnone hzero
  obtain ⟨member, hfind⟩ := Option.isSome_iff_exists.mp
    (List.find?_isSome (p := fun member : ByteString × ByteString ↦ decide (0 ∈ member.2)).mpr
      (by simpa using hsome))
  obtain ⟨hmember, before, after, rfl, hbefore⟩ := List.find?_eq_some_iff_append.mp hfind
  have hprefix := List.forall₂_take before.length hreads
  rw [List.take_left] at hprefix
  exact breaks_pasteObject hprefix (fun other hother ↦ by simpa using hbefore other hother)
    (ReadsMember.plainName hreads member (by simp))
    (hbreaks member (by simp) (of_decide_eq_true hmember))

end RocketMQClient.Protocol
