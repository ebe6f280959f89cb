import RocketMQClient.Protocol.JsonText

/-!
# What a document can stand for

A string of a document with a quote or a backslash is written with an escape sequence. The marks of
a text are its backslashes and its letters u; the need of a string is one for each quote and each
letter u and two for each backslash. An escape sequence stands for no more need than it has marks,
so the strings of a value that is read need no more than the document has marks (`need_parse`). A
text whose need is at most its marks is plain (`plain_of_need_le`).

The count serves the converse of a round trip. That a document which the client wrote by pasting is
read as the fields that were pasted says nothing yet about the strings, which might have been
changed by the escapes that they bring along. Counting shows that they were not: a value that is
read with all of its quotes and backslashes would need more marks than the document has.
-/

set_option autoImplicit false
set_option relaxedAutoImplicit false

namespace RocketMQClient.Protocol

open Library

/-! ### Marks and need of a text -/

/-- The mark of a byte. -/
def markOf (byte : Byte) : ℕ := if byte = 92 ∨ byte = 117 then 1 else 0

/-- The need of a byte. -/
def needOf (byte : Byte) : ℕ := if byte = 92 then 2 else if byte = 34 ∨ byte = 117 then 1 else 0

/-- The marks of a text. -/
def marks (text : ByteString) : ℕ := (text.map markOf).sum

/-- The need of a string. -/
def need (text : ByteString) : ℕ := (text.map needOf).sum

variable {text rest input decoded : ByteString}

@[simp] theorem marks_nil : marks [] = 0 := rfl

@[simp] theorem need_nil : need [] = 0 := rfl

@[simp] theorem marks_cons (byte : Byte) (text : ByteString) :
    marks (byte :: text) = markOf byte + marks text := rfl

@[simp] theorem need_cons (byte : Byte) (text : ByteString) :
    need (byte :: text) = needOf byte + need text := rfl

@[simp] theorem marks_append (text rest : ByteString) :
    marks (text ++ rest) = marks text + marks rest := by
  simp [marks]

@[simp] theorem need_append (text rest : ByteString) :
    need (text ++ rest) = need text + need rest := by
  simp [need]

theorem markOf_le_needOf (byte : Byte) : markOf byte ≤ needOf byte := by
  rw [markOf, needOf]
  by_cases hescape : byte = 92
  · simp [hescape]
  · by_cases hletter : byte = 117 <;> simp [hescape, hletter]

theorem marks_le_need (text : ByteString) : marks text ≤ need text := by
  induction text with
  | nil => exact le_rfl
  | cons byte text ih => exact Nat.add_le_add (markOf_le_needOf byte) ih

/-- A text that needs no more than it has marks is plain. -/
theorem plain_of_need_le (hneed : need text ≤ marks text) : Plain text := by
  have habsent : ∀ byte, markOf byte < needOf byte → byte ∉ text := by
    intro byte hbyte hmem
    obtain ⟨before, after, rfl⟩ := List.append_of_mem hmem
    have hbefore := marks_le_need before
    have hafter := marks_le_need after
    simp only [need_append, need_cons, marks_append, marks_cons] at hneed
    omega
  exact ⟨habsent 34 (by decide), habsent 92 (by decide)⟩

theorem needOf_of_plain {byte : Byte} (hquote : byte ≠ 34) (hescape : byte ≠ 92) :
    needOf byte = markOf byte := by
  rw [needOf, markOf, if_neg hescape]
  simp [hquote, hescape]

theorem needOf_of_large {byte : Byte} (hbyte : 128 ≤ byte.val) : needOf byte = 0 := by
  have hother : ∀ other : Byte, other.val < 128 → byte ≠ other := by
    rintro other hsmall rfl
    omega
  rw [needOf, if_neg (hother 92 (by decide)), if_neg]
  rintro (hquote | hletter)
  · exact hother 34 (by decide) hquote
  · exact hother 117 (by decide) hletter

theorem need_cString_le (text : ByteString) : need (cString text) ≤ need text := by
  have hsplit : text = cString text ++ text.dropWhile (· ≠ 0) :=
    (List.takeWhile_append_dropWhile ..).symm
  conv_rhs => rw [hsplit, need_append]
  exact Nat.le_add_right _ _

/-! ### Escape sequences -/

theorem needOf_le (byte : Byte) : needOf byte ≤ 2 := by
  rw [needOf]
  split
  · exact le_rfl
  · split <;> decide

/-- A code point needs at most two. -/
theorem need_codePointToUTF8_le (cp : ℕ) : need (codePointToUTF8 cp) ≤ 2 := by
  have hlarge : ∀ value : ℕ, 128 ≤ value → value < 256 → needOf (Fin.ofNat 256 value) = 0 :=
    fun value hlower hupper ↦ needOf_of_large (by rw [Fin.val_ofNat]; omega)
  rw [codePointToUTF8]
  split_ifs
  · exact needOf_le _
  · simp only [need_cons, need_nil]
    rw [hlarge _ (by omega) (by omega), hlarge _ (by omega) (by omega)]
    omega
  · simp only [need_cons, need_nil]
    rw [hlarge _ (by omega) (by omega), hlarge _ (by omega) (by omega),
      hlarge _ (by omega) (by omega)]
    omega
  · simp only [need_cons, need_nil]
    rw [hlarge _ (by omega) (by omega), hlarge _ (by omega) (by omega),
      hlarge _ (by omega) (by omega), hlarge _ (by omega) (by omega)]
    omega
  · exact Nat.zero_le _

/-- A short escape sequence needs no more than the marks that write it. -/
theorem needOf_unescape {escape byte : Byte} (hbyte : unescape escape = some byte) :
    needOf byte ≤ 1 + markOf escape := by
  have hother : ∀ other : Byte, needOf other = 0 → some other = some byte →
      needOf byte ≤ 1 + markOf escape := by
    rintro other hneed hequal
    rw [← Option.some.inj hequal, hneed]
    exact Nat.zero_le _
  rw [unescape] at hbyte
  split at hbyte
  · rename_i hescape
    obtain rfl := Option.some.inj hbyte
    obtain rfl | rfl | rfl := hescape <;> decide
  · split at hbyte
    · exact hother 8 (by decide) hbyte
    · split at hbyte
      · exact hother 12 (by decide) hbyte
      · split at hbyte
        · exact hother 10 (by decide) hbyte
        · split at hbyte
          · exact hother 13 (by decide) hbyte
          · split at hbyte
            · exact hother 9 (by decide) hbyte
            · exact absurd hbyte.symm (Option.some_ne_none byte)

/-- What a string stands for needs no more than its text has marks. -/
theorem need_decodeString (hdecoded : decodeString text = some decoded) :
    need decoded ≤ marks text := by
  fun_induction decodeString text generalizing decoded with
  | case1 | case2 => simp [← Option.some.inj hdecoded]
  | case3 | case5 => exact absurd hdecoded.symm (Option.some_ne_none decoded)
  | case4 a b c d behind _ ihPair ih =>
    have hescape : marks (92 :: 117 :: a :: b :: c :: d :: behind) =
        2 + (markOf a + (markOf b + (markOf c + (markOf d + marks behind)))) := by
      simp only [marks_cons]
      rw [show markOf 92 = 1 from rfl, show markOf 117 = 1 from rfl]
      omega
    have hcodePoint : ∀ (cp : ℕ) (tail : ByteString) (rest : ByteString),
        (∀ {decoded}, decodeString tail = some decoded → need decoded ≤ marks tail) →
        marks tail ≤ marks rest →
        (decodeString tail).map (fun decoded ↦ codePointToUTF8 cp ++ decoded) = some decoded →
          need decoded ≤ 2 + marks rest := by
      intro cp tail rest htail hmarks hequal
      obtain ⟨last, hlast, rfl⟩ := Option.map_eq_some_iff.mp hequal
      have hneed := need_codePointToUTF8_le cp
      have hrest := htail hlast
      rw [need_append]
      omega
    rw [hescape]
    obtain ⟨unicode, -, hunicode⟩ := Option.bind_eq_some_iff.mp hdecoded
    split at hunicode
    · split at hunicode
      · rename_i slash mark e f g h tail
        split at hunicode
        · obtain ⟨surrogatePair, -, hpair⟩ := Option.bind_eq_some_iff.mp hunicode
          have hneed := hcodePoint _ tail (slash :: mark :: e :: f :: g :: h :: tail) ihPair
            (by simp only [marks_cons]; omega) hpair
          omega
        · exact absurd hunicode.symm (Option.some_ne_none decoded)
      · exact absurd hunicode.symm (Option.some_ne_none decoded)
    · have hneed := hcodePoint unicode behind behind ih le_rfl hunicode
      omega
  | case6 escape behind _ _ ih =>
    obtain ⟨byte, hbyte, hmap⟩ := Option.bind_eq_some_iff.mp hdecoded
    obtain ⟨last, hlast, rfl⟩ := Option.map_eq_some_iff.mp hmap
    have hneed := needOf_unescape hbyte
    have hrest := ih hlast
    rw [need_cons, marks_cons, marks_cons, show markOf 92 = 1 from rfl]
    omega
  | case7 byte rest hquote hescape ih =>
    obtain ⟨last, hlast, rfl⟩ := Option.map_eq_some_iff.mp hdecoded
    rw [need_cons, marks_cons, needOf_of_plain hquote hescape]
    exact Nat.add_le_add_left (ih hlast) _

/-! ### Tokens -/

/-- What a token leaves has the marks that are not in its text. -/
theorem marks_skipCommentTokens_le (input : ByteString) :
    marks (skipCommentTokens input).1.text + marks (skipCommentTokens input).2 ≤ marks input := by
  obtain ⟨⟨before, after, hsplit⟩, -⟩ := skipCommentTokens_split input
  have hmarks := congrArg marks hsplit
  simp only [marks_append] at hmarks
  omega

theorem marks_readToken_le (input : ByteString) : marks (readToken input).2 ≤ marks input := by
  obtain ⟨⟨before, after, hsplit⟩, -⟩ := readToken_split input
  have hmarks := congrArg marks hsplit
  simp only [marks_append] at hmarks
  omega

theorem marks_le_of_suffix (hsuffix : rest <:+ input) : marks rest ≤ marks input := by
  obtain ⟨before, rfl⟩ := hsuffix
  rw [marks_append]
  exact Nat.le_add_left _ _

theorem marks_readSeparator_le {separator : Bool × ByteString}
    (hseparator : readSeparator input = some separator) : marks separator.2 ≤ marks input := by
  have hmarks := marks_readToken_le input
  rw [readSeparator] at hseparator
  split at hseparator
  · rename_i behind htoken
    rw [htoken] at hmarks
    rwa [← Option.some.inj hseparator]
  · rename_i behind htoken
    rw [htoken] at hmarks
    rwa [← Option.some.inj hseparator]
  · rename_i behind htoken
    rw [htoken] at hmarks
    rw [← Option.some.inj hseparator]
    have hbehind := marks_skipCommentTokens_le behind
    exact ((Nat.le_add_left _ _).trans hbehind).trans hmarks
  · exact absurd hseparator.symm (Option.some_ne_none separator)

/-- The bytes of a number need nothing. -/
theorem needOf_of_isNumberByte {byte : Byte} (hbyte : isNumberByte byte = true) :
    needOf byte = 0 := by
  have hother : ∀ other : Byte, isNumberByte other = false → byte ≠ other := by
    rintro other hother rfl
    simp [hother] at hbyte
  rw [needOf, if_neg (hother 92 (by decide)), if_neg]
  rintro (hquote | hletter)
  · exact hother 34 (by decide) hquote
  · exact hother 117 (by decide) hletter

theorem need_of_isNumberByte (htext : ∀ byte ∈ text, isNumberByte byte = true) : need text = 0 := by
  induction text with
  | nil => rfl
  | cons byte text ih =>
    obtain ⟨hbyte, htext⟩ := List.forall_mem_cons.mp htext
    rw [need_cons, needOf_of_isNumberByte hbyte, ih htext]

/-- The text of a number token needs nothing. -/
theorem need_of_readToken {text : ByteString} (htoken : (readToken input).1 = .number text) :
    need text = 0 := by
  rw [readToken] at htoken
  split at htoken
  · exact absurd htoken Token.noConfusion
  · rename_i byte rest hrest
    by_cases hquote : byte = 34
    · subst hquote
      rw [tokenAt_quote] at htoken
      split at htoken <;> exact absurd htoken Token.noConfusion
    · by_cases hnumber : isDigit byte ∨ byte = 45
      · rw [tokenAt_number hnumber] at htoken
        obtain rfl := Token.number.inj htoken
        refine need_of_isNumberByte (List.forall_mem_cons.mpr ⟨?_, fun other hother ↦ ?_⟩)
        · obtain hdigit | rfl := hnumber
          · rw [isNumberByte, hdigit, Bool.true_or]
          · decide
        · exact List.mem_takeWhile_imp hother
      · have htext := (@tokenAt_keepsNoText rest byte hquote hnumber).1
        rw [htoken] at htext
        obtain rfl : text = [] := htext
        rfl

theorem need_of_skipCommentTokens {text : ByteString}
    (htoken : (skipCommentTokens input).1 = .number text) : need text = 0 := by
  have hskip : ∀ fuel input, (skipComments fuel input).1 = .number text → need text = 0 := by
    intro fuel
    induction fuel with
    | zero => exact fun input htoken ↦ absurd htoken Token.noConfusion
    | succ fuel ih =>
      intro input htoken
      rw [skipComments] at htoken
      split at htoken
      · exact ih _ htoken
      · exact need_of_readToken htoken
  exact hskip _ input htoken

/-- The name of a member needs no more than its token has marks. -/
theorem need_memberName_le {name : ByteString}
    (hname : memberName (skipCommentTokens input).1 = some name) :
    need name ≤ marks (skipCommentTokens input).1.text := by
  cases htoken : (skipCommentTokens input).1 with
  | string text =>
    rw [htoken] at hname
    exact need_decodeString hname
  | number text =>
    rw [htoken] at hname
    obtain rfl := Option.some.inj hname
    rw [need_of_skipCommentTokens htoken]
    exact Nat.zero_le _
  | _ =>
    rw [htoken] at hname
    exact absurd hname.symm (Option.some_ne_none name)

/-! ### Values -/

/-- The need of the names and strings of a value, down to a depth of objects. -/
def Value.need : ℕ → Value → ℕ
  | _, string text => Protocol.need text
  | depth + 1, object members =>
    (members.map fun member ↦ Protocol.need member.1 + member.2.need depth).sum
  | _, _ => 0

/-- What is read needs no more than the marks that were taken. -/
def Needs (input : ByteString) (result : Except ReaderFault (Value × ByteString)) : Prop :=
  ∀ value rest depth, result = .ok (value, rest) → value.need depth + marks rest ≤ marks input

variable {name : ByteString} {value : Value} {members : List (ByteString × Value)}
  {readNext : ByteString → Except ReaderFault (Value × ByteString)}

/-- An assignment adds the need of the member at most. -/
theorem need_assignMember_le (depth : ℕ) :
    (Value.object (assignMember name value members)).need depth ≤
      (Value.object members).need depth + (need name + value.need (depth - 1)) := by
  cases depth with
  | zero => exact Nat.zero_le _
  | succ depth =>
    simp only [Value.need, Nat.add_sub_cancel]
    induction members with
    | nil => simp [assignMember]
    | cons member members ih =>
      rw [assignMember]
      split
      · simp only [List.map_cons, List.sum_cons]
        omega
      · simp only [List.map_cons, List.sum_cons]
        omega

/-- The rounds of `readObject` need no more than the marks that they take. -/
theorem needs_readObject (hnext : ∀ input, Needs input (readNext input)) {rounds : ℕ}
    (depth : ℕ)
    (hread : readObject readNext rounds name members input = .ok (value, rest)) :
    value.need depth + marks rest ≤ (Value.object members).need depth + marks input := by
  induction rounds generalizing name members input with
  | zero => exact absurd hread (by simp [readObject])
  | succ rounds ih =>
    have htoken := marks_skipCommentTokens_le input
    rw [readObject] at hread
    split at hread
    · obtain ⟨rfl, rfl⟩ := Prod.mk.inj (Except.ok.inj hread)
      omega
    · split at hread
      · exact absurd hread (by simp)
      · rename_i newName hname
        have hneedName := need_memberName_le hname
        have hcolon := marks_readToken_le (skipCommentTokens input).2
        split at hread
        · rename_i behind hseparator
          rw [hseparator] at hcolon
          dsimp only at hcolon
          cases hmember : readNext behind with
          | error fault =>
            rw [hmember] at hread
            exact absurd hread (by simp [Except.bind])
          | ok read =>
            have hneedMember := hnext behind read.1 read.2 (depth - 1) hmember
            have hneedCString := need_cString_le newName
            have hassign := @need_assignMember_le (cString newName) read.1 members depth
            rw [hmember] at hread
            simp only [Except.bind] at hread
            split at hread
            · exact absurd hread (by simp)
            · rename_i last hlast
              have hmarks := marks_readSeparator_le hlast
              obtain ⟨rfl, rfl⟩ := Prod.mk.inj (Except.ok.inj hread)
              dsimp only at hmarks
              omega
            · rename_i last hlast
              have hmarks := marks_readSeparator_le hlast
              have hrounds := ih hread
              dsimp only at hmarks
              omega
        · exact absurd hread (by simp)

/-- The rounds of `readArray` take marks only. -/
theorem needs_readArray (hnext : ∀ input, Needs input (readNext input)) {rounds : ℕ}
    {items : List Value} (depth : ℕ)
    (hread : readArray readNext rounds items input = .ok (value, rest)) :
    value.need depth + marks rest ≤ marks input := by
  induction rounds generalizing items input with
  | zero => exact absurd hread (by simp [readArray])
  | succ rounds ih =>
    rw [readArray] at hread
    cases hitem : readNext input with
    | error fault =>
      rw [hitem] at hread
      exact absurd hread (by simp [Except.bind])
    | ok read =>
      have hneed := hnext input read.1 read.2 0 hitem
      have htoken := marks_skipCommentTokens_le read.2
      rw [hitem] at hread
      simp only [Except.bind] at hread
      split at hread
      · obtain ⟨rfl, rfl⟩ := Prod.mk.inj (Except.ok.inj hread)
        have hzero : (Value.array (items ++ [read.1])).need depth = 0 := by
          cases depth <;> rfl
        omega
      · have hrounds := ih hread
        omega

theorem need_of_decodeNumber {text : ByteString} (hnumber : decodeNumber text = .ok value)
    (depth : ℕ) : value.need depth = 0 := by
  have hreal : decodeDouble text = .ok value → value.need depth = 0 := by
    intro hdouble
    rw [decodeDouble] at hdouble
    split at hdouble
    · exact absurd hdouble (by simp)
    · split at hdouble
      · exact absurd hdouble (by simp)
      · rw [← Except.ok.inj hdouble]
        cases depth <;> rfl
  have hdigits : ∀ (read : Except ReaderFault (Option ℕ))
      (next : Option ℕ → Except ReaderFault Value) (make : ℕ → Value),
      next none = decodeDouble text →
      (∀ number, next (some number) = .ok (make number)) →
        (∀ number, (make number).need depth = 0) → read.bind next = .ok value →
          value.need depth = 0 := by
    intro read next make hnone hsome hmake hequal
    cases read with
    | error fault => exact absurd hequal (by simp [Except.bind])
    | ok number =>
      cases number with
      | none => exact hreal (hnone.symm.trans hequal)
      | some number =>
        obtain rfl := Except.ok.inj ((hsome number).symm.trans hequal)
        exact hmake number
  rw [decodeNumber] at hnumber
  split at hnumber
  · exact hreal hnumber
  · split at hnumber
    · exact hdigits _ _ (fun number ↦ .int (-number)) rfl (fun _ ↦ rfl)
        (fun number ↦ by cases depth <;> rfl) hnumber
    · refine hdigits _ _ (fun number ↦ if (number : ℤ) ≤ maxInt then .int number else .uint number)
        rfl (fun _ ↦ rfl) (fun number ↦ ?_) hnumber
      split <;> cases depth <;> rfl

/-- A value that is read needs no more than the marks that were taken. -/
theorem needs_readValue (fuel : ℕ) (input : ByteString) : Needs input (readValue fuel input) := by
  induction fuel generalizing input with
  | zero => exact fun value rest depth hread ↦ absurd hread (by simp [readValue])
  | succ fuel ih =>
    intro value rest depth hread
    have htoken := marks_skipCommentTokens_le input
    have hquiet : ∀ (quiet : Value) (token : Token) (behind : ByteString), quiet.need depth = 0 →
        skipCommentTokens input = (token, behind) → quiet = value ∧ behind = rest →
          value.need depth + marks rest ≤ marks input := by
      rintro quiet token behind hzero hskip ⟨rfl, rfl⟩
      rw [hskip] at htoken
      dsimp only at htoken
      omega
    rw [readValue] at hread
    split at hread
    · rename_i behind hbegin
      have hobject := needs_readObject ih depth hread
      have hempty : (Value.object []).need depth = 0 := by
        cases depth <;> rfl
      rw [hbegin] at htoken
      dsimp only at htoken
      omega
    · rename_i behind hbegin
      rw [hbegin] at htoken
      dsimp only at htoken
      split at hread
      · obtain ⟨rfl, rfl⟩ := Prod.mk.inj (Except.ok.inj hread)
        have hzero : (Value.array []).need depth = 0 := by
          cases depth <;> rfl
        have htail := marks_le_of_suffix
          ((List.tail_suffix (skipSpaces behind)).trans (List.dropWhile_suffix isSpace))
        omega
      · have harray := needs_readArray ih depth hread
        omega
    · rename_i text behind hnumber
      cases hdecoded : decodeNumber text with
      | error fault =>
        rw [hdecoded] at hread
        exact absurd hread (by simp [Except.map])
      | ok number =>
        rw [hdecoded] at hread
        exact hquiet number _ behind (need_of_decodeNumber hdecoded depth) hnumber
          (Prod.mk.inj (Except.ok.inj hread))
    · rename_i text behind hstring
      rw [hstring] at htoken
      dsimp only at htoken
      split at hread
      · exact absurd hread (by simp)
      · rename_i decoded hdecoded
        obtain ⟨rfl, rfl⟩ := Prod.mk.inj (Except.ok.inj hread)
        have hneed := need_decodeString hdecoded
        have hcString := need_cString_le decoded
        have hvalue : (Value.ofStdString decoded).need depth = need (cString decoded) := by
          cases depth <;> rfl
        rw [hvalue]
        simp only [Token.text] at htoken
        omega
    · rename_i behind hliteral
      exact hquiet (.boolean true) _ behind (by cases depth <;> rfl) hliteral
        (Prod.mk.inj (Except.ok.inj hread))
    · rename_i behind hliteral
      exact hquiet (.boolean false) _ behind (by cases depth <;> rfl) hliteral
        (Prod.mk.inj (Except.ok.inj hread))
    · rename_i behind hliteral
      exact hquiet .null _ behind (by cases depth <;> rfl) hliteral
        (Prod.mk.inj (Except.ok.inj hread))
    · exact absurd hread (by simp)

/-- The value of a document needs no more than the document has marks. -/
theorem need_parse (hparse : parse input = .ok value) (depth : ℕ) :
    value.need depth ≤ marks input := by
  rw [parse] at hparse
  cases hread : readValue (input.length + 1) input with
  | error fault =>
    rw [hread] at hparse
    exact absurd hparse (by simp [Except.map])
  | ok read =>
    rw [hread] at hparse
    obtain rfl := Except.ok.inj hparse
    exact (Nat.le_add_right _ _).trans (needs_readValue _ input read.1 read.2 depth hread)

/-! ### Pasted texts -/

theorem marks_quoted (text : ByteString) : marks (quoted text) = marks text := by
  simp [quoted, markOf]

theorem marks_decimal (value : ℤ) : marks (decimal value) = 0 := by
  obtain ⟨byte, digits, htext, hbyte, hdigits⟩ := decimal_cons value
  have hneed : need (decimal value) = 0 := by
    rw [htext]
    refine need_of_isNumberByte (List.forall_mem_cons.mpr ⟨?_, fun digit hdigit ↦ ?_⟩)
    · obtain hdigit | rfl := hbyte
      · rw [isNumberByte, hdigit, Bool.true_or]
      · decide
    · rw [isNumberByte, hdigits digit hdigit, Bool.true_or]
  exact Nat.eq_zero_of_le_zero (hneed ▸ marks_le_need _)

/-- The marks of an object are those of its names and values. -/
theorem marks_pasteObject (texts : List (ByteString × ByteString)) :
    marks (pasteObject texts) = (texts.map fun member ↦ marks member.1 + marks member.2).sum := by
  have hmember : ∀ member, marks (pasteMember member) = marks member.1 + marks member.2 := by
    intro member
    simp [pasteMember, marks_quoted, markOf]
  have hothers : ∀ texts : List (ByteString × ByteString),
      marks (texts.flatMap fun other ↦ 44 :: pasteMember other) =
        (texts.map fun member ↦ marks member.1 + marks member.2).sum := by
    intro texts
    induction texts with
    | nil => rfl
    | cons first texts ih =>
      rw [List.flatMap_cons, marks_append, ih, marks_cons, hmember, List.map_cons, List.sum_cons,
        show markOf 44 = 0 from rfl, Nat.zero_add]
  cases texts with
  | nil => rfl
  | cons first texts =>
    rw [pasteObject, pasteMembers, marks_cons, marks_append, marks_append, hmember, hothers,
      List.map_cons, List.sum_cons, show markOf 123 = 0 from rfl, show marks [125] = 0 from rfl]
    omega

end RocketMQClient.Protocol
