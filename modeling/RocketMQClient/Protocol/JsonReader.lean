import RocketMQClient.Library.Decimal
import RocketMQClient.Protocol.JsonValue

/-!
# The JSON reader

`MQJson::Reader` of the bundled library, which is laxer than the grammar of JSON: it skips comments,
takes a number as the name of a member, takes any token between two elements of an array, and does
not look at what stands behind the value. A failure makes the whole reading fail; the recovery that
follows it only skips tokens, and is left out.

The position in the document is the rest of the document that is still to be read. `readValue` has
fuel for the nesting of values, and the loops over members and items have fuel for their rounds;
`parse` gives them enough (`parse_ne_outOfFuel`).

The functions keep the names of the source and its order of looking at tokens. What a token takes
from the document is stated once (`readToken_split`): nothing but the end of the document takes
nothing, and from this every loop ends (`readValue_settles`). The buffer of `decodeDouble` is part
of the model, since the text of a number may be longer than it (`ReaderFault`).
-/

set_option autoImplicit false
set_option relaxedAutoImplicit false

namespace RocketMQClient.Protocol

open Library

/-- How reading fails. -/
inductive ReaderFault where
  | syntaxError
  /-- `decodeDouble` writes a zero byte behind its buffer. -/
  | bufferOverrun
  | outOfFuel
  deriving DecidableEq

/-- `Reader::Token`, with the text between the quotes of a string and the text of a number. -/
inductive Token where
  | endOfStream
  | objectBegin
  | objectEnd
  | arrayBegin
  | arrayEnd
  | string (text : ByteString)
  | number (text : ByteString)
  | literalTrue
  | literalFalse
  | literalNull
  | arraySeparator
  | memberSeparator
  | comment
  | error
  deriving DecidableEq

/-! ### Tokens -/

/-- The bytes that `skipSpaces` skips. -/
def isSpace (byte : Byte) : Bool := decide (byte = 32 ∨ byte = 9 ∨ byte = 13 ∨ byte = 10)

/-- The bytes that `readNumber` takes. -/
def isNumberByte (byte : Byte) : Bool :=
  isDigit byte || decide (byte = 46 ∨ byte = 101 ∨ byte = 69 ∨ byte = 43 ∨ byte = 45)

/-- `skipSpaces`. -/
def skipSpaces (input : ByteString) : ByteString := input.dropWhile isSpace

/-- `match`: what follows a pattern. -/
def matchPattern (pattern input : ByteString) : Option ByteString :=
  if pattern.isPrefixOf input then some (input.drop pattern.length) else none

/-- `readString`: the text up to the closing quote, and what follows it. -/
def readString : ByteString → Option (ByteString × ByteString)
  | [] => none
  | byte :: rest =>
    if byte = 34 then some ([], rest)
    else if byte = 92 then
      match rest with
      | [] => none
      | escaped :: behind =>
        (readString behind).map fun read ↦ (byte :: escaped :: read.1, read.2)
    else (readString rest).map fun read ↦ (byte :: read.1, read.2)

/-- `readCStyleComment`: what follows the end of the comment. -/
def readCStyleComment : ByteString → Option ByteString
  | [] => none
  | byte :: rest =>
    if byte = 42 ∧ rest.head? = some 47 then some rest.tail else readCStyleComment rest

/-- `readCppStyleComment`: what follows the end of the line. -/
def readCppStyleComment (input : ByteString) : ByteString :=
  (input.dropWhile fun byte ↦ !decide (byte = 13 ∨ byte = 10)).tail

/-- `readComment`, behind the first slash. -/
def readComment : ByteString → Token × ByteString
  | [] => (.error, [])
  | byte :: rest =>
    if byte = 42 then
      match readCStyleComment rest with
      | none => (.error, [])
      | some behind => (.comment, behind)
    else if byte = 47 then (.comment, readCppStyleComment rest)
    else (.error, rest)

/-- The token of a word. -/
def readWord (token : Token) (pattern rest : ByteString) : Token × ByteString :=
  match matchPattern pattern rest with
  | none => (.error, rest)
  | some behind => (token, behind)

/-- The token that starts with a byte. -/
def tokenAt (byte : Byte) (rest : ByteString) : Token × ByteString :=
  if byte = 123 then (.objectBegin, rest)
  else if byte = 125 then (.objectEnd, rest)
  else if byte = 91 then (.arrayBegin, rest)
  else if byte = 93 then (.arrayEnd, rest)
  else if byte = 34 then
    match readString rest with
    | none => (.error, [])
    | some (text, behind) => (.string text, behind)
  else if byte = 47 then readComment rest
  else if isDigit byte ∨ byte = 45 then
    (.number (byte :: rest.takeWhile isNumberByte), rest.dropWhile isNumberByte)
  else if byte = 116 then readWord .literalTrue (ofString "rue") rest
  else if byte = 102 then readWord .literalFalse (ofString "alse") rest
  else if byte = 110 then readWord .literalNull (ofString "ull") rest
  else if byte = 44 then (.arraySeparator, rest)
  else if byte = 58 then (.memberSeparator, rest)
  else if byte = 0 then (.endOfStream, rest)
  else (.error, rest)

/-- `readToken`. -/
def readToken (input : ByteString) : Token × ByteString :=
  match skipSpaces input with
  | [] => (.endOfStream, [])
  | byte :: rest => tokenAt byte rest

/-- The first token that is no comment, if there is fuel for the comments before it. -/
def skipComments : ℕ → ByteString → Token × ByteString
  | 0, input => (.error, input)
  | fuel + 1, input =>
    if (readToken input).1 = .comment then skipComments fuel (readToken input).2
    else readToken input

/-- `skipCommentTokens`. -/
def skipCommentTokens (input : ByteString) : Token × ByteString :=
  skipComments (input.length + 1) input

/-! ### Strings -/

/-- `codePointToUTF8`. -/
def codePointToUTF8 (cp : ℕ) : ByteString :=
  if cp ≤ 0x7F then [Fin.ofNat 256 cp]
  else if cp ≤ 0x7FF then [Fin.ofNat 256 (0xC0 + cp / 64 % 32), Fin.ofNat 256 (0x80 + cp % 64)]
  else if cp ≤ 0xFFFF then
    [Fin.ofNat 256 (0xE0 + cp / 4096 % 16), Fin.ofNat 256 (0x80 + cp / 64 % 64),
      Fin.ofNat 256 (0x80 + cp % 64)]
  else if cp ≤ 0x10FFFF then
    [Fin.ofNat 256 (0xF0 + cp / 262144 % 8), Fin.ofNat 256 (0x80 + cp / 4096 % 64),
      Fin.ofNat 256 (0x80 + cp / 64 % 64), Fin.ofNat 256 (0x80 + cp % 64)]
  else []

/-- The value of a hexadecimal digit of an escape sequence. -/
def hexadecimalValue (byte : Byte) : Option ℕ :=
  if isDigit byte then some (byte.val - 48)
  else if 97 ≤ byte.val ∧ byte.val ≤ 102 then some (byte.val - 87)
  else if 65 ≤ byte.val ∧ byte.val ≤ 70 then some (byte.val - 55)
  else none

/-- `decodeUnicodeEscapeSequence` on four bytes. -/
def decodeUnicodeEscapeSequence (digits : List Byte) : Option ℕ :=
  (digits.mapM hexadecimalValue).map fun values ↦ values.foldl (fun unicode digit ↦
    16 * unicode + digit) 0

/-- The byte of a short escape sequence. -/
def unescape (escape : Byte) : Option Byte :=
  if escape = 34 ∨ escape = 47 ∨ escape = 92 then some escape
  else if escape = 98 then some 8
  else if escape = 102 then some 12
  else if escape = 110 then some 10
  else if escape = 114 then some 13
  else if escape = 116 then some 9
  else none

/-- `decodeString` on the text between the quotes. -/
def decodeString : ByteString → Option ByteString
  | [] => some []
  | byte :: rest =>
    if byte = 34 then some []
    else if byte = 92 then
      match rest with
      | [] => none
      | escape :: behind =>
        if escape = 117 then
          match behind with
          | a :: b :: c :: d :: behind =>
            (decodeUnicodeEscapeSequence [a, b, c, d]).bind fun unicode ↦
              if 0xD800 ≤ unicode ∧ unicode ≤ 0xDBFF then
                match behind with
                | slash :: mark :: e :: f :: g :: h :: behind =>
                  if slash = 92 ∧ mark = 117 then
                    (decodeUnicodeEscapeSequence [e, f, g, h]).bind fun surrogatePair ↦
                      (decodeString behind).map fun decoded ↦
                        codePointToUTF8 (0x10000 + unicode % 1024 * 1024 + surrogatePair % 1024) ++
                          decoded
                  else none
                | _ => none
              else (decodeString behind).map fun decoded ↦ codePointToUTF8 unicode ++ decoded
          | _ => none
        else
          (unescape escape).bind fun decodedByte ↦
            (decodeString behind).map fun decoded ↦ decodedByte :: decoded
    else (decodeString rest).map fun decoded ↦ byte :: decoded

/-! ### Numbers -/

/-- An optional exponent, as the C library reads it; a mark without digits is no number. -/
def scanExponent : ByteString → Option ℤ
  | [] => some 0
  | mark :: rest =>
    if mark = 101 ∨ mark = 69 then
      let digits := (if rest.head? = some 43 ∨ rest.head? = some 45 then rest.tail
        else rest).takeWhile isDigit
      if digits = [] then none
      else some (if rest.head? = some 45 then -(ofDecimalDigits 0 digits : ℤ)
        else ofDecimalDigits 0 digits)
    else some 0

/-- `sscanf` with `%lf` on the text of a number. -/
def scanDouble (text : ByteString) : Option Double :=
  let negative : Bool := text.head? = some 45
  let unsigned := if text.head? = some 45 ∨ text.head? = some 43 then text.tail else text
  let whole := unsigned.takeWhile isDigit
  let behind := unsigned.dropWhile isDigit
  let fraction := if behind.head? = some 46 then behind.tail.takeWhile isDigit else []
  let rest := if behind.head? = some 46 then behind.tail.dropWhile isDigit else behind
  if whole ++ fraction = [] then none
  else (scanExponent rest).map fun exponent ↦
    let significand : ℚ := ofDecimalDigits 0 (whole ++ fraction)
    Double.ofRational ((if negative then -significand else significand) *
      10 ^ (exponent - (fraction.length : ℤ)))

/-- `decodeDouble`. A text of 32 bytes fills its buffer. -/
def decodeDouble (text : ByteString) : Except ReaderFault Value :=
  if text.length = 32 then .error .bufferOverrun
  else
    match scanDouble text with
    | none => .error .syntaxError
    | some value => .ok (.real value)

/-- The loop of `decodeNumber`: no number if the digits of a large one are to be read as a
double. -/
def readDigits (threshold value : ℕ) : ByteString → Except ReaderFault (Option ℕ)
  | [] => .ok (some value)
  | byte :: rest =>
    if isDigit byte then
      if threshold ≤ value then .ok none
      else readDigits threshold (10 * value + (byte.val - 48)) rest
    else .error .syntaxError

/-- Whether a number is read as a double because of a byte in it. -/
def isDouble (text : ByteString) : Bool :=
  text.any (fun byte ↦ decide (byte = 46 ∨ byte = 101 ∨ byte = 69 ∨ byte = 43)) ||
    text.tail.contains 45

/-- `decodeNumber`. -/
def decodeNumber (text : ByteString) : Except ReaderFault Value :=
  if isDouble text then decodeDouble text
  else if text.head? = some 45 then
    (readDigits 214748364 0 text.tail).bind fun
      | none => decodeDouble text
      | some value => .ok (.int (-value))
  else
    (readDigits 429496729 0 text).bind fun
      | none => decodeDouble text
      | some value => .ok (if (value : ℤ) ≤ maxInt then .int value else .uint value)

/-! ### Values -/

/-- The name of a member: a string, or the text of a number. -/
def memberName : Token → Option ByteString
  | .string text => decodeString text
  | .number text => some text
  | _ => none

/-- What stands behind the value of a member: the end of the object or another member. Any token
may stand between a comment and the next member. -/
def readSeparator (input : ByteString) : Option (Bool × ByteString) :=
  match readToken input with
  | (.objectEnd, rest) => some (true, rest)
  | (.arraySeparator, rest) => some (false, rest)
  | (.comment, rest) =>
    some (decide ((skipCommentTokens rest).1 = .objectEnd), (skipCommentTokens rest).2)
  | _ => none

/-- The loop of `readObject`, with the name that was read last. The values of members are read by
`readMember`. -/
def readObject (readMember : ByteString → Except ReaderFault (Value × ByteString)) :
    ℕ → ByteString → List (ByteString × Value) → ByteString →
      Except ReaderFault (Value × ByteString)
  | 0, _, _, _ => .error .outOfFuel
  | rounds + 1, name, members, input =>
    if (skipCommentTokens input).1 = .objectEnd ∧ name = [] then
      .ok (.object members, (skipCommentTokens input).2)
    else
      match memberName (skipCommentTokens input).1 with
      | none => .error .syntaxError
      | some name =>
        match readToken (skipCommentTokens input).2 with
        | (.memberSeparator, rest) =>
          (readMember rest).bind fun read ↦
            match readSeparator read.2 with
            | none => .error .syntaxError
            | some (true, rest) => .ok (.object (assignMember (cString name) read.1 members), rest)
            | some (false, rest) =>
              readObject readMember rounds name (assignMember (cString name) read.1 members) rest
        | _ => .error .syntaxError

/-- The loop of `readArray`. Any token but the end of the array separates two items. -/
def readArray (readItem : ByteString → Except ReaderFault (Value × ByteString)) :
    ℕ → List Value → ByteString → Except ReaderFault (Value × ByteString)
  | 0, _, _ => .error .outOfFuel
  | rounds + 1, items, input =>
    (readItem input).bind fun read ↦
      if (skipCommentTokens read.2).1 = .arrayEnd then
        .ok (.array (items ++ [read.1]), (skipCommentTokens read.2).2)
      else readArray readItem rounds (items ++ [read.1]) (skipCommentTokens read.2).2

/-- `readValue`. -/
def readValue : ℕ → ByteString → Except ReaderFault (Value × ByteString)
  | 0, _ => .error .outOfFuel
  | fuel + 1, input =>
    match skipCommentTokens input with
    | (.objectBegin, rest) => readObject (readValue fuel) (rest.length + 1) [] [] rest
    | (.arrayBegin, rest) =>
      if (skipSpaces rest).head? = some 93 then .ok (.array [], (skipSpaces rest).tail)
      else readArray (readValue fuel) (rest.length + 1) [] rest
    | (.number text, rest) => (decodeNumber text).map fun value ↦ (value, rest)
    | (.string text, rest) =>
      match decodeString text with
      | none => .error .syntaxError
      | some decoded => .ok (.ofStdString decoded, rest)
    | (.literalTrue, rest) => .ok (.boolean true, rest)
    | (.literalFalse, rest) => .ok (.boolean false, rest)
    | (.literalNull, rest) => .ok (.null, rest)
    | _ => .error .syntaxError

/-- `Reader::parse`. -/
def parse (document : ByteString) : Except ReaderFault Value :=
  (readValue (document.length + 1) document).map Prod.fst

/-! ### Strings and their escapes -/

variable {input rest : ByteString} {token : Token} {byte : Byte}

theorem readString_quote (rest : ByteString) : readString (34 :: rest) = some ([], rest) := by
  rw [readString.eq_def]
  exact if_pos rfl

theorem readString_escape (escaped : Byte) (behind : ByteString) :
    readString (92 :: escaped :: behind) =
      (readString behind).map fun read ↦ (92 :: escaped :: read.1, read.2) := rfl

theorem readString_plain (hquote : byte ≠ 34) (hescape : byte ≠ 92) (rest : ByteString) :
    readString (byte :: rest) = (readString rest).map fun read ↦ (byte :: read.1, read.2) := by
  rw [readString.eq_def]
  simp only [if_neg hquote, if_neg hescape]

theorem decodeString_plain (hquote : byte ≠ 34) (hescape : byte ≠ 92) (rest : ByteString) :
    decodeString (byte :: rest) = (decodeString rest).map fun decoded ↦ byte :: decoded := by
  rw [decodeString.eq_def]
  simp only [if_neg hquote, if_neg hescape]

/-! ### What a token takes -/

/-- The text that a token keeps. -/
def Token.text : Token → ByteString
  | .string text | .number text => text
  | _ => []

/-- A string is its text, a quote and what follows it. -/
theorem readString_split {read : ByteString × ByteString} (hread : readString input = some read) :
    input = read.1 ++ 34 :: read.2 := by
  induction input using readString.induct generalizing read with
  | case1 => exact absurd hread.symm (Option.some_ne_none read)
  | case2 rest =>
    rw [readString_quote] at hread
    rw [← Option.some.inj hread]
    rfl
  | case3 => exact absurd hread.symm (Option.some_ne_none read)
  | case4 escaped behind _ ih =>
    rw [readString_escape] at hread
    obtain ⟨inner, hinner, rfl⟩ := Option.map_eq_some_iff.mp hread
    rw [ih hinner]
    rfl
  | case5 byte rest hquote hescape ih =>
    rw [readString_plain hquote hescape] at hread
    obtain ⟨inner, hinner, rfl⟩ := Option.map_eq_some_iff.mp hread
    rw [ih hinner]
    rfl

/-- What follows a comment is a suffix. -/
theorem readCStyleComment_suffix (hrest : readCStyleComment input = some rest) :
    rest <:+ input := by
  induction input with
  | nil => exact absurd hrest.symm (Option.some_ne_none rest)
  | cons byte behind ih =>
    rw [readCStyleComment] at hrest
    split at hrest
    · rw [← Option.some.inj hrest]
      exact (List.tail_suffix behind).trans (List.suffix_cons byte behind)
    · exact (ih hrest).trans (List.suffix_cons byte behind)

/-- A comment has no text. -/
theorem readComment_split : (readComment input).1.text = [] ∧ (readComment input).2 <:+ input := by
  cases input with
  | nil => exact ⟨rfl, List.suffix_rfl⟩
  | cons byte behind =>
    have hbehind : behind <:+ byte :: behind := List.suffix_cons byte behind
    rw [readComment]
    split
    · cases hcomment : readCStyleComment behind with
      | none => exact ⟨rfl, List.nil_suffix⟩
      | some rest => exact ⟨rfl, (readCStyleComment_suffix hcomment).trans hbehind⟩
    · split
      · exact ⟨rfl, ((List.tail_suffix _).trans (List.dropWhile_suffix _)).trans hbehind⟩
      · exact ⟨rfl, hbehind⟩

/-- A word has no text. -/
theorem readWord_split (htoken : token.text = []) (pattern rest : ByteString) :
    (readWord token pattern rest).1.text = [] ∧ (readWord token pattern rest).2 <:+ rest := by
  rw [readWord, matchPattern]
  split
  · exact ⟨rfl, List.suffix_rfl⟩
  · rename_i behind hbehind
    split at hbehind
    · rw [← Option.some.inj hbehind]
      exact ⟨htoken, List.drop_suffix _ rest⟩
    · exact absurd hbehind.symm (Option.some_ne_none behind)

/-- What is read keeps no text and is followed by the end of the document. -/
def KeepsNoText (rest : ByteString) (read : Token × ByteString) : Prop :=
  read.1.text = [] ∧ read.2 <:+ rest

/-- A token other than a string or a number keeps no text. -/
theorem tokenAt_keepsNoText (hquote : byte ≠ 34) (hnumber : ¬ (isDigit byte ∨ byte = 45)) :
    KeepsNoText rest (tokenAt byte rest) := by
  have hsimple : ∀ token : Token, token.text = [] → KeepsNoText rest (token, rest) :=
    fun _ htoken ↦ ⟨htoken, List.suffix_rfl⟩
  rw [tokenAt, if_neg hquote, if_neg hnumber]
  refine iteInduction (fun _ ↦ hsimple _ rfl) fun _ ↦ ?_
  refine iteInduction (fun _ ↦ hsimple _ rfl) fun _ ↦ ?_
  refine iteInduction (fun _ ↦ hsimple _ rfl) fun _ ↦ ?_
  refine iteInduction (fun _ ↦ hsimple _ rfl) fun _ ↦ ?_
  refine iteInduction (fun _ ↦ readComment_split) fun _ ↦ ?_
  refine iteInduction (fun _ ↦ readWord_split rfl _ rest) fun _ ↦ ?_
  refine iteInduction (fun _ ↦ readWord_split rfl _ rest) fun _ ↦ ?_
  refine iteInduction (fun _ ↦ readWord_split rfl _ rest) fun _ ↦ ?_
  refine iteInduction (fun _ ↦ hsimple _ rfl) fun _ ↦ ?_
  refine iteInduction (fun _ ↦ hsimple _ rfl) fun _ ↦ ?_
  exact iteInduction (fun _ ↦ hsimple _ rfl) fun _ ↦ hsimple _ rfl

/-- A string token. -/
theorem tokenAt_quote (rest : ByteString) :
    tokenAt 34 rest = match readString rest with
      | none => (.error, [])
      | some (text, behind) => (.string text, behind) :=
  rfl

/-- A number token. -/
theorem tokenAt_number (hnumber : isDigit byte ∨ byte = 45) (rest : ByteString) :
    tokenAt byte rest =
      (.number (byte :: rest.takeWhile isNumberByte), rest.dropWhile isNumberByte) := by
  have hbyte : byte.val = 45 ∨ (48 ≤ byte.val ∧ byte.val ≤ 57) := by
    obtain hdigit | rfl := hnumber
    · exact Or.inr (of_decide_eq_true hdigit)
    · exact Or.inl rfl
  have hother : ∀ other : Byte, other.val ≠ 45 → ¬ (48 ≤ other.val ∧ other.val ≤ 57) →
      byte ≠ other := by
    rintro other hminus hdigit rfl
    exact hbyte.elim hminus hdigit
  rw [tokenAt, if_neg (hother 123 (by decide) (by decide)),
    if_neg (hother 125 (by decide) (by decide)), if_neg (hother 91 (by decide) (by decide)),
    if_neg (hother 93 (by decide) (by decide)), if_neg (hother 34 (by decide) (by decide)),
    if_neg (hother 47 (by decide) (by decide)), if_pos hnumber]

/-- The text of a token lies behind its first bytes and before what follows it. -/
theorem tokenAt_split (byte : Byte) (rest : ByteString) :
    (tokenAt byte rest).2 <:+ rest ∧ ∃ before after, byte :: rest =
      before ++ (tokenAt byte rest).1.text ++ after ++ (tokenAt byte rest).2 := by
  by_cases hquote : byte = 34
  · subst hquote
    rw [tokenAt_quote]
    cases hread : readString rest with
    | none => exact ⟨List.nil_suffix, 34 :: rest, [], by simp [Token.text]⟩
    | some read =>
      have hrest : rest = read.1 ++ 34 :: read.2 := readString_split hread
      exact ⟨⟨read.1 ++ [34], by simp [hrest]⟩, [34], [34], by simp [Token.text, hrest]⟩
  · by_cases hnumber : isDigit byte ∨ byte = 45
    · rw [tokenAt_number hnumber]
      refine ⟨List.dropWhile_suffix _, [], [], ?_⟩
      simp [Token.text]
    · obtain ⟨htext, before, hbefore⟩ := @tokenAt_keepsNoText rest byte hquote hnumber
      refine ⟨⟨before, hbefore⟩, byte :: before, [], ?_⟩
      rw [htext, List.append_nil, List.append_nil, List.cons_append, hbefore]

/-- A token is taken from the front of the document; only the end of the document takes nothing. -/
theorem readToken_split (input : ByteString) :
    (∃ before after, input =
      before ++ (readToken input).1.text ++ after ++ (readToken input).2) ∧
      ((readToken input).1 = .endOfStream ∧ (readToken input).2 = [] ∨
        (readToken input).2.length < input.length) := by
  have hspaces : input = input.takeWhile isSpace ++ skipSpaces input :=
    (List.takeWhile_append_dropWhile ..).symm
  cases hskipped : skipSpaces input with
  | nil =>
    rw [readToken, hskipped]
    exact ⟨⟨input, [], by simp [Token.text]⟩, Or.inl ⟨rfl, rfl⟩⟩
  | cons byte rest =>
    rw [readToken, hskipped]
    obtain ⟨hsuffix, before, after, hsplit⟩ := tokenAt_split byte rest
    rw [hskipped] at hspaces
    refine ⟨⟨input.takeWhile isSpace ++ before, after, ?_⟩, Or.inr ?_⟩
    · show input = input.takeWhile isSpace ++ before ++ (tokenAt byte rest).1.text ++ after ++
        (tokenAt byte rest).2
      rw [List.append_assoc (input.takeWhile isSpace), List.append_assoc (input.takeWhile isSpace),
        List.append_assoc (input.takeWhile isSpace), ← hsplit, ← hspaces]
    · have hlength := congrArg List.length hspaces
      rw [List.length_append, List.length_cons] at hlength
      have hle := hsuffix.length_le
      show (tokenAt byte rest).2.length < input.length
      omega

/-- Enough fuel skips all comments. -/
theorem skipComments_split {fuel : ℕ} (hfuel : input.length < fuel) :
    (∃ before after, input =
      before ++ (skipComments fuel input).1.text ++ after ++ (skipComments fuel input).2) ∧
      ((skipComments fuel input).1 = .endOfStream ∧ (skipComments fuel input).2 = [] ∨
        (skipComments fuel input).2.length < input.length) := by
  induction fuel generalizing input with
  | zero => exact absurd hfuel (Nat.not_lt_zero _)
  | succ fuel ih =>
    obtain ⟨⟨before, after, hsplit⟩, hend⟩ := readToken_split input
    rw [skipComments]
    by_cases hcomment : (readToken input).1 = .comment
    · rw [if_pos hcomment]
      have hlength : (readToken input).2.length < input.length :=
        hend.resolve_left fun hstream ↦ by simp [hcomment] at hstream
      obtain ⟨⟨before', after', hsplit'⟩, hend'⟩ :=
        @ih (readToken input).2 (by omega)
      rw [hcomment] at hsplit
      refine ⟨⟨before ++ after ++ before', after', ?_⟩, ?_⟩
      · conv_lhs => rw [hsplit, hsplit']
        simp [Token.text]
      · exact hend'.imp id fun hlt ↦ hlt.trans hlength
    · rw [if_neg hcomment]
      exact ⟨⟨before, after, hsplit⟩, hend⟩

theorem skipCommentTokens_split (input : ByteString) :
    (∃ before after, input =
      before ++ (skipCommentTokens input).1.text ++ after ++ (skipCommentTokens input).2) ∧
      ((skipCommentTokens input).1 = .endOfStream ∧ (skipCommentTokens input).2 = [] ∨
        (skipCommentTokens input).2.length < input.length) :=
  skipComments_split (Nat.lt_succ_self _)

theorem length_skipCommentTokens_le (input : ByteString) :
    (skipCommentTokens input).2.length ≤ input.length := by
  obtain ⟨-, ⟨-, hnil⟩ | hlt⟩ := skipCommentTokens_split input
  · simp [hnil]
  · exact hlt.le

/-- Only the end of the document takes nothing. -/
theorem length_skipCommentTokens_lt (htoken : (skipCommentTokens input).1 ≠ .endOfStream) :
    (skipCommentTokens input).2.length < input.length :=
  (skipCommentTokens_split input).2.resolve_left fun hstream ↦ htoken hstream.1

/-- A token that is no comment is found at once. -/
theorem skipCommentTokens_of_readToken (htoken : readToken input = (token, rest))
    (hcomment : token ≠ .comment) : skipCommentTokens input = (token, rest) := by
  rw [skipCommentTokens, skipComments, htoken, if_neg hcomment]

/-- A separator takes at least one byte. -/
theorem length_readSeparator_lt {separator : Bool × ByteString}
    (hseparator : readSeparator input = some separator) :
    separator.2.length < input.length := by
  have hsplit := (readToken_split input).2
  rw [readSeparator] at hseparator
  split at hseparator
  · rename_i behind htoken
    rw [← Option.some.inj hseparator]
    simpa [htoken] using hsplit
  · rename_i behind htoken
    rw [← Option.some.inj hseparator]
    simpa [htoken] using hsplit
  · rename_i behind htoken
    rw [← Option.some.inj hseparator]
    have hlength : behind.length < input.length := by simpa [htoken] using hsplit
    exact (length_skipCommentTokens_le behind).trans_lt hlength
  · exact absurd hseparator.symm (Option.some_ne_none separator)

/-! ### Fuel -/

/-- What has been read is followed by less than a length, or reading has failed for another reason
than fuel. -/
def Settles (length : ℕ) (result : Except ReaderFault (Value × ByteString)) : Prop :=
  match result with
  | .error fault => fault ≠ .outOfFuel
  | .ok read => read.2.length < length

theorem Settles.mono {length longer : ℕ} {result : Except ReaderFault (Value × ByteString)}
    (hsettles : Settles length result) (hlonger : length ≤ longer) : Settles longer result := by
  cases result with
  | error fault => exact hsettles
  | ok read => exact Nat.lt_of_lt_of_le hsettles hlonger

/-- What goes on after a reading that settles settles. -/
theorem Settles.bind {length longer : ℕ} {result : Except ReaderFault (Value × ByteString)}
    {next : Value × ByteString → Except ReaderFault (Value × ByteString)}
    (hsettles : Settles length result)
    (hnext : ∀ read, read.2.length < length → Settles longer (next read)) :
    Settles longer (result.bind next) := by
  cases result with
  | error fault => exact hsettles
  | ok read => exact hnext read hsettles

variable {readNext : ByteString → Except ReaderFault (Value × ByteString)} {bound : ℕ}

/-- The rounds of `readObject` after the name of a member. -/
theorem readObject_settles
    (hreadNext : ∀ input, input.length < bound → Settles input.length (readNext input))
    {rounds : ℕ} {name : ByteString} {members : List (ByteString × Value)} {input : ByteString}
    (hrounds : input.length < rounds) (hbound : input.length ≤ bound) :
    Settles input.length (readObject readNext rounds name members input) := by
  induction rounds generalizing name members input with
  | zero => exact absurd hrounds (Nat.not_lt_zero _)
  | succ rounds ih =>
    rw [readObject]
    split
    · rename_i hend
      exact length_skipCommentTokens_lt (by simp [hend.1])
    · cases hname : memberName (skipCommentTokens input).1 with
      | none => exact ReaderFault.noConfusion
      | some name =>
        have hfirst : (skipCommentTokens input).2.length < input.length :=
          length_skipCommentTokens_lt fun hstream ↦ by simp [hstream, memberName] at hname
        show Settles input.length (match readToken (skipCommentTokens input).2 with
          | (.memberSeparator, rest) => _
          | _ => .error .syntaxError)
        split
        · rename_i rest hcolon
          have hsecond : rest.length < (skipCommentTokens input).2.length := by
            simpa [hcolon] using (readToken_split (skipCommentTokens input).2).2
          refine (hreadNext rest (by omega)).bind fun read hread ↦ ?_
          cases hseparator : readSeparator read.2 with
          | none => exact ReaderFault.noConfusion
          | some separator =>
            obtain ⟨ends, behind⟩ := separator
            have hlast : behind.length < read.2.length := length_readSeparator_lt hseparator
            cases ends with
            | true => exact show behind.length < input.length by omega
            | false =>
              exact (ih (show behind.length < rounds by omega) (by omega)).mono
                (show behind.length ≤ input.length by omega)
        · exact ReaderFault.noConfusion

theorem readArray_settles
    (hreadNext : ∀ input, input.length < bound → Settles input.length (readNext input))
    {rounds : ℕ} {items : List Value} {input : ByteString}
    (hrounds : input.length < rounds) (hbound : input.length < bound) :
    Settles input.length (readArray readNext rounds items input) := by
  induction rounds generalizing items input with
  | zero => exact absurd hrounds (Nat.not_lt_zero _)
  | succ rounds ih =>
    rw [readArray]
    refine (hreadNext input hbound).bind fun read hread ↦ ?_
    have hlength := length_skipCommentTokens_le read.2
    split
    · exact hlength.trans_lt hread
    · exact (ih (by omega) (by omega)).mono (by omega)

theorem decodeDouble_ne_outOfFuel (text : ByteString) : decodeDouble text ≠ .error .outOfFuel := by
  rw [decodeDouble]
  split
  · simp
  · split <;> simp

theorem readDigits_ne_outOfFuel (threshold value : ℕ) (text : ByteString) :
    readDigits threshold value text ≠ .error .outOfFuel := by
  induction text generalizing value with
  | nil => simp [readDigits]
  | cons byte rest ih =>
    rw [readDigits]
    split_ifs
    · simp
    · exact ih _
    · simp

/-- A number of digits is kept or read as a double. -/
theorem readDigits_bind_ne_outOfFuel (threshold : ℕ) (digits text : ByteString) (keep : ℕ → Value) :
    ((readDigits threshold 0 digits).bind fun
      | none => decodeDouble text
      | some value => .ok (keep value)) ≠ .error .outOfFuel := by
  cases hread : readDigits threshold 0 digits with
  | error fault =>
    intro hfault
    have hequal : fault = .outOfFuel := Except.error.inj hfault
    exact readDigits_ne_outOfFuel threshold 0 digits (hread.trans (congrArg _ hequal))
  | ok value =>
    cases value with
    | none => exact decodeDouble_ne_outOfFuel text
    | some value => simp [Except.bind]

theorem decodeNumber_ne_outOfFuel (text : ByteString) : decodeNumber text ≠ .error .outOfFuel := by
  rw [decodeNumber]
  split_ifs
  · exact decodeDouble_ne_outOfFuel text
  · exact readDigits_bind_ne_outOfFuel _ _ _ fun value ↦ .int (-value)
  · exact readDigits_bind_ne_outOfFuel _ _ _ fun value ↦
      if (value : ℤ) ≤ maxInt then .int value else .uint value

/-- Fuel beyond the length of the document is enough. -/
theorem readValue_settles {fuel : ℕ} {input : ByteString} (hfuel : input.length < fuel) :
    Settles input.length (readValue fuel input) := by
  induction fuel generalizing input with
  | zero => exact absurd hfuel (Nat.not_lt_zero _)
  | succ fuel ih =>
    have htaken : ∀ {token rest}, skipCommentTokens input = (token, rest) →
        token ≠ .endOfStream → rest.length < input.length := by
      intro token rest htoken hstream
      have hlength := @length_skipCommentTokens_lt input (by simpa [htoken] using hstream)
      simpa [htoken] using hlength
    have hnext : ∀ behind : ByteString, behind.length < fuel →
        Settles behind.length (readValue fuel behind) := fun _ hbehind ↦ ih hbehind
    rw [readValue]
    split
    · rename_i rest htoken
      have hrest := htaken htoken Token.noConfusion
      exact (readObject_settles hnext (Nat.lt_succ_self _) (by omega)).mono hrest.le
    · rename_i rest htoken
      have hrest := htaken htoken Token.noConfusion
      split
      · have hskipped : (skipSpaces rest).tail.length ≤ rest.length :=
          ((List.tail_suffix _).trans (List.dropWhile_suffix _)).length_le
        exact hskipped.trans_lt hrest
      · exact (readArray_settles hnext (Nat.lt_succ_self _) (by omega)).mono hrest.le
    · rename_i text rest htoken
      have hrest := htaken htoken Token.noConfusion
      cases hnumber : decodeNumber text with
      | error fault =>
        intro hfault
        exact decodeNumber_ne_outOfFuel text (hnumber.trans (congrArg _ hfault))
      | ok value => exact hrest
    · rename_i text rest htoken
      have hrest := htaken htoken Token.noConfusion
      split
      · exact ReaderFault.noConfusion
      · exact hrest
    · rename_i rest htoken
      exact htaken htoken Token.noConfusion
    · rename_i rest htoken
      exact htaken htoken Token.noConfusion
    · rename_i rest htoken
      exact htaken htoken Token.noConfusion
    · exact ReaderFault.noConfusion

/-- The document is never read in vain for want of fuel. -/
theorem parse_ne_outOfFuel (document : ByteString) : parse document ≠ .error .outOfFuel := by
  have hsettles := @readValue_settles (document.length + 1) document (Nat.lt_succ_self _)
  rw [parse]
  cases hread : readValue (document.length + 1) document with
  | error fault =>
    rw [hread] at hsettles
    exact fun hfuel ↦ hsettles (Except.error.inj hfuel)
  | ok read => simp [Except.map]

end RocketMQClient.Protocol
