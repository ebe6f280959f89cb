import Mathlib.Data.List.Induction
import RocketMQClient.Library.ByteOrder

/-!
# Hexadecimal text

`hexText` is the text that `sprintf` writes for bytes with the format `%02X`, and `strtoull` the
conversion of the C library for base 16: leading blanks, a sign and a mark `0x` are accepted, the
digits that follow are read as far as they go, and a value that does not fit is replaced by the
largest one. `strtoull_hexText` reads the text of at most eight bytes as their big-endian value.
-/

set_option autoImplicit false
set_option relaxedAutoImplicit false

namespace RocketMQClient.Library

/-- The character of a hexadecimal digit. -/
def hexDigit (digit : ℕ) : Byte :=
  if digit < 10 then Fin.ofNat 256 (48 + digit) else Fin.ofNat 256 (55 + digit)

/-- `sprintf` with `%02X`. -/
def formatHex (byte : Byte) : ByteString := [hexDigit (byte.val / 16), hexDigit (byte.val % 16)]

/-- The text of bytes, two digits for each. -/
def hexText (bytes : ByteString) : ByteString := bytes.flatMap formatHex

/-- The value of a hexadecimal digit, of either case. -/
def hexDigitValue (character : Byte) : Option ℕ :=
  if 48 ≤ character.val ∧ character.val ≤ 57 then some (character.val - 48)
  else if 65 ≤ character.val ∧ character.val ≤ 70 then some (character.val - 55)
  else if 97 ≤ character.val ∧ character.val ≤ 102 then some (character.val - 87)
  else none

/-- The digits that a text starts with. -/
def leadingDigits : ByteString → List ℕ
  | [] => []
  | character :: rest =>
    match hexDigitValue character with
    | none => []
    | some digit => digit :: leadingDigits rest

/-- The number of a sequence of digits. -/
def ofHexDigits (digits : List ℕ) : ℕ := digits.foldl (fun value digit ↦ 16 * value + digit) 0

/-- The text behind the blanks that it starts with. -/
def skipSpaces (text : ByteString) : ByteString :=
  text.dropWhile fun character ↦ character.val = 32 ∨ (9 ≤ character.val ∧ character.val ≤ 13)

/-- The text behind a sign, and whether the sign is a minus. -/
def readSign : ByteString → Bool × ByteString
  | [] => (false, [])
  | character :: rest =>
    if character.val = 45 then (true, rest)
    else if character.val = 43 then (false, rest)
    else (false, character :: rest)

/-- The text behind a mark `0x` that a digit follows. -/
def skipHexMark : ByteString → ByteString
  | zero :: mark :: rest =>
    if zero.val = 48 ∧ (mark.val = 120 ∨ mark.val = 88) ∧ leadingDigits rest ≠ [] then rest
    else zero :: mark :: rest
  | text => text

/-- `strtoull` for base 16, on a C string. -/
def strtoull (text : ByteString) : ℕ :=
  let signed := readSign (skipSpaces (cString text))
  let value := ofHexDigits (leadingDigits (skipHexMark signed.2))
  if value > 18446744073709551615 then 18446744073709551615
  else if signed.1 then (18446744073709551616 - value) % 18446744073709551616
  else value

/-! ### The text of bytes -/

theorem hexDigitValue_hexDigit : ∀ digit < 16, hexDigitValue (hexDigit digit) = some digit := by
  decide

/-- A digit is no zero byte, no blank, no sign and no letter of a mark. -/
theorem hexDigit_plain : ∀ digit < 16, hexDigit digit ≠ 0 ∧
    ¬ ((hexDigit digit).val = 32 ∨ (9 ≤ (hexDigit digit).val ∧ (hexDigit digit).val ≤ 13)) ∧
    (hexDigit digit).val ≠ 45 ∧ (hexDigit digit).val ≠ 43 ∧
    ¬ ((hexDigit digit).val = 120 ∨ (hexDigit digit).val = 88) := by
  decide

theorem hexText_cons (byte : Byte) (rest : ByteString) :
    hexText (byte :: rest) =
      hexDigit (byte.val / 16) :: hexDigit (byte.val % 16) :: hexText rest := by
  rw [hexText, List.flatMap_cons, formatHex, ← hexText, List.cons_append, List.singleton_append]

theorem high_lt (byte : Byte) : byte.val / 16 < 16 := by
  have := byte.isLt
  omega

theorem low_lt (byte : Byte) : byte.val % 16 < 16 := Nat.mod_lt _ (by decide)

@[simp] theorem length_hexText (bytes : ByteString) :
    (hexText bytes).length = 2 * bytes.length := by
  induction bytes with
  | nil => rfl
  | cons byte rest ih =>
    rw [hexText_cons, List.length_cons, List.length_cons, ih, List.length_cons]
    omega

theorem hexText_append (first second : ByteString) :
    hexText (first ++ second) = hexText first ++ hexText second :=
  List.flatMap_append

theorem zero_notMem_hexText (bytes : ByteString) : 0 ∉ hexText bytes := by
  induction bytes with
  | nil => exact List.not_mem_nil
  | cons byte rest ih =>
    rw [hexText_cons, List.mem_cons, List.mem_cons, not_or, not_or]
    exact ⟨(hexDigit_plain _ (high_lt byte)).1.symm, (hexDigit_plain _ (low_lt byte)).1.symm, ih⟩

/-- The two digits of every byte, in order. -/
theorem leadingDigits_hexText (bytes : ByteString) :
    leadingDigits (hexText bytes) = bytes.flatMap fun byte ↦ [byte.val / 16, byte.val % 16] := by
  induction bytes with
  | nil => rfl
  | cons byte rest ih =>
    rw [hexText_cons, leadingDigits, hexDigitValue_hexDigit _ (high_lt byte)]
    dsimp only
    rw [leadingDigits, hexDigitValue_hexDigit _ (low_lt byte)]
    dsimp only
    rw [ih, List.flatMap_cons, List.cons_append, List.singleton_append]

/-- The number of the digits of bytes is their big-endian value. -/
theorem ofHexDigits_bytes (bytes : ByteString) :
    ofHexDigits (bytes.flatMap fun byte ↦ [byte.val / 16, byte.val % 16]) = ofBigEndian bytes := by
  induction bytes using List.reverseRecOn with
  | nil => rfl
  | append_singleton bytes byte ih =>
    rw [ofBigEndian_append_singleton, ← ih, List.flatMap_append, ofHexDigits, List.foldl_append]
    show 16 * (16 * ofHexDigits _ + byte.val / 16) + byte.val % 16 = _
    omega

/-- The text of bytes starts with a digit: nothing is skipped before the digits are read. -/
theorem strtoull_hexText {bytes : ByteString} (hlength : bytes.length ≤ 8) :
    strtoull (hexText bytes) = ofBigEndian bytes := by
  have hplain : readSign (skipSpaces (hexText bytes)) = (false, hexText bytes) ∧
      skipHexMark (hexText bytes) = hexText bytes := by
    cases bytes with
    | nil => exact ⟨rfl, rfl⟩
    | cons byte rest =>
      obtain ⟨-, hblank, hminus, hplus, -⟩ := hexDigit_plain _ (high_lt byte)
      obtain ⟨-, -, -, -, hmark⟩ := hexDigit_plain _ (low_lt byte)
      rw [hexText_cons]
      constructor
      · rw [skipSpaces, List.dropWhile_cons_of_neg (by simpa using hblank), readSign,
          if_neg hminus, if_neg hplus]
      · rw [skipHexMark, if_neg fun hall ↦ hmark hall.2.1]
  have hvalue : ofBigEndian bytes < 18446744073709551616 := by
    have hlt := @ofBigEndian_lt bytes bytes.length rfl
    have hpow : 256 ^ bytes.length ≤ 256 ^ 8 := Nat.pow_le_pow_right (by decide) hlength
    exact lt_of_lt_of_le hlt hpow
  unfold strtoull
  rw [cString_eq_self (zero_notMem_hexText bytes), hplain.1]
  dsimp only
  rw [hplain.2, leadingDigits_hexText, ofHexDigits_bytes, if_neg (by omega), if_neg (by decide)]

end RocketMQClient.Library
