import Mathlib.Data.Fin.Basic
import Mathlib.Data.List.Lex
import Mathlib.Data.List.TakeWhile
import Mathlib.Order.Fin.Basic

/-!
# Byte strings

Strings of the program are sequences of bytes, ordered lexicographically with bytes compared as
unsigned numbers. `strcmp` is the comparison of the C library, which reads both strings up to
their first zero byte; on strings without a zero byte it is the comparison of the whole strings
(`strcmp_neg_iff`, `strcmp_eq_zero_iff`).
-/

set_option autoImplicit false
set_option relaxedAutoImplicit false

namespace RocketMQClient.Library

/-- A byte. -/
abbrev Byte := Fin 256

/-- A string of bytes. -/
abbrev ByteString := List Byte

instance neZeroByte : @NeZero ℕ Zero.ofOfNat0 256 := ⟨by decide⟩

instance lawfulBEqByteString : LawfulBEq ByteString := inferInstance

/-- The bytes of an ASCII text. -/
def ofString (text : String) : ByteString :=
  text.toList.map fun character ↦ Fin.ofNat 256 character.toNat

/-- The part of a string that a C function reads: the bytes before the first zero byte. -/
def cString (string : ByteString) : ByteString :=
  string.takeWhile fun byte ↦ byte ≠ 0

/-- The sign of the comparison of two strings as the C library reads them. -/
def strcmp (first second : ByteString) : ℤ :=
  if cString first < cString second then -1
  else if cString second < cString first then 1
  else 0

/-- A string without a zero byte is read whole. -/
theorem cString_eq_self {string : ByteString} (hzero : 0 ∉ string) : cString string = string :=
  List.takeWhile_eq_self_iff.mpr fun byte hbyte ↦ by
    simpa using fun heq : byte = 0 ↦ hzero (heq ▸ hbyte)

/-- A zero byte ends what is read. -/
theorem cString_append_of_mem {first : ByteString} (hzero : 0 ∈ first) (second : ByteString) :
    cString (first ++ second) = cString first := by
  induction first with
  | nil => exact absurd hzero List.not_mem_nil
  | cons byte first ih =>
    by_cases hbyte : byte = 0
    · simp [cString, hbyte]
    · have htail := ih ((List.mem_cons.mp hzero).resolve_left (Ne.symm hbyte))
      simpa [cString, hbyte] using htail

/-- What follows bytes other than zero is read as well. -/
theorem cString_append_of_not_mem {first : ByteString} (hzero : 0 ∉ first) (second : ByteString) :
    cString (first ++ second) = first ++ cString second :=
  List.takeWhile_append_of_pos fun byte hbyte ↦ by
    simpa using fun heq : byte = 0 ↦ hzero (heq ▸ hbyte)

/-- There is no zero byte in what is read. -/
theorem zero_not_mem_cString (string : ByteString) : 0 ∉ cString string := fun hmem ↦ by
  simpa using List.mem_takeWhile_imp hmem

theorem cString_subset {string : ByteString} : cString string ⊆ string :=
  (List.takeWhile_prefix _).subset

theorem strcmp_self (string : ByteString) : strcmp string string = 0 := by
  simp [strcmp]

/-- Exchanging the strings exchanges the sign. -/
theorem strcmp_swap (first second : ByteString) : strcmp second first = -strcmp first second := by
  unfold strcmp
  split_ifs with habove hbelow
  · exact absurd habove hbelow.not_gt
  · rfl
  · rfl
  · rfl

theorem strcmp_neg_iff {first second : ByteString} (hfirst : 0 ∉ first) (hsecond : 0 ∉ second) :
    strcmp first second < 0 ↔ first < second := by
  rw [strcmp, cString_eq_self hfirst, cString_eq_self hsecond]
  split_ifs with hbelow habove
  · simpa using hbelow
  · simpa using hbelow
  · simpa using hbelow

theorem strcmp_eq_zero_iff {first second : ByteString} (hfirst : 0 ∉ first)
    (hsecond : 0 ∉ second) : strcmp first second = 0 ↔ first = second := by
  rw [strcmp, cString_eq_self hfirst, cString_eq_self hsecond]
  split_ifs with hbelow habove
  · simpa using hbelow.ne
  · simpa using habove.ne'
  · simpa using le_antisymm (not_lt.mp habove) (not_lt.mp hbelow)

end RocketMQClient.Library
