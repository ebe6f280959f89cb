import Mathlib.Data.Int.Log
import Mathlib.Data.Rat.Floor
import Mathlib.Tactic.Positivity

/-!
# Double-precision numbers

The finite values of the binary format with 53 significant bits, as rational numbers, and the two
infinities. `ofRational` rounds a number to the nearest value, and to the one with an even
significand if two are nearest. An integer of the size of a machine word is a value of the format
exactly when it has at most 53 significant bits (`ofRational_intCast_iff`).
-/

set_option autoImplicit false
set_option relaxedAutoImplicit false

namespace RocketMQClient.Library

/-- A value of the format; there are no invalid numbers and one zero. -/
inductive Double where
  | finite (value : ℚ)
  | infinite (negative : Bool)
  deriving DecidableEq

/-- The nearest integer, and the even one of two nearest. -/
def roundHalfEven (value : ℚ) : ℤ :=
  if value - ⌊value⌋ < 1 / 2 then ⌊value⌋
  else if 1 / 2 < value - ⌊value⌋ then ⌊value⌋ + 1
  else if ⌊value⌋ % 2 = 0 then ⌊value⌋
  else ⌊value⌋ + 1

/-- The exponent of the last of the 53 bits of a number, which is not below the one of the least
positive value. -/
def lastBit (value : ℚ) : ℤ := max (Int.log 2 |value| - 52) (-1074)

/-- The value of the format that a number is rounded to. -/
def Double.ofRational (value : ℚ) : Double :=
  let rounded : ℚ := roundHalfEven (value / 2 ^ lastBit value) * 2 ^ lastBit value
  if 2 ^ 1024 ≤ |rounded| then .infinite (decide (value < 0)) else .finite rounded

/-- An integer without a bit of weight one below its 53 highest bits. -/
def HasSignificand (value : ℤ) : Prop := (2 : ℤ) ^ (Nat.log 2 value.natAbs - 52) ∣ value

instance (value : ℤ) : Decidable (HasSignificand value) :=
  inferInstanceAs (Decidable (_ ∣ _))

/-! ### Integers -/

@[simp] theorem roundHalfEven_intCast (value : ℤ) : roundHalfEven value = value := by
  simp [roundHalfEven]

/-- A number that is a whole multiple of its last bit is not changed. -/
theorem Double.ofRational_of_multiple {value : ℚ} {multiple : ℤ} (hbound : |value| < 2 ^ 1024)
    (hmultiple : value = multiple * 2 ^ lastBit value) : ofRational value = .finite value := by
  have hpower : (2 : ℚ) ^ lastBit value ≠ 0 := zpow_ne_zero _ two_ne_zero
  have hquotient : value / 2 ^ lastBit value = multiple := by
    rw [div_eq_iff hpower]
    exact hmultiple
  simp only [ofRational, hquotient, roundHalfEven_intCast, ← hmultiple]
  exact if_neg (not_le.mpr hbound)

/-- A number that is not changed is a whole multiple of its last bit. -/
theorem Double.multiple_of_ofRational {value : ℚ} (hvalue : ofRational value = .finite value) :
    ∃ multiple : ℤ, value = multiple * 2 ^ lastBit value := by
  simp only [ofRational] at hvalue
  split at hvalue
  · exact absurd hvalue (by simp)
  · exact ⟨_, (Double.finite.inj hvalue).symm⟩

/-- The last bit of an integer. -/
theorem lastBit_intCast (value : ℤ) :
    lastBit value = (Nat.log 2 value.natAbs : ℤ) - 52 := by
  have habs : |(value : ℚ)| = (value.natAbs : ℚ) := by
    rw [← Int.cast_abs, Int.abs_eq_natAbs, Int.cast_natCast]
  rw [lastBit, habs, Int.log_natCast]
  omega

/-- Integers of at most 1023 bits are not changed exactly when they have at most 53 significant
bits. -/
theorem Double.ofRational_intCast_iff {value : ℤ} (hbound : |(value : ℚ)| < 2 ^ 1024) :
    ofRational value = .finite value ↔ HasSignificand value := by
  have hlast := lastBit_intCast value
  constructor
  · intro hvalue
    obtain ⟨multiple, hmultiple⟩ := multiple_of_ofRational hvalue
    by_cases hlow : Nat.log 2 value.natAbs ≤ 52
    · rw [HasSignificand, Nat.sub_eq_zero_of_le hlow]
      exact one_dvd value
    · have hexponent : lastBit value = ((Nat.log 2 value.natAbs - 52 : ℕ) : ℤ) := by omega
      rw [hexponent, zpow_natCast] at hmultiple
      exact ⟨multiple, by rw [mul_comm]; exact_mod_cast hmultiple⟩
  · rintro ⟨multiple, hmultiple⟩
    by_cases hlow : Nat.log 2 value.natAbs ≤ 52
    · refine @ofRational_of_multiple _ (value * 2 ^ (52 - Nat.log 2 value.natAbs)) hbound ?_
      have hexponent : lastBit value = -((52 - Nat.log 2 value.natAbs : ℕ) : ℤ) := by omega
      rw [hexponent, zpow_neg, zpow_natCast]
      push_cast
      rw [mul_assoc, mul_inv_cancel₀ (by positivity), mul_one]
    · refine @ofRational_of_multiple _ multiple hbound ?_
      have hexponent : lastBit value = ((Nat.log 2 value.natAbs - 52 : ℕ) : ℤ) := by omega
      rw [hexponent, zpow_natCast, mul_comm]
      exact_mod_cast hmultiple

end RocketMQClient.Library
