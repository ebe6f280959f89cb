import Mathlib.Algebra.Group.Nat.Defs
import RocketMQClient.Library.ByteString

/-!
# Decimal text

`decimal` is the text that a stream writes for an integer: a minus sign for a negative one and its
decimal digits, without zeros in front. `ofDecimalDigits` is the number of a text of digits, and
`decimal_induction` goes from the digits of `number / 10` to those of `number`.
-/

set_option autoImplicit false
set_option relaxedAutoImplicit false

namespace RocketMQClient.Library

/-- Whether a byte is a decimal digit. -/
def isDigit (byte : Byte) : Bool := decide (48 ≤ byte.val ∧ byte.val ≤ 57)

/-- The character of a digit. -/
def decimalDigit (digit : ℕ) : Byte := Fin.ofNat 256 (48 + digit)

/-- The digits of a number, if there is enough fuel for them. -/
def digitsWithFuel : ℕ → ℕ → ByteString
  | 0, _ => []
  | fuel + 1, number =>
    if number < 10 then [decimalDigit number]
    else digitsWithFuel fuel (number / 10) ++ [decimalDigit (number % 10)]

/-- The digits of a number. -/
def decimalDigits (number : ℕ) : ByteString := digitsWithFuel (number + 1) number

/-- The text of an integer. -/
def decimal (value : ℤ) : ByteString :=
  if value < 0 then 45 :: decimalDigits value.natAbs else decimalDigits value.natAbs

/-- The number of a text of digits behind a number. -/
def ofDecimalDigits (number : ℕ) (digits : ByteString) : ℕ :=
  digits.foldl (fun value byte ↦ 10 * value + (byte.val - 48)) number

/-! ### Digits -/

theorem decimalDigit_val {digit : ℕ} (hdigit : digit < 10) :
    (decimalDigit digit).val = 48 + digit := by
  rw [decimalDigit, Fin.val_ofNat]
  omega

theorem isDigit_decimalDigit {digit : ℕ} (hdigit : digit < 10) :
    isDigit (decimalDigit digit) = true := by
  rw [isDigit, decimalDigit_val hdigit]
  exact decide_eq_true (by omega)

/-- More fuel does not change the digits. -/
theorem digitsWithFuel_eq {fuel number : ℕ} (hfuel : number < fuel) :
    digitsWithFuel fuel number = decimalDigits number := by
  induction fuel using Nat.strong_induction_on generalizing number with
  | _ fuel ih =>
    rw [decimalDigits]
    obtain ⟨fuel, rfl⟩ : ∃ smaller, fuel = smaller + 1 := ⟨fuel - 1, by omega⟩
    rw [digitsWithFuel, digitsWithFuel]
    by_cases hsmall : number < 10
    · rw [if_pos hsmall, if_pos hsmall]
    · rw [if_neg hsmall, if_neg hsmall, ih fuel (by omega) (by omega)]
      by_cases hequal : fuel = number
      · rw [← hequal, ih fuel (by omega) (by omega)]
      · rw [ih number (by omega) (by omega)]

theorem decimalDigits_of_lt {number : ℕ} (hsmall : number < 10) :
    decimalDigits number = [decimalDigit number] := by
  rw [decimalDigits, digitsWithFuel, if_pos hsmall]

theorem decimalDigits_of_le {number : ℕ} (hlarge : 10 ≤ number) :
    decimalDigits number = decimalDigits (number / 10) ++ [decimalDigit (number % 10)] := by
  rw [decimalDigits, digitsWithFuel, if_neg (by omega), digitsWithFuel_eq (by omega)]

/-- What holds of the digits of a number below ten, and goes from a number to one with a digit more,
holds of the digits of every number. -/
theorem decimal_induction {motive : ℕ → ByteString → Prop}
    (hsmall : ∀ digit < 10, motive digit [decimalDigit digit])
    (hmore : ∀ number digit digits, 0 < number → digit < 10 → motive number digits →
      motive (10 * number + digit) (digits ++ [decimalDigit digit])) (number : ℕ) :
    motive number (decimalDigits number) := by
  induction number using Nat.strong_induction_on with
  | _ number ih =>
    by_cases hlt : number < 10
    · rw [decimalDigits_of_lt hlt]
      exact hsmall number hlt
    · rw [decimalDigits_of_le (by omega)]
      have hnumber : 10 * (number / 10) + number % 10 = number := Nat.div_add_mod number 10
      have hproperty := hmore (number / 10) (number % 10) _ (by omega) (by omega)
        (ih (number / 10) (by omega))
      rwa [hnumber] at hproperty

theorem isDigit_of_mem_decimalDigits {number : ℕ} :
    ∀ byte ∈ decimalDigits number, isDigit byte = true := by
  refine decimal_induction (motive := fun _ digits ↦ ∀ byte ∈ digits, isDigit byte = true)
    ?_ ?_ number
  · intro digit hdigit byte hbyte
    rw [List.mem_singleton.mp hbyte]
    exact isDigit_decimalDigit hdigit
  · intro number digit digits _ hdigit hdigits byte hbyte
    obtain hbyte | hbyte := List.mem_append.mp hbyte
    · exact hdigits byte hbyte
    · rw [List.mem_singleton.mp hbyte]
      exact isDigit_decimalDigit hdigit

theorem decimalDigits_ne_nil (number : ℕ) : decimalDigits number ≠ [] := by
  refine decimal_induction (motive := fun _ digits ↦ digits ≠ []) ?_ ?_ number
  · intro digit _
    exact List.cons_ne_nil _ _
  · intro number digit digits _ _ _
    exact List.append_ne_nil_of_right_ne_nil _ (List.cons_ne_nil _ _)

/-- A number has no zeros in front, unless it is zero. -/
theorem decimalDigits_leading_zero {number : ℕ} :
    (decimalDigits number).head? = some 48 → decimalDigits number = [48] := by
  have hfirst : ∃ first rest, decimalDigits number = first :: rest ∧ (0 < number → first ≠ 48) := by
    refine decimal_induction (motive := fun number digits ↦
      ∃ first rest, digits = first :: rest ∧ (0 < number → first ≠ 48)) ?_ ?_ number
    · refine fun digit hdigit ↦ ⟨_, _, rfl, fun hpositive hzero ↦ ?_⟩
      have hvalue := congrArg Fin.val hzero
      rw [decimalDigit_val hdigit] at hvalue
      exact absurd hvalue (Nat.ne_of_gt (Nat.lt_add_of_pos_right hpositive))
    · rintro number digit digits hnumber - ⟨first, rest, rfl, hfirst⟩
      exact ⟨first, _, rfl, fun _ ↦ hfirst hnumber⟩
  intro hhead
  rcases Nat.eq_zero_or_pos number with rfl | hnumber
  · rfl
  · obtain ⟨first, rest, hdigits, hne⟩ := hfirst
    rw [hdigits] at hhead
    exact absurd (Option.some.inj hhead) (hne hnumber)

/-- The digits of a number are read back. -/
theorem ofDecimalDigits_decimalDigits (number : ℕ) :
    ofDecimalDigits 0 (decimalDigits number) = number := by
  refine decimal_induction (motive := fun number digits ↦ ofDecimalDigits 0 digits = number)
    ?_ ?_ number
  · intro digit hdigit
    show 10 * 0 + ((decimalDigit digit).val - 48) = digit
    rw [decimalDigit_val hdigit]
    omega
  · intro number digit digits _ hdigit hdigits
    have happend : ofDecimalDigits 0 (digits ++ [decimalDigit digit]) =
        10 * ofDecimalDigits 0 digits + ((decimalDigit digit).val - 48) := List.foldl_append ..
    rw [happend, hdigits]
    rw [decimalDigit_val hdigit, Nat.add_sub_cancel_left]

/-- A number of less than ten to a power has at most so many digits. -/
theorem length_decimalDigits_le {number count : ℕ} (hcount : 0 < count)
    (hnumber : number < 10 ^ count) : (decimalDigits number).length ≤ count := by
  revert count
  refine decimal_induction
    (motive := fun number digits ↦ ∀ {count : ℕ}, 0 < count → number < 10 ^ count →
      digits.length ≤ count) ?_ ?_ number
  · intro digit _ count hcount _
    exact hcount
  · intro number digit digits hpositive _ hdigits count hcount hnumber
    rw [List.length_append, List.length_singleton]
    obtain ⟨count, rfl⟩ : ∃ smaller, count = smaller + 1 := ⟨count - 1, by omega⟩
    rw [Nat.pow_succ] at hnumber
    by_cases hzero : count = 0
    · subst hzero
      omega
    · exact Nat.succ_le_succ (hdigits (by omega) (by omega))

end RocketMQClient.Library
