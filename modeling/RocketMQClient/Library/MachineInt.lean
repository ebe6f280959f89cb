import Mathlib.Data.Int.Order.Basic

/-!
# Machine integers

Arithmetic of the program on 32-bit integers. `toInt32` is the signed value of an integer modulo
`2 ^ 32`; on the values of that type it is the identity.
-/

set_option autoImplicit false
set_option relaxedAutoImplicit false

namespace RocketMQClient.Library

/-- The signed 32-bit value of an integer. -/
def toInt32 (value : ℤ) : ℤ := Int.bmod value 4294967296

/-- Values of the signed 32-bit type are not changed. -/
theorem toInt32_eq_self {value : ℤ} (hlower : -2147483648 ≤ value) (hupper : value ≤ 2147483647) :
    toInt32 value = value := by
  apply Int.bmod_eq_of_le <;> omega

/-- The signed value keeps the remainder. -/
theorem toInt32_emod (value : ℤ) : toInt32 value % 4294967296 = value % 4294967296 :=
  Int.bmod_emod

/-- The signed value depends on the remainder only. -/
theorem toInt32_congr {first second : ℤ}
    (hremainder : first % 4294967296 = second % 4294967296) : toInt32 first = toInt32 second := by
  have hmodulus : ((4294967296 : ℕ) : ℤ) = 4294967296 := rfl
  rw [toInt32, toInt32, Int.bmod_def, Int.bmod_def, hmodulus, hremainder]

/-- The signed value lies in the 32-bit range. -/
theorem toInt32_range (value : ℤ) :
    -2147483648 ≤ toInt32 value ∧ toInt32 value ≤ 2147483647 := by
  have hlower := Int.le_bmod (x := value) (m := 4294967296) (by decide)
  have hupper := Int.bmod_lt (x := value) (m := 4294967296) (by decide)
  unfold toInt32
  omega

/-- The signed value of a number from zero on is not larger. -/
theorem toInt32_le_self {value : ℤ} (hvalue : 0 ≤ value) : toInt32 value ≤ value := by
  have hbmod := Int.bmod_def value 4294967296
  unfold toInt32
  split_ifs at hbmod <;> omega

/-- The signed 64-bit value of an integer. -/
def toInt64 (value : ℤ) : ℤ := Int.bmod value 18446744073709551616

/-- Values of the signed 64-bit type are not changed. -/
theorem toInt64_eq_self {value : ℤ} (hlower : -9223372036854775808 ≤ value)
    (hupper : value ≤ 9223372036854775807) : toInt64 value = value := by
  apply Int.bmod_eq_of_le <;> omega

end RocketMQClient.Library
