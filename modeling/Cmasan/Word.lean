/-
# Machine words

`uptr` of the source is a 64-bit word. The model keeps it as a natural number
and writes the wrap of each `+`, `-`, `*` that can wrap (`uadd`, `usub`,
`umul`). `RoundUpTo`, `RoundDownTo` and `IsAligned` are the sanitizer's for a
boundary that is a power of two, where masking is division.

Key theorems: `uadd_eq`, `usub_eq`, `umul_eq`: without a wrap they are the
operations on naturals.
-/
import Mathlib.Tactic.Ring
import Mathlib.Data.Nat.Bitwise

namespace Cmasan

/-- `a + b` on `uptr`. -/
def uadd (a b : ℕ) : ℕ := (a + b) % 2 ^ 64

/-- `a - b` on `uptr`. -/
def usub (a b : ℕ) : ℕ := (a + (2 ^ 64 - b % 2 ^ 64)) % 2 ^ 64

/-- `a * b` on `uptr`. -/
def umul (a b : ℕ) : ℕ := a * b % 2 ^ 64

/-- A value stored into a `u32`. -/
def u32 (a : ℕ) : ℕ := a % 2 ^ 32

/-- `RoundDownTo(x, boundary)`, which is `x & ~(boundary - 1)`. -/
def roundDownTo (x boundary : ℕ) : ℕ := x / boundary * boundary

/-- `RoundUpTo(size, boundary)`, which is `(size + boundary - 1) & ~(boundary - 1)`. -/
def roundUpTo (size boundary : ℕ) : ℕ := uadd size (boundary - 1) / boundary * boundary

/-- `IsAligned(a, alignment)`, which is `(a & (alignment - 1)) == 0`. -/
def isAligned (a alignment : ℕ) : Bool := a % alignment = 0

theorem uadd_eq {a b : ℕ} (h : a + b < 2 ^ 64) : uadd a b = a + b := Nat.mod_eq_of_lt h

theorem umul_eq {a b : ℕ} (h : a * b < 2 ^ 64) : umul a b = a * b := Nat.mod_eq_of_lt h

theorem usub_eq {a b : ℕ} (h : b ≤ a) (ha : a < 2 ^ 64) : usub a b = a - b := by
  unfold usub
  omega

theorem u32_eq {a : ℕ} (h : a < 2 ^ 32) : u32 a = a := Nat.mod_eq_of_lt h

theorem roundDownTo_le (x b : ℕ) : roundDownTo x b ≤ x := Nat.div_mul_le_self x b

/-- Rounding up without a wrap: the least multiple of 8 that is not below. -/
theorem roundUpTo_eight {x : ℕ} (h : x + 7 < 2 ^ 64) : roundUpTo x 8 = (x + 7) / 8 * 8 := by
  unfold roundUpTo
  rw [uadd_eq (by omega)]

end Cmasan
