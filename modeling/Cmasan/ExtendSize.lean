/-
# `__asan_extendSize` on all words

Multiplying, rounding up and adding the redzone and the granule can each wrap.
The function compares its sum with the product once, at the end, which finds a
wrap of the sum but none of the product: the request is extended as its low 64
bits are. So a request whose product wraps is asked for
with fewer units than it has, but where the sum wraps too
(`size_le_extendSize_iff`).

Key theorems: `rzSize_large`, `size_le_extendSize_iff`.
-/
import Cmasan.Config

namespace Cmasan

theorem rzSize_large (o : RzOptions) {size : ℕ} (h : (1 <<< 16) - 1024 < size) :
    rzLog2Size (computeRzLog o size) = o.maxRedzone := by
  have hmin := o.min_ge
  have hmax := o.max_ge
  have hle := o.max_le
  obtain ⟨k, hk⟩ := o.max_pow
  have hk4 : 4 ≤ k := (Nat.pow_le_pow_iff_right (by decide : 1 < 2)).mp (by omega)
  have hk11 : k ≤ 11 := (Nat.pow_le_pow_iff_right (by decide : 1 < 2)).mp (by omega)
  have hmaxLog : rzSize2Log o.maxRedzone = k - 4 := by
    unfold rzSize2Log
    rw [hk, Nat.log2_two_pow]
  have hhdr : rzSize2Log sizeofChunkHeader = 0 := by decide
  have hlog : computeRzLog o size = k - 4 := by
    unfold computeRzLog
    simp only [hhdr, hmaxLog, Nat.shiftLeft_eq] at h ⊢
    rw [if_neg (by omega), if_neg (by omega), if_neg (by omega), if_neg (by omega), if_neg (by omega),
      if_neg (by omega), if_neg (by omega)]
    omega
  rw [hlog, hk]
  unfold rzLog2Size
  interval_cases k <;> rfl

theorem maxRedzone_mod (o : RzOptions) : o.maxRedzone % 8 = 0 := by
  rw [← rzSize_large o (by decide : (1 <<< 16) - 1024 < 1 <<< 16)]
  exact (rzSize_bounds o _).2.2

theorem extendedBytes_overflow_iff (o : RzOptions) {r : ℕ} :
    2 ^ 64 ≤ extendedBytes o r ↔ 2 ^ 64 ≤ r + o.maxRedzone + 15 := by
  have hb := extendedBytes_bounds o r
  have hmax := o.max_le
  by_cases hr : r ≤ (1 <<< 16) - 1024
  · have : (1 <<< 16) - 1024 = 64512 := by decide
    omega
  · have h8 := maxRedzone_mod o
    have hlarge : rzLog2Size (computeRzLog o ((r + 7) / 8 * 8)) = o.maxRedzone :=
      rzSize_large o (by omega)
    unfold extendedBytes
    omega

/-- **When the program gets what it requested**: `__asan_extendSize` asks for
at least `size` units exactly if the call is inside an allocator, the product
does not wrap, or its low 64 bits are so close to the end that the sum wraps too. -/
theorem size_le_extendSize_iff (o : RzOptions) (size granularity : ℕ) (isInCma : Bool) :
    size ≤ extendSize o size granularity isInCma ↔
      isInCma = true ∨ size * granularity < 2 ^ 64 ∨
        2 ^ 64 ≤ size * granularity % 2 ^ 64 + o.maxRedzone + 15 := by
  cases isInCma with
  | true =>
    refine iff_of_true ?_ (.inl rfl)
    unfold extendSize
    rw [if_pos (.inl rfl)]
  | false =>
    by_cases hlt : size * granularity < 2 ^ 64
    · exact iff_of_true (le_extendSize o hlt) (.inr (.inl hlt))
    · have hs : size ≠ 0 := by
        rintro rfl
        simp at hlt
      have hg : granularity ≠ 0 := by
        rintro rfl
        simp at hlt
      have hover := extendedBytes_overflow_iff o (r := umul size granularity)
      rw [extendSize_eq_ite o hs hg]
      unfold umul at hover ⊢
      rw [← hover]
      split
      · rename_i hext
        rw [Nat.le_div_iff_mul_le (Nat.pos_of_ne_zero hg)]
        simp only [Bool.false_eq_true, false_or]
        omega
      · rename_i hext
        simp only [le_refl, Bool.false_eq_true, false_or, true_iff]
        exact .inr (by omega)

/-- A request for `2 ^ 63` units of 2 bytes becomes one for 12 units. -/
theorem extendSize_product_wraps :
    extendSize .default (2 ^ 63) 2 false = 12 ∧ ¬ 2 ^ 63 ≤ extendSize .default (2 ^ 63) 2 false := by
  decide +kernel

end Cmasan
