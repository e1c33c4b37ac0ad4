/-
# An array that is written from the start again when it is full

A `Wrap` is an array with the position of the next write; a push that finds the
position at the capacity `n` goes back to 0. What is before the position is not
the last `n` elements pushed but those since the position last went back
(`sinceWrap`), which are the last `n` only while the array is not full and
whenever it is exactly full (`latest_sinceWrap_iff`).

Key definitions: `Wrap`, `Wrap.push`, `Wrap.before`, `sinceWrap`.
Key theorems: `Wrap.before_push`, `sinceWrap_snoc`, `latest_sinceWrap_iff`.
-/
import Mathlib.Data.List.Nodup
import Mathlib.Logic.Function.Basic

namespace Cmasan
namespace Lib

variable {α β : Type*}

/-- An array and the position of the next write. -/
structure Wrap (α : Type*) where
  cells : ℕ → α
  pos : ℕ

/-- A write at the position, which goes back to 0 at the capacity `n`. -/
def Wrap.push (n : ℕ) (w : Wrap α) (x : α) : Wrap α :=
  let pos := if n ≤ w.pos then 0 else w.pos
  ⟨Function.update w.cells pos x, pos + 1⟩

/-- What is before the position. -/
def Wrap.before (w : Wrap α) : List α := (List.range w.pos).map w.cells

theorem Wrap.length_before (w : Wrap α) : w.before.length = w.pos := by simp [Wrap.before]

theorem map_range_update (cells : ℕ → α) (n : ℕ) (x : α) :
    (List.range (n + 1)).map (Function.update cells n x) = (List.range n).map cells ++ [x] := by
  rw [List.range_succ, List.map_append, List.map_singleton, Function.update_self]
  congr 1
  apply List.map_congr_left
  intro i hi
  have := List.mem_range.mp hi
  exact Function.update_of_ne (by omega) _ _

/-- **A push** appends, or starts over. -/
theorem Wrap.before_push (n : ℕ) (w : Wrap α) (x : α) :
    (w.push n x).before = (if n ≤ w.before.length then [] else w.before) ++ [x] := by
  rw [w.length_before]
  unfold Wrap.push Wrap.before
  rw [map_range_update]
  congr 1
  split
  · rfl
  · rfl

/-- The elements of `xs` since the position last went back. -/
def sinceWrap (n : ℕ) (xs : List α) : List α := xs.drop ((xs.length - 1) / n * n)

theorem sinceWrap_nil (n : ℕ) : sinceWrap n ([] : List α) = [] := by simp [sinceWrap]

theorem sinceWrap_map (n : ℕ) (f : α → β) (xs : List α) : sinceWrap n (xs.map f) = (sinceWrap n xs).map f := by
  simp [sinceWrap, List.map_drop]

/-- **One more push** on what is before the position. -/
theorem sinceWrap_snoc {n : ℕ} (hn : 0 < n) (xs : List α) (x : α) :
    sinceWrap n (xs ++ [x]) = (if n ≤ (sinceWrap n xs).length then [] else sinceWrap n xs) ++ [x] := by
  unfold sinceWrap
  simp only [List.length_append, List.length_cons, List.length_nil, Nat.zero_add, Nat.add_sub_cancel,
    List.length_drop]
  obtain ⟨k, hk⟩ : ∃ k, k = xs.length := ⟨_, rfl⟩
  rw [← hk]
  rcases Nat.eq_zero_or_pos k with h0 | hpos
  · obtain rfl : xs = [] := List.length_eq_zero_iff.mp (hk.symm.trans h0)
    simp [h0]
  · -- `k - 1` pushes before the last one are `q` rounds and `r` more
    obtain ⟨q, r, hr, hq⟩ : ∃ q r, r < n ∧ k - 1 = q * n + r :=
      ⟨(k - 1) / n, (k - 1) % n, Nat.mod_lt _ hn, by rw [Nat.mul_comm]; exact (Nat.div_add_mod _ _).symm⟩
    have hdiv : (k - 1) / n = q := by
      rw [hq, Nat.mul_comm, Nat.mul_add_div hn, Nat.div_eq_of_lt hr, Nat.add_zero]
    rw [hdiv]
    by_cases hfull : r + 1 = n
    · have hkn : k = (q + 1) * n := by
        rw [Nat.succ_mul]
        omega
      have hround : k / n * n = k := Nat.div_mul_cancel ⟨q + 1, by rw [hkn, Nat.mul_comm]⟩
      rw [hround, if_pos (by omega), List.nil_append, hk, List.drop_left]
    · have hsame : k / n = q := by
        rw [show k = n * q + (r + 1) by rw [Nat.mul_comm]; omega, Nat.mul_add_div hn, Nat.div_eq_of_lt (by omega),
          Nat.add_zero]
      rw [hsame, if_neg (by omega), List.drop_append_of_le_length (by omega)]

/-- **Which are reached**: the last `n` elements are all before the position
exactly if they all fit, or fill the array. -/
theorem latest_sinceWrap_iff {n : ℕ} (hn : 0 < n) {xs : List α} (h : xs.Nodup) :
    (∀ x ∈ xs.drop (xs.length - n), x ∈ sinceWrap n xs) ↔ xs.length ≤ n ∨ n ∣ xs.length := by
  obtain ⟨k, hk⟩ : ∃ k, k = xs.length := ⟨_, rfl⟩
  unfold sinceWrap
  rw [← hk]
  constructor
  · intro hall
    by_contra hno
    obtain ⟨hgt, hdvd⟩ := not_or.mp hno
    have hmod : k % n ≠ 0 := fun h0 => hdvd (Nat.dvd_of_mod_eq_zero h0)
    have hkn : (k - 1) / n * n + k % n = k := by
      have hpred : (k - 1) / n = k / n := by
        apply Nat.div_eq_of_lt_le
        · have := Nat.div_add_mod k n
          rw [Nat.mul_comm]
          omega
        · rw [Nat.succ_mul, Nat.mul_comm]
          have := Nat.div_add_mod k n
          have := Nat.mod_lt k hn
          omega
      rw [hpred, Nat.mul_comm]
      exact Nat.div_add_mod k n
    have hlt : k % n < n := Nat.mod_lt k hn
    -- the oldest of the last `n` is from the round before
    have hmem := hall xs[k - n] (List.mem_drop_iff_getElem.mpr ⟨0, by omega, by simp⟩)
    obtain ⟨i, hi, he⟩ := List.mem_drop_iff_getElem.mp hmem
    have := (h.getElem_inj_iff).mp he
    omega
  · rintro (hle | ⟨q, hq⟩) x hx
    · rcases Nat.eq_zero_or_pos k with h0 | hpos
      · obtain rfl : xs = [] := List.length_eq_zero_iff.mp (hk.symm.trans h0)
        simp at hx
      · rw [Nat.div_eq_of_lt (by omega), Nat.zero_mul]
        exact List.mem_of_mem_drop hx
    · rcases Nat.eq_zero_or_pos q with h0 | hpos
      · obtain rfl : xs = [] := List.length_eq_zero_iff.mp (by rw [← hk, hq, h0, Nat.mul_zero])
        simp at hx
      · obtain ⟨m, rfl⟩ : ∃ m, q = m + 1 := ⟨q - 1, by omega⟩
        have hpred : (k - 1) / n = m := by
          rw [hq, Nat.mul_succ, show n * m + n - 1 = n * m + (n - 1) by omega, Nat.mul_add_div hn,
            Nat.div_eq_of_lt (by omega), Nat.add_zero]
        have hdrop : m * n = k - n := by
          rw [hq, Nat.mul_succ, Nat.mul_comm]
          omega
        rwa [hpred, hdrop]

end Lib
end Cmasan
