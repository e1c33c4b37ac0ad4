/-
# Shadow memory

One shadow byte for each 8-byte granule of memory: 0 says that all 8 bytes
are addressable, 1 to 7 that the first so many are, and a value from 128 on
that none is. `FastPoisonShadow` writes the shadow bytes of the granules in
its range; `PoisonShadow` checks the range's alignment first, and writes
nothing but zeros while memory cannot be poisoned. Its other two checks, that
both ends of the range are in memory (`AddrIsInMem`), are left out, so a range
outside is written here where the source stops.

Key definitions: `Shadow`, `poisonShadow`, `addressIsPoisoned`.
Key theorems: `poisonShadow_eq`, `forall_poisoned_iff`.
-/
import Cmasan.Word

namespace Cmasan

/-- The shadow byte of each granule. -/
abbrev Shadow : Type := ℕ → ℕ

/-- `kAsanHeapLeftRedzoneMagic`. -/
def kAsanHeapLeftRedzoneMagic : ℕ := 0xfa

/-- `kAsanHeapFreeMagic`. -/
def kAsanHeapFreeMagic : ℕ := 0xfd

/-- `FastPoisonShadow`. -/
def fastPoisonShadow (s : Shadow) (addr size value : ℕ) : Shadow :=
  fun n => if addr / 8 ≤ n ∧ n < (addr + size) / 8 then value else s n

/-- `PoisonShadow`; `none` is a failed `CHECK` of alignment. The two `CHECK`s of
`AddrIsInMem` are left out. -/
def poisonShadow (canPoisonMemory : Bool) (s : Shadow) (addr size value : ℕ) : Option Shadow :=
  if value ≠ 0 ∧ ¬ canPoisonMemory then some s
  else if isAligned addr 8 ∧ isAligned (uadd addr size) 8 then some (fastPoisonShadow s addr size value)
  else none

/-- `AddressIsPoisoned`: the byte at `a` is not addressable. -/
def addressIsPoisoned (s : Shadow) (a : ℕ) : Bool :=
  s (a / 8) ≠ 0 ∧ (128 ≤ s (a / 8) ∨ s (a / 8) ≤ a % 8)

theorem poisonShadow_eq (canPoisonMemory : Bool) (s : Shadow) {addr size value : ℕ}
    (hv : value ≠ 0 → canPoisonMemory = true) (ha : addr % 8 = 0) (hs : size % 8 = 0)
    (hlt : addr + size < 2 ^ 64) :
    poisonShadow canPoisonMemory s addr size value = some (fastPoisonShadow s addr size value) := by
  unfold poisonShadow
  rw [if_neg (fun h => h.2 (hv h.1)), if_pos]
  unfold isAligned
  rw [uadd_eq hlt]
  constructor <;> simp <;> omega

theorem unpoisonShadow_eq (canPoisonMemory : Bool) (s : Shadow) {addr size : ℕ} (ha : addr % 8 = 0)
    (hs : size % 8 = 0) (hlt : addr + size < 2 ^ 64) :
    poisonShadow canPoisonMemory s addr size 0 = some (fastPoisonShadow s addr size 0) :=
  poisonShadow_eq canPoisonMemory s (fun h => absurd rfl h) ha hs hlt

theorem poisonShadow_returns (canPoisonMemory : Bool) (s : Shadow) {addr size : ℕ} (value : ℕ)
    (ha : addr % 8 = 0) (hs : size % 8 = 0) (hlt : addr + size < 2 ^ 64) :
    ∃ s', poisonShadow canPoisonMemory s addr size value = some s' := by
  by_cases hv : value ≠ 0 ∧ ¬ canPoisonMemory
  · exact ⟨s, if_pos hv⟩
  · refine ⟨_, poisonShadow_eq canPoisonMemory s (fun hn => ?_) ha hs hlt⟩
    by_contra hc
    exact hv ⟨hn, hc⟩

theorem fastPoisonShadow_nil (s : Shadow) (addr value : ℕ) : fastPoisonShadow s addr 0 value = s := by
  funext n
  unfold fastPoisonShadow
  rw [if_neg (by omega)]

theorem addressIsPoisoned_of_ge {s : Shadow} {a : ℕ} (h : 128 ≤ s (a / 8)) : addressIsPoisoned s a := by
  unfold addressIsPoisoned
  simp only [decide_eq_true_eq]
  omega

/-- A granule is poisoned as a whole exactly if its byte says that no byte is addressable. -/
theorem forall_poisoned_iff {s : Shadow} {n : ℕ} :
    (∀ a, a / 8 = n → addressIsPoisoned s a = true) ↔ 128 ≤ s n := by
  constructor
  · intro h
    have h0 := h (8 * n) (by omega)
    unfold addressIsPoisoned at h0
    simp only [decide_eq_true_eq, show 8 * n / 8 = n by omega, show 8 * n % 8 = 0 by omega] at h0
    omega
  · rintro h a rfl
    exact addressIsPoisoned_of_ge h

end Cmasan
