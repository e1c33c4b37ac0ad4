/-
# Counted references from slots

Slots hold references to shared records; each record carries a count of the
slots that hold it, and a record whose count drops to 0 is freed. A writer
that repoints many slots to one new record may credit the record's count
later: `pend` is what it still owes. `Balanced` says that count plus debt is
the number of slots that hold the record, and that no slot holds a freed
record. Repointing a slot keeps it with one more owed (`Balanced.point`),
paying keeps it (`Balanced.credit`).

Key definitions: `RefTable`, `holders`, `Balanced`.
Key theorems: `Balanced.point`, `Balanced.credit`, `Balanced.pos`.
-/
import Mathlib.Algebra.BigOperators.Group.Finset.Piecewise
import Mathlib.Algebra.BigOperators.Ring.Finset

namespace Cmasan
namespace Lib

/-- Slots that hold references, each record's count and whether it was freed. -/
structure RefTable (σ ρ : Type*) where
  slot : σ → Option ρ
  cnt : ρ → ℕ
  freed : ρ → Bool

variable {σ ρ : Type*} [DecidableEq σ] [DecidableEq ρ]

/-- The number of slots of `S` that hold `r`. -/
def holders (S : Finset σ) (slot : σ → Option ρ) (r : ρ) : ℕ := (S.filter (slot · = some r)).card

/-- Take one from `r`'s count; at 0 the record is freed. -/
def RefTable.drop (T : RefTable σ ρ) (r : ρ) : RefTable σ ρ :=
  { T with
    cnt := Function.update T.cnt r (T.cnt r - 1)
    freed := if T.cnt r - 1 = 0 then Function.update T.freed r true else T.freed }

/-- Drop what slot `n` holds, then let it hold `r`. -/
def RefTable.point (T : RefTable σ ρ) (n : σ) (r : ρ) : RefTable σ ρ :=
  let T' := match T.slot n with
    | some r₀ => T.drop r₀
    | none => T
  { T' with slot := Function.update T'.slot n (some r) }

/-- Add `k` to `r`'s count. -/
def RefTable.credit (T : RefTable σ ρ) (r : ρ) (k : ℕ) : RefTable σ ρ :=
  { T with cnt := Function.update T.cnt r (T.cnt r + k) }

/-- Count plus debt is the number of holders, and nobody holds a freed record. -/
structure Balanced (S : Finset σ) (T : RefTable σ ρ) (pend : ρ → ℕ) : Prop where
  count : ∀ r, T.cnt r + pend r = holders S T.slot r
  live : ∀ n ∈ S, ∀ r, T.slot n = some r → T.freed r = false

theorem holders_split {S : Finset σ} {n : σ} (hn : n ∈ S) (slot : σ → Option ρ) (r : ρ) :
    holders S slot r = (if slot n = some r then 1 else 0) + holders (S.erase n) slot r := by
  simp only [holders, Finset.card_filter]
  rw [← Finset.add_sum_erase S _ hn]

theorem holders_erase_update (S : Finset σ) (n : σ) (slot : σ → Option ρ) (v : Option ρ) (r : ρ) :
    holders (S.erase n) (Function.update slot n v) r = holders (S.erase n) slot r := by
  unfold holders
  congr 1
  apply Finset.filter_congr
  intro m hm
  rw [Function.update_of_ne (Finset.ne_of_mem_erase hm)]

/-- A slot changes hands: its old record loses a holder, its new one gains one. -/
theorem holders_update {S : Finset σ} {n : σ} (hn : n ∈ S) (slot : σ → Option ρ) (r r' : ρ) :
    holders S (Function.update slot n (some r)) r' + (if slot n = some r' then 1 else 0) =
      holders S slot r' + (if r = r' then 1 else 0) := by
  rw [holders_split hn, holders_split hn slot, holders_erase_update, Function.update_self]
  simp only [Option.some.injEq]
  omega

omit [DecidableEq σ] in
theorem holders_pos {S : Finset σ} {n : σ} (hn : n ∈ S) {slot : σ → Option ρ} {r : ρ}
    (h : slot n = some r) : 0 < holders S slot r :=
  Finset.card_pos.mpr ⟨n, Finset.mem_filter.mpr ⟨hn, h⟩⟩

theorem holders_two {S : Finset σ} {n m : σ} (hn : n ∈ S) (hm : m ∈ S) (hne : m ≠ n)
    {slot : σ → Option ρ} {r : ρ} (h : slot n = some r) (h' : slot m = some r) :
    2 ≤ holders S slot r := by
  have h1 := holders_split hn slot r
  have h2 := holders_pos (Finset.mem_erase.mpr ⟨hne, hm⟩) h'
  rw [if_pos h] at h1
  omega

omit [DecidableEq σ] in
/-- A record that is held and to which nothing is owed has a positive count. -/
theorem Balanced.pos {S : Finset σ} {T : RefTable σ ρ} {pend : ρ → ℕ} (h : Balanced S T pend)
    {n : σ} (hn : n ∈ S) {r : ρ} (hs : T.slot n = some r) (hp : pend r = 0) : 0 < T.cnt r := by
  have := h.count r
  have := holders_pos hn hs
  omega

theorem Balanced.live_update {S : Finset σ} {T : RefTable σ ρ} {pend : ρ → ℕ} (h : Balanced S T pend)
    {n m : σ} {r r' : ρ} (hr : T.freed r = false) (hm : m ∈ S)
    (hm' : Function.update T.slot n (some r) m = some r') : T.freed r' = false := by
  by_cases he : m = n
  · rw [he, Function.update_self] at hm'
    exact Option.some.inj hm' ▸ hr
  · rw [Function.update_of_ne he] at hm'
    exact h.live m hm r' hm'

theorem Balanced.fill {S : Finset σ} {T : RefTable σ ρ} {pend : ρ → ℕ} (h : Balanced S T pend)
    {n : σ} (hn : n ∈ S) {r : ρ} (hr : T.freed r = false) (hs : T.slot n = none) :
    Balanced S { T with slot := Function.update T.slot n (some r) }
      (Function.update pend r (pend r + 1)) := by
  refine ⟨fun r' => ?_, fun m hm r' hm' => h.live_update hr hm hm'⟩
  have h1 := holders_update hn T.slot r r'
  have h2 := h.count r'
  rw [hs] at h1
  simp only [reduceCtorEq, ↓reduceIte] at h1
  by_cases he : r = r'
  · subst he
    simp only [Function.update_self, ↓reduceIte] at h1 ⊢
    omega
  · simp only [Function.update_of_ne (Ne.symm he), if_neg he] at h1 ⊢
    omega

/-- The count of the record that a slot lets go of is that of its other holders. -/
theorem Balanced.drop_count {S : Finset σ} {T : RefTable σ ρ} {pend : ρ → ℕ} (h : Balanced S T pend)
    {n : σ} (hn : n ∈ S) {r r₀ : ρ} (hs : T.slot n = some r₀) (hpos : 1 ≤ T.cnt r₀) (r' : ρ) :
    (T.drop r₀).cnt r' + Function.update pend r (pend r + 1) r' =
      holders S (Function.update T.slot n (some r)) r' := by
  have h1 := holders_update hn T.slot r r'
  have h2 := h.count r'
  rw [hs] at h1
  simp only [Option.some.injEq, RefTable.drop] at h1 ⊢
  by_cases he0 : r₀ = r' <;> by_cases he : r = r'
  · subst he0; subst he
    simp only [Function.update_self, ↓reduceIte] at h1 ⊢
    omega
  · subst he0
    simp only [Function.update_self, Function.update_of_ne (Ne.symm he), ↓reduceIte, if_neg he] at h1 ⊢
    omega
  · subst he
    simp only [Function.update_self, Function.update_of_ne (Ne.symm he0), ↓reduceIte, if_neg he0] at h1 ⊢
    omega
  · simp only [Function.update_of_ne (Ne.symm he0), Function.update_of_ne (Ne.symm he),
      if_neg he, if_neg he0] at h1 ⊢
    omega

/-- A record that is freed as a slot lets go of it has no holder left. -/
theorem Balanced.drop_live {S : Finset σ} {T : RefTable σ ρ} {pend : ρ → ℕ} (h : Balanced S T pend)
    {n m : σ} (hn : n ∈ S) {r r₀ r' : ρ} (hr : T.freed r = false) (hs : T.slot n = some r₀)
    (hold : r₀ ≠ r → pend r₀ = 0) (hself : r₀ = r → 2 ≤ T.cnt r) (hm : m ∈ S)
    (hm' : Function.update T.slot n (some r) m = some r') : (T.drop r₀).freed r' = false := by
  have hlive := h.live_update hr hm hm'
  simp only [RefTable.drop]
  split
  · rename_i hz
    have hne : r' ≠ r₀ := by
      rintro rfl
      -- the slot still holds the record, which then had two holders
      by_cases her : r' = r
      · have := hself her
        rw [her] at hz
        omega
      · have hmn : m ≠ n := by
          rintro rfl
          rw [Function.update_self] at hm'
          exact her (Option.some.inj hm').symm
        rw [Function.update_of_ne hmn] at hm'
        have h2 := holders_two hn hm hmn hs hm'
        have h3 := h.count r'
        have := hold her
        omega
    rw [Function.update_of_ne hne]
    exact hlive
  · exact hlive

/-- **Repointing a slot.** The record that the slot held must be fully
credited, or be the new record itself with another credited holder. -/
theorem Balanced.point {S : Finset σ} {T : RefTable σ ρ} {pend : ρ → ℕ} (h : Balanced S T pend)
    {n : σ} (hn : n ∈ S) {r : ρ} (hr : T.freed r = false)
    (hold : ∀ r₀, T.slot n = some r₀ → r₀ ≠ r → pend r₀ = 0)
    (hself : T.slot n = some r → 2 ≤ T.cnt r) :
    Balanced S (T.point n r) (Function.update pend r (pend r + 1)) := by
  rcases hs : T.slot n with _ | r₀
  · have hp : T.point n r = { T with slot := Function.update T.slot n (some r) } := by
      simp [RefTable.point, hs]
    rw [hp]
    exact h.fill hn hr hs
  · have hp : T.point n r = { T.drop r₀ with slot := Function.update T.slot n (some r) } := by
      simp [RefTable.point, hs, RefTable.drop]
    have hpos : 1 ≤ T.cnt r₀ := by
      by_cases he : r₀ = r
      · have := hself (he ▸ hs)
        rw [he]
        omega
      · exact h.pos hn hs (hold r₀ hs he)
    rw [hp]
    refine ⟨h.drop_count hn hs hpos, fun m hm r' hm' => ?_⟩
    exact h.drop_live hn hr hs (hold r₀ hs) (fun he => hself (he ▸ hs)) hm hm'

omit [DecidableEq σ] in
theorem Balanced.credit {S : Finset σ} {T : RefTable σ ρ} {pend : ρ → ℕ} (h : Balanced S T pend)
    {r : ρ} {k : ℕ} (hk : k ≤ pend r) :
    Balanced S (T.credit r k) (Function.update pend r (pend r - k)) := by
  refine ⟨fun r' => ?_, h.live⟩
  have h1 := h.count r'
  simp only [RefTable.credit]
  by_cases he : r' = r
  · subst he; simp only [Function.update_self]; omega
  · simp only [Function.update_of_ne he]; exact h1

end Lib
end Cmasan
