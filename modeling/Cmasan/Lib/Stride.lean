/-
# Walks that jump over what they meet

A walk over the cells `0, 1, 2, …` of a line, some of which have an owner:
from a cell without one it goes on to the next cell, from a cell of `c` it
jumps `len c + 1` cells. Which owners does it meet?

If each owner `c` has the `len c` cells from `first c` on, a walk that meets
`c` on its cell number `k` comes out `k + 1` cells behind its end. So the walk
is one cell further behind after each owner, and catches up one cell with each
cell without an owner: how far it is behind (`lag`) is the work left at a
server that gets a job at the end of each owner and finishes one with each
free cell. It misses an owner that is not longer than its lag. An owner that
begins before the line has fewer cells on it, `width c`, than the walk jumps
over, and the walk slips by the difference more.

Key definitions: `next`, `cell`, `Meets`, `SideBySide`, `ends`, `slips`,
`gaps`, `lag`.
Key theorems: `next_cell_le`, `add_lag_lt_iff`, `SideBySide.cells`,
`SideBySide.meets_all_slips_iff`, `SideBySide.of_whole`.
-/
import Mathlib.Algebra.BigOperators.Intervals
import Mathlib.Order.Monotone.Basic

namespace Cmasan.Lib

variable {α : Type*}

section Walk

variable (own : ℕ → Option α) (len : α → ℕ)

/-- The cell after `i` on the walk. -/
def next (i : ℕ) : ℕ :=
  match own i with
  | none => i + 1
  | some c => i + len c + 1

/-- The cell number `n` of the walk from 0. -/
def cell : ℕ → ℕ
  | 0 => 0
  | n + 1 => next own len (cell n)

/-- The walk meets `c` before the cell `D`. -/
def Meets (D : ℕ) (c : α) : Prop := ∃ n, cell own len n < D ∧ own (cell own len n) = some c

variable {own len}

theorem next_of_none {i : ℕ} (h : own i = none) : next own len i = i + 1 := by
  unfold next
  rw [h]

theorem next_of_some {i : ℕ} {c : α} (h : own i = some c) : next own len i = i + len c + 1 := by
  unfold next
  rw [h]

theorem lt_next (i : ℕ) : i < next own len i := by
  unfold next
  split <;> omega

theorem cell_strictMono : StrictMono (cell own len) := strictMono_nat_of_lt_succ fun _ => lt_next _

theorem next_cell_le {m n : ℕ} (h : cell own len m < cell own len n) :
    next own len (cell own len m) ≤ cell own len n :=
  cell_strictMono.monotone (Nat.succ_le_of_lt (cell_strictMono.lt_iff_lt.mp h))

end Walk

/-! ### Counts -/

section Counts

variable (own : ℕ → Option α) (first width len : α → ℕ)

/-- The cell is the last one of its owner. -/
def isLast (i : ℕ) : Bool := (own i).any fun c => i + 1 = first c + len c

/-- How many owners end on the cells from `x` to below `y`. -/
def ends (x y : ℕ) : ℕ := ((Finset.Ico x y).filter fun i => isLast own first len i).card

/-- How many cells from `x` to below `y` have no owner. -/
def gaps (x y : ℕ) : ℕ := ((Finset.Ico x y).filter fun i => (own i).isNone).card

/-- How far the walk falls behind at a cell: by one cell at the end of an
owner, and by as many more as the jump over the owner is longer than it. -/
def slip (i : ℕ) : ℕ := (own i).elim 0 fun c => if i + 1 = first c + width c then len c - width c + 1 else 0

/-- How far it falls behind on the cells from `x` to below `y`. -/
def slips (x y : ℕ) : ℕ := ∑ i ∈ Finset.Ico x y, slip own first width len i

/-- How far a walk that met all owners is behind at a cell. -/
def lag : ℕ → ℕ
  | 0 => 0
  | i + 1 => if (own i).isNone then lag i - 1 else lag i + slip own first width len i

variable {own first width len}

theorem gaps_self (x : ℕ) : gaps own x x = 0 := by simp [gaps]

theorem slips_self (x : ℕ) : slips own first width len x x = 0 := by simp [slips]

theorem gaps_succ {x y : ℕ} (h : x ≤ y) :
    gaps own x (y + 1) = gaps own x y + if (own y).isNone then 1 else 0 := by
  unfold gaps
  rw [Finset.card_filter, Finset.card_filter, Finset.sum_Ico_succ_top h]

theorem slips_succ {x y : ℕ} (h : x ≤ y) :
    slips own first width len x (y + 1) = slips own first width len x y + slip own first width len y :=
  Finset.sum_Ico_succ_top h _

/-- Where every jump is as long as its owner, the walk slips by one at each end. -/
theorem slips_eq_ends (x y : ℕ) : slips own first len len x y = ends own first len x y := by
  unfold slips ends
  rw [Finset.card_filter]
  apply Finset.sum_congr rfl
  intro i _
  unfold slip isLast
  cases own i with
  | none => rfl
  | some c => simp

theorem slip_of_none {i : ℕ} (h : own i = none) : slip own first width len i = 0 := by
  unfold slip
  rw [h]
  rfl

theorem lag_of_none {i : ℕ} (h : own i = none) :
    lag own first width len (i + 1) = lag own first width len i - 1 := by
  rw [lag, h]
  rfl

theorem lag_of_some {i : ℕ} {c : α} (h : own i = some c) :
    lag own first width len (i + 1) = lag own first width len i +
      if i + 1 = first c + width c then len c - width c + 1 else 0 := by
  rw [lag, slip, h]
  rfl

theorem slips_le {x i : ℕ} (h : x ≤ i) :
    slips own first width len x i ≤ lag own first width len i + gaps own x i := by
  induction i, h using Nat.le_induction with
  | base =>
    rw [slips_self]
    exact Nat.zero_le _
  | succ i hi ih =>
    rw [slips_succ hi, gaps_succ hi, lag]
    cases hc : own i with
    | none =>
      rw [slip_of_none hc]
      simp only [Option.isNone_none, if_true]
      omega
    | some c =>
      simp only [Option.isNone_some, Bool.false_eq_true, if_false]
      omega

/-- The lag is all slips since some cell, less the free cells since it. -/
theorem exists_slips_eq (i : ℕ) :
    ∃ x ≤ i, slips own first width len x i = lag own first width len i + gaps own x i := by
  induction i with
  | zero => exact ⟨0, le_refl 0, by rw [slips_self, gaps_self, lag]⟩
  | succ i ih =>
    obtain ⟨x, hx, he⟩ := ih
    by_cases h0 : lag own first width len (i + 1) = 0
    · -- the walk has caught up
      exact ⟨i + 1, le_refl _, by rw [slips_self, gaps_self, h0]⟩
    · refine ⟨x, Nat.le_succ_of_le hx, ?_⟩
      rw [slips_succ hx, gaps_succ hx, he]
      rw [lag] at h0 ⊢
      cases hc : own i with
      | none =>
        rw [slip_of_none hc]
        simp only [hc, Option.isNone_none, if_true] at h0 ⊢
        omega
      | some c =>
        simp only [Option.isNone_some, Bool.false_eq_true, if_false]
        omega

/-- **The lag as counts**: it is below a bound if from no cell on the walk
slipped by too much for the free cells. -/
theorem add_lag_lt_iff (i m : ℕ) :
    i + lag own first width len i < m ↔
      ∀ x ≤ i, i + slips own first width len x i < m + gaps own x i := by
  constructor
  · intro h x hx
    have hle : slips own first width len x i ≤ lag own first width len i + gaps own x i := slips_le hx
    omega
  · intro h
    obtain ⟨x, hx, he⟩ :
        ∃ x ≤ i, slips own first width len x i = lag own first width len i + gaps own x i :=
      exists_slips_eq i
    have := h x hx
    omega

end Counts

/-! ### Owners side by side -/

/-- The owners of the cells below `N` have the cells from `first` on, as many
as `len` says, and no others, and end by `N`. -/
structure SideBySide (own : ℕ → Option α) (first len : α → ℕ) (N : ℕ) : Prop where
  only : ∀ i c, i < N → own i = some c → ∀ j, own j = some c → first c ≤ j ∧ j < first c + len c
  whole : ∀ i c, i < N → own i = some c → ∀ j, first c ≤ j → j < first c + len c → own j = some c
  below : ∀ i c, i < N → own i = some c → first c + len c ≤ N

namespace SideBySide

variable {own : ℕ → Option α} {first width len : α → ℕ} {N : ℕ}

theorem mem (h : SideBySide own first width N) (i : ℕ) (c : α) (hi : i < N) (hc : own i = some c) :
    first c ≤ i ∧ i < first c + width c := h.only i c hi hc i hc

theorem own_first (h : SideBySide own first width N) {i : ℕ} {c : α} (hi : i < N) (hc : own i = some c) :
    own (first c) = some c := by
  have := h.mem i c hi hc
  exact h.whole i c hi hc _ (le_refl _) (by omega)

/-- The lag does not change within an owner. -/
theorem lag_inside (h : SideBySide own first width N) {i : ℕ} {c : α} (hi : i < N) (hc : own i = some c) :
    lag own first width len i = lag own first width len (first c) := by
  obtain ⟨hge, hlt⟩ := h.mem i c hi hc
  obtain ⟨d, rfl⟩ := Nat.exists_eq_add_of_le hge
  clear hge
  induction d with
  | zero => rfl
  | succ d ih =>
    have hd : own (first c + d) = some c := h.whole _ c hi hc _ (by omega) (by omega)
    rw [← ih (by omega) hd (by omega), ← Nat.add_assoc, lag_of_some hd, if_neg (by omega), Nat.add_zero]

/-- **Where the walk is**: at a cell that no owner is in the middle of, if it
met all owners before, its next cell is as far ahead as it is behind. -/
theorem cells (h : SideBySide own first width N) (hlen : ∀ i c, i < N → own i = some c → width c ≤ len c) :
    ∀ i ≤ N, (∀ j c, j < i → own j = some c → lag own first width len (first c) < width c) →
    (∀ c, i < N → own i = some c → first c = i) →
    (∃ n, cell own len n = i + lag own first width len i) ∧
      ∀ n, i ≤ cell own len n → i + lag own first width len i ≤ cell own len n := by
  intro i
  induction i using Nat.strong_induction_on with
  | _ i ih =>
    intro hi hmet hedge
    cases i with
    | zero => exact ⟨⟨0, rfl⟩, fun n _ => Nat.zero_le _⟩
    | succ i =>
      cases hc : own i with
      | none =>
        -- the walk catches up one cell, or goes on to the next
        obtain ⟨⟨n, hn⟩, hno⟩ := ih i (Nat.lt_succ_self i) (by omega)
          (fun j c hj => hmet j c (by omega)) fun c _ hc' => by rw [hc] at hc'; cases hc'
        have hlag : lag own first width len (i + 1) = lag own first width len i - 1 := lag_of_none hc
        by_cases h0 : lag own first width len i = 0
        · rw [h0, Nat.add_zero] at hn
          rw [hlag, h0]
          refine ⟨⟨n + 1, ?_⟩, fun m hm => hm⟩
          rw [cell, hn, next_of_none hc]
        · rw [hlag]
          refine ⟨⟨n, by omega⟩, fun m hm => ?_⟩
          have := hno m (by omega)
          omega
      | some c =>
        -- the owner ends here, and the walk met it as far in as it was behind
        obtain ⟨hge, hlt⟩ := h.mem i c (by omega) hc
        have hend : i + 1 = first c + width c := by
          by_contra hne
          have hnext := h.whole i c (by omega) hc (i + 1) (by omega) (by omega)
          have hbelow := h.below i c (by omega) hc
          have := hedge c (by omega) hnext
          omega
        have hfirst := h.own_first (by omega) hc
        obtain ⟨⟨n, hn⟩, hno⟩ := ih (first c) (by omega) (by omega) (fun j d hj => hmet j d (by omega))
          fun d _ hd => by rw [Option.some.inj (hfirst.symm.trans hd)]
        have hlag : lag own first width len (i + 1) =
            lag own first width len (first c) + (len c - width c + 1) := by
          rw [lag_of_some hc, ← h.lag_inside (by omega) hc, if_pos hend]
        have hjump := hlen i c (by omega) hc
        have hin := hmet i c (Nat.lt_succ_self i) hc
        have hown : own (cell own len n) = some c :=
          h.whole i c (by omega) hc _ (by omega) (by omega)
        have hstep : next own len (cell own len n) = cell own len n + len c + 1 := next_of_some hown
        rw [hlag]
        refine ⟨⟨n + 1, ?_⟩, fun m hm => ?_⟩
        · rw [cell, hstep]
          omega
        · have hlt' : cell own len n < cell own len m := by omega
          have := next_cell_le hlt'
          omega

/-- **Which layouts a walk meets as a whole.** It meets every owner before the
cell `D` if for each owner, and each cell up to its first one, the walk slips
in between by less than the cells of it before `D` and the free cells in
between. -/
theorem meets_all_slips_iff (h : SideBySide own first width N)
    (hlen : ∀ i c, i < N → own i = some c → width c ≤ len c) (D : ℕ) :
    (∀ i c, i < N → own i = some c → Meets own len D c) ↔
      ∀ i c, i < N → own i = some c → ∀ x ≤ first c,
        first c + slips own first width len x (first c) <
          min (first c + width c) D + gaps own x (first c) := by
  have hedge : ∀ i c, i < N → own i = some c → ∀ d, own (first c) = some d → first d = first c :=
    fun i c hi hc d hd => by rw [Option.some.inj ((h.own_first hi hc).symm.trans hd)]
  constructor
  · intro hall
    -- by the order of the owners: the ones before were met within their cells
    have hlag : ∀ k i c, i < N → own i = some c → first c = k →
        first c + lag own first width len (first c) < min (first c + width c) D := by
      intro k
      induction k using Nat.strong_induction_on with
      | _ k ih =>
        intro i c hi hc hk
        have hmem := h.mem i c hi hc
        obtain ⟨-, hno⟩ := h.cells hlen (first c) (by omega)
          (fun j d hj hd => by
            have hj' := h.mem j d (by omega) hd
            have := ih (first d) (by omega) j d (by omega) hd rfl
            omega)
          fun d _ hd => hedge i c hi hc d hd
        obtain ⟨n, hn, hown⟩ := hall i c hi hc
        have hcell := h.only i c hi hc _ hown
        have := hno n hcell.1
        omega
    intro i c hi hc
    exact (add_lag_lt_iff _ _).mp (hlag _ i c hi hc rfl)
  · intro hall i c hi hc
    have hlag : ∀ j d, j < N → own j = some d →
        first d + lag own first width len (first d) < min (first d + width d) D := fun j d hj hd =>
      (add_lag_lt_iff _ _).mpr (hall j d hj hd)
    have hmem := h.mem i c hi hc
    obtain ⟨⟨n, hn⟩, -⟩ := h.cells hlen (first c) (by omega)
      (fun j d hj hd => by
        have := hlag j d (by omega) hd
        omega)
      fun d _ hd => hedge i c hi hc d hd
    have hc' := hlag i c hi hc
    exact ⟨n, by omega, hn ▸ h.whole i c hi hc _ (by omega) (by omega)⟩

theorem meets_all_iff (h : SideBySide own first len N) (D : ℕ) :
    (∀ i c, i < N → own i = some c → Meets own len D c) ↔
      ∀ i c, i < N → own i = some c → ∀ x ≤ first c,
        first c + ends own first len x (first c) < min (first c + len c) D + gaps own x (first c) := by
  rw [h.meets_all_slips_iff (fun _ _ _ _ => le_refl _) D]
  simp only [slips_eq_ends]

/-- Whole owners of the cells below `M` are side by side up to where the owner
of the last one of these cells ends. -/
theorem of_whole {M : ℕ}
    (only : ∀ i c, i < M → own i = some c → ∀ j, own j = some c → first c ≤ j ∧ j < first c + width c)
    (whole : ∀ i c, i < M → own i = some c → ∀ j, first c ≤ j → j < first c + width c → own j = some c) :
    ∃ N, SideBySide own first width N ∧ ∀ i c, own i = some c → (i < N ↔ ∃ j < M, own j = some c) := by
  -- the owners that start below `M` end by some `N`, and no other has a cell below it
  obtain ⟨N, hback, hend⟩ : ∃ N, (∀ i c, i < N → own i = some c → ∃ j < M, own j = some c) ∧
      ∀ j c, j < M → own j = some c → first c + width c ≤ N := by
    cases M with
    | zero => exact ⟨0, fun i c hi => by omega, fun j c hj => by omega⟩
    | succ m =>
      -- an owner that goes on behind `m` is the owner of `m`
      have hlast : ∀ j c, j < m + 1 → own j = some c → m + 1 < first c + width c → own m = some c :=
        fun j c hj hc hlt => by
          have := only j c hj hc j hc
          exact whole j c hj hc m (by omega) (by omega)
      cases hm : own m with
      | none =>
        refine ⟨m + 1, fun i c hi hc => ⟨i, hi, hc⟩, fun j c hj hc => ?_⟩
        by_contra hlt
        have := hlast j c hj hc (by omega)
        rw [hm] at this
        cases this
      | some d =>
        have hd := only m d (Nat.lt_succ_self m) hm m hm
        refine ⟨first d + width d, fun i c hi hc => ?_, fun j c hj hc => ?_⟩
        · by_cases him : i < m + 1
          · exact ⟨i, him, hc⟩
          · have hid := whole m d (Nat.lt_succ_self m) hm i (by omega) hi
            exact ⟨m, Nat.lt_succ_self m, by rw [hm, ← hid, hc]⟩
        · by_contra hlt
          have := hlast j c hj hc (by omega)
          rw [hm] at this
          obtain rfl := Option.some.inj this
          exact hlt (le_refl _)
  refine ⟨N, ⟨fun i c hi hc => ?_, fun i c hi hc => ?_, fun i c hi hc => ?_⟩,
    fun i c hc => ⟨fun hi => hback i c hi hc, ?_⟩⟩
  · obtain ⟨j, hj, hcj⟩ := hback i c hi hc
    exact only j c hj hcj
  · obtain ⟨j, hj, hcj⟩ := hback i c hi hc
    exact whole j c hj hcj
  · obtain ⟨j, hj, hcj⟩ := hback i c hi hc
    exact hend j c hj hcj
  · rintro ⟨j, hj, hcj⟩
    exact Nat.lt_of_lt_of_le (only j c hj hcj i hc).2 (hend j c hj hcj)

end SideBySide

end Cmasan.Lib
