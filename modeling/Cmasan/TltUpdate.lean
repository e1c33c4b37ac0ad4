/-
# What tlt_update writes

`tlt_update(key, size, s, e)` is to give status `s` to the chunks of status
`e` in `[key, key + size)`. Its loop takes one granule at a time, and after a
chunk it adds the chunk's length to the offset before the loop adds a granule:
it goes on one granule too late, and one more if it met the chunk one granule
in. The chunks it writes are those that this walk meets (`tltUpdate_eq_some`).

In the address space the walk is the one of `Lib/Stride`, over the granules
from the key's on (`updateMeets_iff`), so that for chunks that lie side by
side it meets all of them exactly if the granules without one are enough for
it to catch up (`updateMeets_all_iff`).

Key definitions: `expectedAt`, `updateWalk`, `updateWalkWith`, `UpdateMeets`,
`LaidOut`.
Key theorems: `tltUpdate_eq_some`, `tltUpdate_returns`, `updateMeets_iff`,
`updateMeets_all_iff`.
-/
import Cmasan.TltTable
import Cmasan.Lib.Stride

namespace Cmasan

open Lib

/-- The chunk of the expected status that `_tlt_get_internal` finds at an address. -/
def expectedAt (t : Tlt) (e : Status) (a : ℕ) : Option ℕ :=
  (tltGetInternal t a).filter fun c => (t.info c).status = e

/-- The length of a chunk that the loop adds to its offset. -/
def ChunkInfo.length (i : ChunkInfo) : ℕ := roundUpTo (uadd i.chunkSize i.rzSize) 8

/-- The offset before an iteration of the loop, and the chunks met so far;
latest first. -/
def updateWalk (t : Tlt) (e : Status) (alignedKey : ℕ) : ℕ → ℕ × List ℕ
  | 0 => (0, [])
  | n + 1 =>
    let (i, seen) := updateWalk t e alignedKey n
    match (expectedAt t e (uadd alignedKey i)).filter (· ∉ seen) with
    | some c => (uadd (uadd i (t.info c).length) 8, c :: seen)
    | none => (uadd i 8, seen)

/-- The chunks that `tlt_update(key, size, s, e)` meets. -/
def UpdateMeets (t : Tlt) (e : Status) (key size c : ℕ) : Prop :=
  ∃ n, c ∈ (updateWalk t e (roundDownTo key 8) n).2 ∧
    ∀ m < n, (updateWalk t e (roundDownTo key 8) m).1 < size

/-- The offset before an iteration and the chunks met so far, for any pair of
statuses: a chunk that is found again counts only if the write left it its status. -/
def updateWalkWith (again : Bool) (t : Tlt) (e : Status) (alignedKey : ℕ) : ℕ → ℕ × List ℕ
  | 0 => (0, [])
  | n + 1 =>
    let (i, seen) := updateWalkWith again t e alignedKey n
    match (expectedAt t e (uadd alignedKey i)).filter fun c => again = true ∨ c ∉ seen with
    | some c => (uadd (uadd i (t.info c).length) 8, c :: seen)
    | none => (uadd i 8, seen)

/-- The chunks that `tlt_update(key, size, s, e)` meets, where `again` is `s = e`. -/
def UpdateMeetsWith (again : Bool) (t : Tlt) (e : Status) (key size c : ℕ) : Prop :=
  ∃ n, c ∈ (updateWalkWith again t e (roundDownTo key 8) n).2 ∧
    ∀ m < n, (updateWalkWith again t e (roundDownTo key 8) m).1 < size

/-- The table with the infos of `seen` written. -/
def Tlt.updated (t : Tlt) (status : Status) (freeStackId tid : ℕ) (seen : List ℕ) : Tlt :=
  { t with
    info := fun c => if c ∈ seen then { t.info c with status, freeStackId, freeThreadId := tid } else t.info c }

theorem updateWalk_eq_with (t : Tlt) (e : Status) (alignedKey : ℕ) : ∀ n,
    updateWalk t e alignedKey n = updateWalkWith false t e alignedKey n
  | 0 => rfl
  | n + 1 => by
    rw [updateWalk, updateWalkWith, updateWalk_eq_with t e alignedKey n]
    simp only [Bool.false_eq_true, false_or]

theorem updateMeets_eq_with (t : Tlt) (e : Status) (key size c : ℕ) :
    UpdateMeets t e key size c ↔ UpdateMeetsWith false t e key size c := by
  unfold UpdateMeets UpdateMeetsWith
  simp only [updateWalk_eq_with]

section Loop

variable {t : Tlt} {status e : Status} {fs tid alignedKey size : ℕ} {again : Bool}

theorem updated_nil : t.updated status fs tid [] = t := by simp [Tlt.updated]

theorem updated_cons (seen : List ℕ) (c : ℕ) :
    (t.updated status fs tid seen).setInfo c
        { (t.updated status fs tid seen).info c with status, freeStackId := fs, freeThreadId := tid } =
      t.updated status fs tid (c :: seen) := by
  simp only [Tlt.setInfo, Tlt.updated, Tlt.mk.injEq, true_and, and_true]
  funext c'
  simp only [Function.update_apply, List.mem_cons]
  by_cases he : c' = c
  · subst he
    by_cases hc : c' ∈ seen <;> simp [hc]
  · simp [he]

theorem expectedAt_eq (t : Tlt) (e : Status) (a : ℕ) : expectedAt t e a =
    (slot t (granule a)).filter fun c => (t.info c).status ≠ .none ∧ (t.info c).status = e := by
  unfold expectedAt
  rw [tltGetInternal_eq, Option.filter_filter]
  cases slot t (granule a) with
  | none => rfl
  | some c => by_cases h : (t.info c).status = .none <;> simp [Option.filter, h]

theorem expectedAt_eq_some {a c : ℕ} : expectedAt t e a = some c ↔
    slot t (granule a) = some c ∧ (t.info c).status ≠ .none ∧ (t.info c).status = e := by
  rw [expectedAt_eq, Option.filter_eq_some_iff]
  simp

/-- What is written already has not the expected status any more, unless that
is the one that is written. -/
theorem expectedAt_updated {seen : List ℕ} (hseen : ∀ c ∈ seen, (t.info c).status = e) (a : ℕ) :
    expectedAt (t.updated status fs tid seen) e a =
      (expectedAt t e a).filter fun c => decide (status = e) = true ∨ c ∉ seen := by
  have hs : slot (t.updated status fs tid seen) = slot t := rfl
  rw [expectedAt_eq, expectedAt_eq, hs, Option.filter_filter]
  cases slot t (granule a) with
  | none => rfl
  | some c =>
    by_cases hc : c ∈ seen
    · have hce := hseen c hc
      by_cases hst : status = e
      · subst hst
        simp [Option.filter, Tlt.updated, hc, hce]
      · simp [Option.filter, Tlt.updated, hc, hst]
    · simp [Option.filter, Tlt.updated, hc]

theorem updateWalkWith_status {n c : ℕ} (hc : c ∈ (updateWalkWith again t e alignedKey n).2) :
    (∃ g, slot t g = some c) ∧ (t.info c).status ≠ .none ∧ (t.info c).status = e := by
  induction n with
  | zero => cases hc
  | succ n ih =>
    rw [updateWalkWith] at hc
    simp only at hc
    split at hc
    · rename_i d hd
      rcases List.mem_cons.mp hc with rfl | hc
      · obtain ⟨hs, hst⟩ := expectedAt_eq_some.mp (Option.filter_eq_some_iff.mp hd).1
        exact ⟨⟨_, hs⟩, hst⟩
      · exact ih hc
    · exact ih hc

theorem tltUpdateLoop_succ (t : Tlt) (fuel i : ℕ) :
    tltUpdateLoop alignedKey size status e fs tid (fuel + 1) i t =
      if i < size then
        match expectedAt t e (uadd alignedKey i) with
        | some c => tltUpdateLoop alignedKey size status e fs tid fuel (uadd (uadd i (t.info c).length) 8)
            (t.setInfo c { t.info c with status, freeStackId := fs, freeThreadId := tid })
        | none => tltUpdateLoop alignedKey size status e fs tid fuel (uadd i 8) t
      else some t := by
  rw [tltUpdateLoop]
  split
  · unfold expectedAt
    cases tltGetInternal t (uadd alignedKey i) with
    | none => rfl
    | some c => by_cases hc : (t.info c).status = e <;> simp [Option.filter, hc, ChunkInfo.length]
  · rfl

theorem tltUpdateLoop_step (fuel n : ℕ)
    (hi : (updateWalkWith (decide (status = e)) t e alignedKey n).1 < size) :
    tltUpdateLoop alignedKey size status e fs tid (fuel + 1)
        (updateWalkWith (decide (status = e)) t e alignedKey n).1
        (t.updated status fs tid (updateWalkWith (decide (status = e)) t e alignedKey n).2) =
      tltUpdateLoop alignedKey size status e fs tid fuel
        (updateWalkWith (decide (status = e)) t e alignedKey (n + 1)).1
        (t.updated status fs tid (updateWalkWith (decide (status = e)) t e alignedKey (n + 1)).2) := by
  rw [tltUpdateLoop_succ, if_pos hi, updateWalkWith,
    expectedAt_updated fun c hc => (updateWalkWith_status hc).2.2]
  simp only
  cases (expectedAt t e (uadd alignedKey (updateWalkWith (decide (status = e)) t e alignedKey n).1)).filter
      fun c => decide (status = e) = true ∨ c ∉ (updateWalkWith (decide (status = e)) t e alignedKey n).2 with
  | none => rfl
  | some c =>
    have hlen : ((t.updated status fs tid (updateWalkWith (decide (status = e)) t e alignedKey n).2).info c).length =
        (t.info c).length := by
      unfold Tlt.updated
      simp only
      split <;> rfl
    simp only [updated_cons, hlen]

/-- **The loop is the walk** up to the first offset that is not below the size. -/
theorem tltUpdateLoop_walk : ∀ fuel n {t' : Tlt},
    tltUpdateLoop alignedKey size status e fs tid fuel (updateWalkWith (decide (status = e)) t e alignedKey n).1
        (t.updated status fs tid (updateWalkWith (decide (status = e)) t e alignedKey n).2) = some t' ↔
      ∃ m, n ≤ m ∧ m ≤ n + fuel ∧
        t' = t.updated status fs tid (updateWalkWith (decide (status = e)) t e alignedKey m).2 ∧
        (∀ j, n ≤ j → j < m → (updateWalkWith (decide (status = e)) t e alignedKey j).1 < size) ∧
        size ≤ (updateWalkWith (decide (status = e)) t e alignedKey m).1 := by
  intro fuel
  induction fuel with
  | zero =>
    intro n t'
    unfold tltUpdateLoop
    by_cases hi : (updateWalkWith (decide (status = e)) t e alignedKey n).1 < size
    · rw [if_pos hi]
      refine iff_of_false (by simp) ?_
      rintro ⟨m, hm, hmn, -, -, hend⟩
      obtain rfl : m = n := by omega
      omega
    · rw [if_neg hi, Option.some.injEq]
      constructor
      · intro ht
        exact ⟨n, le_refl n, le_refl n, ht.symm, fun j h1 h2 => by omega, by omega⟩
      · rintro ⟨m, hm, hmn, ht, -⟩
        obtain rfl : m = n := by omega
        exact ht.symm
  | succ fuel ih =>
    intro n t'
    by_cases hi : (updateWalkWith (decide (status = e)) t e alignedKey n).1 < size
    · rw [tltUpdateLoop_step fuel n hi, ih (n + 1)]
      constructor
      · rintro ⟨m, hm, hmn, ht, hbelow, hend⟩
        refine ⟨m, by omega, by omega, ht, fun j h1 h2 => ?_, hend⟩
        by_cases hj : j = n
        · rw [hj]
          exact hi
        · exact hbelow j (by omega) h2
      · rintro ⟨m, hm, hmn, ht, hbelow, hend⟩
        have hne : m ≠ n := by
          rintro rfl
          omega
        exact ⟨m, by omega, by omega, ht, fun j h1 h2 => hbelow j (by omega) h2, hend⟩
    · rw [tltUpdateLoop_succ, if_neg hi, Option.some.injEq]
      constructor
      · intro ht
        exact ⟨n, le_refl n, by omega, ht.symm, fun j h1 h2 => by omega, by omega⟩
      · rintro ⟨m, hm, hmn, ht, hbelow, -⟩
        obtain rfl : m = n := by
          by_contra hne
          exact hi (hbelow n (le_refl n) (by omega))
        exact ht.symm

theorem updateWalkWith_subset {n m : ℕ} (h : n ≤ m) :
    (updateWalkWith again t e alignedKey n).2 ⊆ (updateWalkWith again t e alignedKey m).2 := by
  induction m, h using Nat.le_induction with
  | base => exact List.Subset.refl _
  | succ m hm ih =>
    intro c hc
    rw [updateWalkWith]
    simp only
    split
    · exact List.mem_cons_of_mem _ (ih hc)
    · exact ih hc

theorem mem_seen_iff {key m : ℕ}
    (hbelow : ∀ j < m, (updateWalkWith again t e (roundDownTo key 8) j).1 < size)
    (hend : size ≤ (updateWalkWith again t e (roundDownTo key 8) m).1) (c : ℕ) :
    c ∈ (updateWalkWith again t e (roundDownTo key 8) m).2 ↔ UpdateMeetsWith again t e key size c := by
  refine ⟨fun hc => ⟨m, hc, hbelow⟩, ?_⟩
  rintro ⟨n, hc, hn⟩
  by_cases hnm : n ≤ m
  · exact updateWalkWith_subset hnm hc
  · have := hn m (by omega)
    omega

/-- **`tlt_update`** returns exactly if its walk comes to the size. -/
theorem tltUpdate_eq_some {key : ℕ} (hk : key ≠ 0) {t' : Tlt} :
    tltUpdate t key size status e fs tid = some t' ↔
      ∃ m ≤ size, t' = t.updated status fs tid (updateWalkWith (decide (status = e)) t e (roundDownTo key 8) m).2 ∧
        (∀ j < m, (updateWalkWith (decide (status = e)) t e (roundDownTo key 8) j).1 < size) ∧
        size ≤ (updateWalkWith (decide (status = e)) t e (roundDownTo key 8) m).1 := by
  let walk := updateWalkWith (decide (status = e)) t e (roundDownTo key 8)
  have hloop : tltUpdateLoop (roundDownTo key 8) size status e fs tid size (walk 0).1
      (t.updated status fs tid (walk 0).2) = some t' ↔ _ := tltUpdateLoop_walk size 0
  simp only [walk, updateWalkWith, updated_nil] at hloop
  unfold tltUpdate
  rw [if_neg hk, hloop]
  constructor
  · rintro ⟨m, -, hm, ht, hbelow, hend⟩
    exact ⟨m, by omega, ht, fun j hj => hbelow j (Nat.zero_le j) hj, hend⟩
  · rintro ⟨m, hm, ht, hbelow, hend⟩
    exact ⟨m, Nat.zero_le m, by omega, ht, fun j _ hj => hbelow j hj, hend⟩

end Loop

theorem tltUpdate_spec {t t' : Tlt} {key size fs tid : ℕ} {status e : Status} (hk : key ≠ 0) (hst : status ≠ e)
    (he : tltUpdate t key size status e fs tid = some t') :
    ∃ seen, t' = t.updated status fs tid seen ∧ ∀ c, c ∈ seen ↔ UpdateMeets t e key size c := by
  obtain ⟨m, -, ht, hbelow, hend⟩ := (tltUpdate_eq_some hk).mp he
  refine ⟨_, ht, fun c => ?_⟩
  rw [updateMeets_eq_with]
  simp only [hst, decide_false] at hbelow hend ⊢
  exact mem_seen_iff hbelow hend c

theorem not_updateMeets_zero {t : Tlt} {e : Status} {key c : ℕ} : ¬ UpdateMeets t e key 0 c := by
  rintro ⟨n, hc, hn⟩
  cases n with
  | zero => cases hc
  | succ n => exact absurd (hn n (Nat.lt_succ_self n)) (Nat.not_lt_zero _)

/-! ### In the address space -/

section Space

variable {t : Tlt} {e : Status} {key size : ℕ}

theorem Tlt.Inv.length_eq (h : t.Inv) {n c : ℕ} (hs : slot t n = some c) (h48 : (t.info c).endAddr ≤ 2 ^ 48) :
    (t.info c).endAddr % 8 = 0 ∧
      (t.info c).length = (t.info c).endAddr - roundDownTo (t.info c).startAddr 8 := by
  have hmod := h.slot_end_mod hs h48
  have hrange := h.range hs h48
  refine ⟨hmod, ?_⟩
  unfold ChunkInfo.length
  unfold ChunkInfo.endAddr at h48 hmod hrange ⊢
  rw [uadd_eq (by omega), roundUpTo_eight (by omega)]
  unfold roundDownTo
  omega

variable (h : t.Inv) (h48 : ∀ n c, slot t n = some c → (t.info c).endAddr ≤ 2 ^ 48)

include h h48

theorem updateWalk_grows {again : Bool} {alignedKey n : ℕ}
    (hi : (updateWalkWith again t e alignedKey n).1 < size) (hsz : size ≤ 2 ^ 63) :
    (updateWalkWith again t e alignedKey n).1 + 8 ≤ (updateWalkWith again t e alignedKey (n + 1)).1 := by
  rw [updateWalkWith]
  simp only
  split
  · rename_i c hc
    obtain ⟨hs, -⟩ := expectedAt_eq_some.mp (Option.filter_eq_some_iff.mp hc).1
    have hend := h48 _ c hs
    have hlen := (h.length_eq hs hend).2
    rw [uadd_eq (show (updateWalkWith again t e alignedKey n).1 + (t.info c).length < 2 ^ 64 by omega),
      uadd_eq (by omega)]
    omega
  · rw [uadd_eq (by omega)]

/-- The walk comes to every size without a wrap. -/
theorem updateWalk_ends (again : Bool) (key : ℕ) (hsz : size ≤ 2 ^ 63) :
    ∃ m ≤ size, (∀ j < m, (updateWalkWith again t e (roundDownTo key 8) j).1 < size) ∧
      size ≤ (updateWalkWith again t e (roundDownTo key 8) m).1 := by
  have hgo : ∀ n, (∀ j < n, (updateWalkWith again t e (roundDownTo key 8) j).1 < size) →
      n ≤ (updateWalkWith again t e (roundDownTo key 8) n).1 := by
    intro n
    induction n with
    | zero => exact fun _ => Nat.zero_le _
    | succ n ih =>
      intro hb
      have := ih fun j hj => hb j (Nat.lt_succ_of_lt hj)
      have := updateWalk_grows h h48 (hb n (Nat.lt_succ_self n)) hsz
      omega
  have hex : ∃ m, size ≤ (updateWalkWith again t e (roundDownTo key 8) m).1 := by
    by_contra hno
    have hall : ∀ j, (updateWalkWith again t e (roundDownTo key 8) j).1 < size := fun j => by
      by_contra hj
      exact hno ⟨j, by omega⟩
    have := hgo size fun j _ => hall j
    have := hall size
    omega
  have hbelow : ∀ j < Nat.find hex, (updateWalkWith again t e (roundDownTo key 8) j).1 < size := fun j hj =>
    Nat.lt_of_not_le (Nat.find_min hex hj)
  refine ⟨Nat.find hex, ?_, hbelow, Nat.find_spec hex⟩
  by_contra hlt
  have := hgo size fun j hj => hbelow j (by omega)
  have := hbelow size (by omega)
  omega

/-- **`tlt_update` returns**, for sizes without a wrap. -/
theorem tltUpdate_returns {status : Status} (fs tid : ℕ) (hsz : size ≤ 2 ^ 63) :
    ∃ t', tltUpdate t key size status e fs tid = some t' := by
  by_cases hk : key = 0
  · exact ⟨t, if_pos hk⟩
  · obtain ⟨m, hm, hbelow, hend⟩ := updateWalk_ends h h48 (e := e) (decide (status = e)) key hsz
    exact ⟨_, (tltUpdate_eq_some hk).mpr ⟨m, hm, rfl, hbelow, hend⟩⟩

omit h h48

/-- The chunk of the expected status on a granule, counted from the key's. -/
def ownerFrom (t : Tlt) (e : Status) (key i : ℕ) : Option ℕ :=
  if roundDownTo key 8 + 8 * i < 2 ^ 48 then expectedAt t e (roundDownTo key 8 + 8 * i) else none

/-- The granules of a chunk. -/
def Tlt.cells (t : Tlt) (c : ℕ) : ℕ := (t.info c).length / 8

/-- The first granule of a chunk that does not start before the key's granule. -/
def Tlt.firstCell (t : Tlt) (key c : ℕ) : ℕ := (t.info c).startAddr / 8 - key / 8

theorem ownerFrom_eq_some {i c : ℕ} : ownerFrom t e key i = some c ↔
    key / 8 + i < 2 ^ 45 ∧ slot t (key / 8 + i) = some c ∧ (t.info c).status ≠ .none ∧ (t.info c).status = e := by
  have ha : roundDownTo key 8 + 8 * i = 8 * (key / 8 + i) := by
    unfold roundDownTo
    omega
  unfold ownerFrom
  rw [ha]
  by_cases hi : key / 8 + i < 2 ^ 45
  · have hg : granule (8 * (key / 8 + i)) = key / 8 + i := by
      unfold granule
      omega
    rw [if_pos (by omega), expectedAt_eq_some, hg, and_iff_right hi]
  · rw [if_neg (by omega)]
    exact iff_of_false (by simp) fun hn => hi hn.1

include h h48

theorem ownerFrom_range {i c : ℕ} (ho : ownerFrom t e key i = some c) :
    (t.info c).startAddr / 8 ≤ key / 8 + i ∧ key / 8 + i < (t.info c).endAddr / 8 ∧
      (t.info c).endAddr % 8 = 0 ∧ t.cells c = (t.info c).endAddr / 8 - (t.info c).startAddr / 8 := by
  obtain ⟨-, hs, -⟩ := ownerFrom_eq_some.mp ho
  have hend := h48 _ c hs
  obtain ⟨h1, h2⟩ := h.range hs hend
  obtain ⟨hmod, hlen⟩ := h.length_eq hs hend
  unfold Tlt.cells
  rw [hlen]
  unfold roundDownTo at h1 ⊢
  omega

/-- A chunk that the walk met is not on the walk again. -/
theorem ownerFrom_cell_ne {m n c : ℕ} (hmn : m < n)
    (hm : ownerFrom t e key (cell (ownerFrom t e key) t.cells m) = some c) :
    ownerFrom t e key (cell (ownerFrom t e key) t.cells n) ≠ some c := by
  intro hn
  have hle := next_cell_le (@cell_strictMono _ (ownerFrom t e key) t.cells _ _ hmn)
  rw [next_of_some hm] at hle
  have := ownerFrom_range h h48 hm
  have := ownerFrom_range h h48 hn
  omega

/-- **One iteration** at the granule `x`, where no chunk is found that was met before. -/
theorem updateWalk_step {again : Bool} (hsp : key + size ≤ 2 ^ 48) {n x : ℕ} (hlt : 8 * x < size)
    (hoff : (updateWalkWith again t e (roundDownTo key 8) n).1 = 8 * x)
    (hnew : ∀ c, ownerFrom t e key x = some c → c ∉ (updateWalkWith again t e (roundDownTo key 8) n).2) :
    (updateWalkWith again t e (roundDownTo key 8) (n + 1)).1 = 8 * next (ownerFrom t e key) t.cells x ∧
      ∀ c, c ∈ (updateWalkWith again t e (roundDownTo key 8) (n + 1)).2 ↔
        c ∈ (updateWalkWith again t e (roundDownTo key 8) n).2 ∨ ownerFrom t e key x = some c := by
  have hround := roundDownTo_le key 8
  have hown : expectedAt t e (uadd (roundDownTo key 8) (8 * x)) = ownerFrom t e key x := by
    rw [uadd_eq (by omega)]
    unfold ownerFrom
    rw [if_pos (by omega)]
  rw [updateWalkWith]
  simp only
  rw [hoff, hown]
  cases ho : ownerFrom t e key x with
  | none =>
    rw [next_of_none ho, Option.filter_none]
    refine ⟨?_, fun c => by simp⟩
    simp only
    rw [uadd_eq (by omega)]
    omega
  | some d =>
    have hd : d ∉ (updateWalkWith again t e (roundDownTo key 8) n).2 := hnew d ho
    have hfilter : ((some d).filter fun c => again = true ∨ c ∉ (updateWalkWith again t e (roundDownTo key 8) n).2) =
        some d := by
      simp [Option.filter, hd]
    rw [hfilter, next_of_some ho]
    obtain ⟨-, hs, -⟩ := ownerFrom_eq_some.mp ho
    have hend := h48 _ d hs
    obtain ⟨hmod, hlen⟩ := h.length_eq hs hend
    have hcells : 8 * t.cells d = (t.info d).length := by
      unfold Tlt.cells
      rw [hlen]
      unfold roundDownTo
      omega
    refine ⟨?_, fun c => ?_⟩
    · simp only
      rw [uadd_eq (show 8 * x + (t.info d).length < 2 ^ 64 by omega), uadd_eq (by omega)]
      omega
    · rw [List.mem_cons, or_comm, Option.some.injEq, eq_comm (a := c)]

/-- **The walk of the loop** in the address space is a walk over granules. -/
theorem updateWalk_eq (again : Bool) (hsp : key + size ≤ 2 ^ 48) : ∀ n,
    (∀ m < n, 8 * cell (ownerFrom t e key) t.cells m < size) →
      (updateWalkWith again t e (roundDownTo key 8) n).1 = 8 * cell (ownerFrom t e key) t.cells n ∧
      ∀ c, c ∈ (updateWalkWith again t e (roundDownTo key 8) n).2 ↔
        ∃ m < n, ownerFrom t e key (cell (ownerFrom t e key) t.cells m) = some c := by
  intro n
  induction n with
  | zero =>
    intro _
    exact ⟨rfl, fun c => by simp [updateWalkWith]⟩
  | succ n ih =>
    intro hbelow
    obtain ⟨hoff, hseen⟩ := ih fun m hm => hbelow m (Nat.lt_succ_of_lt hm)
    have hnew : ∀ c, ownerFrom t e key (cell (ownerFrom t e key) t.cells n) = some c →
        c ∉ (updateWalkWith again t e (roundDownTo key 8) n).2 := by
      intro c ho hc
      obtain ⟨m, hm, hcm⟩ := (hseen c).mp hc
      exact ownerFrom_cell_ne h h48 hm hcm ho
    obtain ⟨hoff', hseen'⟩ := updateWalk_step h h48 hsp (hbelow n (Nat.lt_succ_self n)) hoff hnew
    refine ⟨hoff', fun c => ?_⟩
    rw [hseen', hseen, Nat.exists_lt_succ_right]

/-- **Which chunks the loop meets** in the address space. -/
theorem updateMeetsWith_iff (again : Bool) (hsp : key + size ≤ 2 ^ 48) (c : ℕ) :
    UpdateMeetsWith again t e key size c ↔ Meets (ownerFrom t e key) t.cells ((size + 7) / 8) c := by
  have hbelow : ∀ n, (∀ m < n, (updateWalkWith again t e (roundDownTo key 8) m).1 < size) →
      ∀ m < n, 8 * cell (ownerFrom t e key) t.cells m < size := by
    intro n
    induction n with
    | zero => exact fun _ m hm => absurd hm (Nat.not_lt_zero m)
    | succ n ih =>
      intro hw m hm
      have hn := ih fun m hm => hw m (Nat.lt_succ_of_lt hm)
      by_cases he : m = n
      · rw [he, ← (updateWalk_eq h h48 again hsp n hn).1]
        exact hw n (Nat.lt_succ_self n)
      · exact hn m (by omega)
  constructor
  · rintro ⟨n, hc, hw⟩
    have hn := hbelow n hw
    obtain ⟨m, hm, hown⟩ := ((updateWalk_eq h h48 again hsp n hn).2 c).mp hc
    have := hn m hm
    exact ⟨m, by omega, hown⟩
  · rintro ⟨n, hn, hown⟩
    have hall : ∀ m < n + 1, 8 * cell (ownerFrom t e key) t.cells m < size := by
      intro m hm
      have hle : cell (ownerFrom t e key) t.cells m ≤ cell (ownerFrom t e key) t.cells n :=
        cell_strictMono.monotone (Nat.le_of_lt_succ hm)
      omega
    refine ⟨n + 1, ((updateWalk_eq h h48 again hsp (n + 1) hall).2 c).mpr ⟨n, Nat.lt_succ_self n, hown⟩, fun m hm => ?_⟩
    rw [(updateWalk_eq h h48 again hsp m fun j hj => hall j (by omega)).1]
    exact hall m hm

theorem updateMeets_iff (hsp : key + size ≤ 2 ^ 48) (c : ℕ) :
    UpdateMeets t e key size c ↔ Meets (ownerFrom t e key) t.cells ((size + 7) / 8) c := by
  rw [updateMeets_eq_with]
  exact updateMeetsWith_iff h h48 false hsp c

/-! ### Side by side -/

omit h h48

/-- The chunk has the status and an entry in `[key, key + size)`. -/
def Tlt.HasIn (t : Tlt) (e : Status) (key size c : ℕ) : Prop :=
  ∃ a, key ≤ a ∧ a < key + size ∧ tltGet t a = some c ∧ (t.info c).status = e

/-- The chunks of the status in `[key, key + size)` lie in it side by side:
each has all entries of its range. -/
def LaidOut (t : Tlt) (e : Status) (key size : ℕ) : Prop :=
  ∀ c, t.HasIn e key size c → key ≤ (t.info c).startAddr ∧ (t.info c).endAddr ≤ key + size ∧
    ∀ a, (t.info c).startAddr ≤ a → a < (t.info c).endAddr → tltGet t a = some c

theorem hasIn_iff (hk : key ≠ 0) (h0 : 0 < size) (hsp : key + size ≤ 2 ^ 48) {c : ℕ} :
    t.HasIn e key size c ↔ ∃ i < (key + size + 7) / 8 - key / 8, ownerFrom t e key i = some c := by
  constructor
  · rintro ⟨a, h1, h2, hget, hst⟩
    obtain ⟨-, hs, hne⟩ := tltGet_eq_some.mp hget
    have hg : granule a = key / 8 + (a / 8 - key / 8) := by
      unfold granule
      omega
    exact ⟨a / 8 - key / 8, by omega, ownerFrom_eq_some.mpr ⟨by omega, hg ▸ hs, hne, hst⟩⟩
  · rintro ⟨i, hi, ho⟩
    obtain ⟨-, hs, hne, hst⟩ := ownerFrom_eq_some.mp ho
    have hg : granule (max key (8 * (key / 8 + i))) = key / 8 + i := by
      unfold granule
      omega
    exact ⟨max key (8 * (key / 8 + i)), by omega, by omega,
      tltGet_eq_some.mpr ⟨by omega, hg.symm ▸ hs, hne⟩, hst⟩

include h h48

theorem LaidOut.sideBySide (hl : LaidOut t e key size) (hk : key ≠ 0) (h0 : 0 < size)
    (hsp : key + size ≤ 2 ^ 48) :
    SideBySide (ownerFrom t e key) (t.firstCell key) t.cells ((key + size + 7) / 8 - key / 8) where
  only i c hi hc j hj := by
    obtain ⟨hstart, -⟩ := hl c ((hasIn_iff hk h0 hsp).mpr ⟨i, hi, hc⟩)
    have := ownerFrom_range h h48 hj
    unfold Tlt.firstCell
    omega
  whole i c hi hc j h1 h2 := by
    obtain ⟨hstart, hend, hall⟩ := hl c ((hasIn_iff hk h0 hsp).mpr ⟨i, hi, hc⟩)
    have hrange := ownerFrom_range h h48 hc
    unfold Tlt.firstCell at h1 h2
    have hget := hall (max (t.info c).startAddr (8 * (key / 8 + j))) (by omega) (by omega)
    obtain ⟨-, hs, hne⟩ := tltGet_eq_some.mp hget
    have hg : granule (max (t.info c).startAddr (8 * (key / 8 + j))) = key / 8 + j := by
      unfold granule
      omega
    exact ownerFrom_eq_some.mpr ⟨by omega, hg ▸ hs, hne, (ownerFrom_eq_some.mp hc).2.2.2⟩
  below i c hi hc := by
    obtain ⟨hstart, hend, -⟩ := hl c ((hasIn_iff hk h0 hsp).mpr ⟨i, hi, hc⟩)
    have hrange := ownerFrom_range h h48 hc
    unfold Tlt.firstCell
    omega

/-- **Which layouts the loop meets as a whole**: `tlt_update(key, size, s, e)`
meets all chunks of status `e` that lie side by side in `[key, key + n)`
exactly if for each of them, and each granule up to its first one, the chunks
that end in between are fewer than its granules below `size` and the granules
without such a chunk in between. -/
theorem updateMeets_all_iff {n : ℕ} (hk : key ≠ 0) (hl : LaidOut t e key n) (hn : key + n ≤ 2 ^ 48)
    (hsp : key + size ≤ 2 ^ 48) :
    (∀ c, t.HasIn e key n c → UpdateMeets t e key size c) ↔
      ∀ c, t.HasIn e key n c → ∀ x ≤ t.firstCell key c,
        t.firstCell key c + ends (ownerFrom t e key) (t.firstCell key) t.cells x (t.firstCell key c) <
          min (t.firstCell key c + t.cells c) ((size + 7) / 8) +
            gaps (ownerFrom t e key) x (t.firstCell key c) := by
  by_cases hn0 : n = 0
  · -- an empty block has no entries
    have hno : ∀ c, ¬ t.HasIn e key n c := by
      rintro c ⟨a, h1, h2, -⟩
      omega
    exact iff_of_true (fun c hc => absurd hc (hno c)) fun c hc => absurd hc (hno c)
  have h0 : 0 < n := Nat.pos_of_ne_zero hn0
  have hall := (hl.sideBySide h h48 hk h0 hn).meets_all_iff ((size + 7) / 8)
  constructor
  · intro hmeet c hc
    obtain ⟨i, hi, ho⟩ := (hasIn_iff hk h0 hn).mp hc
    refine hall.mp (fun j d hj hd => ?_) i c hi ho
    exact (updateMeets_iff h h48 hsp d).mp (hmeet d ((hasIn_iff hk h0 hn).mpr ⟨j, hj, hd⟩))
  · intro hlt c hc
    obtain ⟨i, hi, ho⟩ := (hasIn_iff hk h0 hn).mp hc
    refine (updateMeets_iff h h48 hsp c).mpr (hall.mpr (fun j d hj hd => ?_) i c hi ho)
    exact hlt d ((hasIn_iff hk h0 hn).mpr ⟨j, hj, hd⟩)

end Space

end Cmasan
