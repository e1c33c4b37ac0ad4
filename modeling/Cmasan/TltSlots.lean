/-
# The table as a function from granules

The two layers together are one function from the 2^45 granules of the 48-bit
address space to infos: `slot t n`. The masks and shifts of a key pick the
slot of its granule (`topIdx_eq`, `secondIdx_eq`), different granules have
different slots as long as different top entries name different tables
(`Tlt.WF`), and creating a table changes no slot. One page of the fill of
`tlt_insert` repoints one slot of the table, seen as counted references
(`fillPage_refs`).

Key definitions: `granule`, `slot`, `Tlt.WF`, `ChunkInfo.core`, `Tlt.refs`.
Key theorems: `tltGetInternal_eq`, `tltGetOrCreatePage_spec`, `fillPage_refs`.
-/
import Cmasan.Tlt
import Cmasan.Lib.RefCount

namespace Cmasan

open Lib

/-- The granule of an address, as the table sees it. -/
def granule (key : ℕ) : ℕ := key / 8 % 2 ^ 45

/-- The page of granule `n`. -/
def slot (t : Tlt) (n : ℕ) : Option ℕ :=
  (t.topLayerTable (n / 2 ^ 23)).bind fun tab => t.pages tab (n % 2 ^ 23)

theorem topIdx_eq (key : ℕ) : topIdx key = granule key / 2 ^ 23 := by
  have h1 : (0xFFFFFC000000 : ℕ) >>> 26 = 2 ^ 22 - 1 := by decide
  have h2 : (0x3FFFFF : ℕ) = 2 ^ 22 - 1 := by decide
  unfold topIdx granule
  rw [Nat.shiftRight_and_distrib, h1, h2, Nat.and_assoc, Nat.and_self,
    Nat.and_two_pow_sub_one_eq_mod, Nat.shiftRight_eq_div_pow]
  omega

theorem secondIdx_eq (key : ℕ) : secondIdx key = granule key % 2 ^ 23 := by
  have h : (0x7FFFFF : ℕ) = 2 ^ 23 - 1 := by decide
  unfold secondIdx granule
  rw [h, Nat.and_two_pow_sub_one_eq_mod, Nat.shiftRight_eq_div_pow]
  omega

/-- What `_tlt_get_internal` reads: the slot of the granule, unless its info has status `NONE`. -/
theorem tltGetInternal_eq (t : Tlt) (key : ℕ) :
    tltGetInternal t key =
      (slot t (granule key)).filter fun c => (t.info c).status ≠ .none := by
  unfold tltGetInternal tltGetPageMayNull slot
  rw [topIdx_eq, secondIdx_eq]
  cases ht : t.topLayerTable (granule key / 2 ^ 23) with
  | none => rfl
  | some tab =>
    simp only [Option.map_some, Option.bind_some]
    cases hp : t.pages tab (granule key % 2 ^ 23) with
    | none => rfl
    | some c =>
      by_cases hc : (t.info c).status = .none <;> simp [Option.filter, hc]

theorem tltGet_eq_some {t : Tlt} {key c : ℕ} :
    tltGet t key = some c ↔
      key ≠ 0 ∧ slot t (granule key) = some c ∧ (t.info c).status ≠ .none := by
  unfold tltGet
  split
  · simp [*]
  · rename_i h
    rw [tltGetInternal_eq, Option.filter_eq_some_iff]
    simp [h]

/-! ### Well-formed tables -/

/-- Second-level tables are named in order of creation, each top entry has its
own, and what was not created yet is empty. -/
structure Tlt.WF (t : Tlt) : Prop where
  top_lt : ∀ i tab, t.topLayerTable i = some tab → tab < t.numSecondTable
  top_inj : ∀ i j tab, t.topLayerTable i = some tab → t.topLayerTable j = some tab → i = j
  unused : ∀ tab i, t.numSecondTable ≤ tab → t.pages tab i = none

theorem initializeTlt_wf : initializeTlt.WF :=
  ⟨fun _ _ h => by simp [initializeTlt] at h, fun _ _ _ h => by simp [initializeTlt] at h,
    fun _ _ _ => rfl⟩

@[simp] theorem slot_setInfo (t : Tlt) (c : ℕ) (i : ChunkInfo) : slot (t.setInfo c i) = slot t := rfl

theorem Tlt.WF.setInfo {t : Tlt} (h : t.WF) (c : ℕ) (i : ChunkInfo) : (t.setInfo c i).WF :=
  ⟨h.top_lt, h.top_inj, h.unused⟩

/-- **Finding or creating a table** changes no slot. -/
theorem tltGetOrCreatePage_spec {t t' : Tlt} (h : t.WF) {key tab i : ℕ}
    (he : tltGetOrCreatePage t key = ((tab, i), t')) :
    i = granule key % 2 ^ 23 ∧ t'.topLayerTable (granule key / 2 ^ 23) = some tab ∧ t'.WF ∧
      slot t' = slot t ∧ t'.info = t.info ∧ t'.freed = t.freed ∧ t'.nextInfo = t.nextInfo := by
  unfold tltGetOrCreatePage at he
  rw [topIdx_eq, secondIdx_eq] at he
  cases hx : t.topLayerTable (granule key / 2 ^ 23) with
  | some tab₀ =>
    rw [hx] at he
    simp only [Prod.mk.injEq] at he
    obtain ⟨⟨rfl, rfl⟩, rfl⟩ := he
    exact ⟨rfl, hx, h, rfl, rfl, rfl, rfl⟩
  | none =>
    rw [hx] at he
    simp only [Prod.mk.injEq] at he
    obtain ⟨⟨rfl, rfl⟩, rfl⟩ := he
    refine ⟨rfl, by simp, ⟨fun j tab hj => ?_, fun j k tab hj hk => ?_, fun tab j hj => ?_⟩, ?_,
      rfl, rfl, rfl⟩
    · simp only [Function.update_apply] at hj ⊢
      split at hj
      · obtain rfl := Option.some.inj hj; omega
      · have := h.top_lt j tab hj; omega
    · simp only [Function.update_apply] at hj hk
      split at hj <;> split at hk
      · omega
      · obtain rfl := Option.some.inj hj; exact absurd (h.top_lt k _ hk) (by omega)
      · obtain rfl := Option.some.inj hk; exact absurd (h.top_lt j _ hj) (by omega)
      · exact h.top_inj j k tab hj hk
    · exact h.unused tab j (by simp only at hj; omega)
    · funext n
      simp only [slot, Function.update_apply]
      split
      · rename_i hn
        rw [hn, hx]
        exact h.unused _ _ (le_refl _)
      · rfl

/-! ### Filling pages -/

/-- The fields of an info other than its count. -/
def ChunkInfo.core (i : ChunkInfo) : ChunkInfo := { i with cnt := 0 }

theorem ChunkInfo.core_eq_iff {i j : ChunkInfo} : i.core = j.core ↔
    i.startAddr = j.startAddr ∧ i.chunkSize = j.chunkSize ∧ i.rzSize = j.rzSize ∧
      i.status = j.status ∧ i.cmaId = j.cmaId ∧ i.allocStackId = j.allocStackId ∧
      i.allocThreadId = j.allocThreadId ∧ i.freeStackId = j.freeStackId ∧
      i.freeThreadId = j.freeThreadId := by
  cases i; cases j
  simp [ChunkInfo.core]

/-- The table seen as counted references. -/
def Tlt.refs (t : Tlt) : RefTable ℕ ℕ := ⟨slot t, fun c => (t.info c).cnt, t.freed⟩

theorem tltReleaseChunkInfo_core (t : Tlt) (c c' : ℕ) :
    ((tltReleaseChunkInfo t c).info c').core = (t.info c').core := by
  simp only [tltReleaseChunkInfo, Function.update_apply]
  split
  · subst c'; rfl
  · rfl

/-- A page that is written is the slot of one granule. -/
theorem slot_write {t t' : Tlt} (h : t.WF) {tab n c : ℕ} (ht : t.topLayerTable (n / 2 ^ 23) = some tab)
    (htop : t'.topLayerTable = t.topLayerTable)
    (hpages : t'.pages =
      Function.update t.pages tab (Function.update (t.pages tab) (n % 2 ^ 23) (some c))) :
    slot t' = Function.update (slot t) n (some c) := by
  funext m
  simp only [slot, htop, hpages, Function.update_apply]
  cases hm : t.topLayerTable (m / 2 ^ 23) with
  | none =>
    have hmn : m ≠ n := by
      rintro rfl
      rw [ht] at hm
      cases hm
    simp [hmn]
  | some tab' =>
    simp only [Option.bind_some]
    by_cases hmn : m = n
    · subst hmn
      obtain rfl : tab = tab' := Option.some.inj (ht.symm.trans hm)
      simp
    · rw [if_neg hmn]
      by_cases htab : tab' = tab
      · -- another page of the same table
        subst htab
        have hq := h.top_inj _ _ _ hm ht
        have hr : m % 2 ^ 23 ≠ n % 2 ^ 23 := fun he => hmn (by omega)
        rw [if_pos rfl, Function.update_of_ne hr]
      · rw [if_neg htab]

/-- **One page of the fill**, on the counted references. -/
theorem fillPage_refs {t : Tlt} (h : t.WF) {tab i n : ℕ}
    (ht : t.topLayerTable (n / 2 ^ 23) = some tab) (hi : i = n % 2 ^ 23) (c : ℕ) :
    (fillPage t tab i c).refs = t.refs.point n c := by
  subst hi
  have hsn : slot t n = t.pages tab (n % 2 ^ 23) := by simp only [slot, ht, Option.bind_some]
  unfold fillPage RefTable.point Tlt.refs
  simp only [hsn]
  cases hp : t.pages tab (n % 2 ^ 23) with
  | none => exact RefTable.mk.injEq .. ▸ ⟨slot_write h ht rfl rfl, rfl, rfl⟩
  | some c₀ =>
    simp only [RefTable.drop, RefTable.mk.injEq]
    refine ⟨slot_write h ht rfl rfl, ?_, rfl⟩
    funext c'
    simp only [tltReleaseChunkInfo, Function.update_apply]
    split
    · subst c'; rfl
    · rfl

theorem fillPage_core (t : Tlt) (tab i c c' : ℕ) :
    ((fillPage t tab i c).info c').core = (t.info c').core := by
  unfold fillPage
  simp only
  split
  · exact tltReleaseChunkInfo_core t _ c'
  · rfl

theorem fillPage_frame (t : Tlt) (tab i c : ℕ) :
    (fillPage t tab i c).topLayerTable = t.topLayerTable ∧
      (fillPage t tab i c).numSecondTable = t.numSecondTable ∧
      (fillPage t tab i c).nextInfo = t.nextInfo := by
  unfold fillPage
  simp only
  split <;> exact ⟨rfl, rfl, rfl⟩

theorem fillPage_wf {t : Tlt} (h : t.WF) {tab : ℕ} (ht : tab < t.numSecondTable) (i c : ℕ) :
    (fillPage t tab i c).WF := by
  obtain ⟨h1, h2, -⟩ := fillPage_frame t tab i c
  refine ⟨by rw [h1, h2]; exact h.top_lt, by rw [h1]; exact h.top_inj, fun tab' j hj => ?_⟩
  rw [h2] at hj
  have hne : tab' ≠ tab := by omega
  unfold fillPage
  simp only
  split <;> simpa [Function.update_of_ne hne, tltReleaseChunkInfo] using h.unused tab' j hj

end Cmasan
