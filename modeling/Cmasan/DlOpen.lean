/-
# The second copy of the scanner

`CMASanOnDlOpen` does for the cache file of an opened library what
`InitializeCMAInformation` does in its shared-library mode, with a copy of the
code. The copy never moves `whitelist_count` and looks every line up under the
first line's name, so it ends like the original only where neither adds
anything (`onDlOpen_eq_initSharedMode_iff`).

Key definitions: `initSharedMode`, `PcTables.atEnd`.
Key theorems: `initSharedMode_eq`, `whitelistCount_onDlOpen`,
`onDlOpen_eq_initSharedMode_iff`.
-/
import Cmasan.PcInit

namespace Cmasan

open Lib

variable (L : PcLoader) (dlsym : List UInt8 → ℕ)

/-- The shared-library mode of `InitializeCMAInformation` on the lines of `es`. -/
def initSharedMode (es : List CacheEntry) (t : PcTables) : Except PcTables PcTables :=
  ((initParser L dlsym).scan L (es.flatMap CacheEntry.format) {} ⟨t, true, true⟩).map InitState.tables

theorem initSharedMode_eq {es : List CacheEntry} (h : ∀ e ∈ es, e.NoDash) (t : PcTables) :
    initSharedMode L dlsym es t = t.addRanges (es.filterMap (CacheEntry.resolved L dlsym)) :=
  scan_initShared L dlsym h PcScan.atLine_start true t

namespace PcTables

/-- The tables when a call has ended, be it at a CHECK. -/
def atEnd : Except PcTables PcTables → PcTables
  | .ok t => t
  | .error t => t

theorem atEnd_checkCounts (t : PcTables) : atEnd t.checkCounts = t := by
  unfold checkCounts
  split <;> rfl

/-- **What every line keeps**, a call keeps: a relation to the tables before. -/
theorem atEnd_foldlM {α : Type} {f : PcTables → α → Except PcTables PcTables} {R : PcTables → PcTables → Prop}
    (hrefl : ∀ t, R t t) (htrans : ∀ {t₁ t₂ t₃}, R t₁ t₂ → R t₂ t₃ → R t₁ t₃)
    (hline : ∀ t a, R t (atEnd (f t a))) : ∀ (as : List α) (t : PcTables), R t (atEnd (as.foldlM f t))
  | [], t => hrefl t
  | a :: as, t => by
    have ha := hline t a
    rw [List.foldlM_cons]
    cases hf : f t a with
    | error t' =>
      rw [hf] at ha
      exact ha
    | ok t' =>
      rw [hf] at ha
      exact htrans ha (atEnd_foldlM hrefl htrans hline as t')

theorem whitelistCount_addRange (t : PcTables) (p : (ℕ × ℕ) × Bool) :
    (atEnd (t.addRange p.1 p.2)).whitelistCount = t.whitelistCount + 1 := by
  rw [addRange_eq, atEnd_checkCounts, whitelistCount_afterRange]

theorem whitelistCount_addRanges_le (ps : List ((ℕ × ℕ) × Bool)) (t : PcTables) :
    t.whitelistCount ≤ (atEnd (t.addRanges ps)).whitelistCount := by
  apply atEnd_foldlM (R := fun t t' => t.whitelistCount ≤ t'.whitelistCount) (fun _ => Nat.le_refl _) Nat.le_trans
  intro t p
  rw [whitelistCount_addRange]
  exact Nat.le_succ _

theorem whitelistCount_addRanges_lt {ps : List ((ℕ × ℕ) × Bool)} (hps : ps ≠ []) (t : PcTables) :
    t.whitelistCount < (atEnd (t.addRanges ps)).whitelistCount := by
  obtain ⟨p, ps, rfl⟩ := List.exists_cons_of_ne_nil hps
  have hp := t.whitelistCount_addRange p
  rw [addRanges, List.foldlM_cons]
  cases hadd : t.addRange p.1 p.2 with
  | error t' =>
    rw [hadd] at hp
    exact Nat.lt_of_succ_le (Nat.le_of_eq hp.symm)
  | ok t' =>
    rw [hadd] at hp
    exact Nat.lt_of_lt_of_le (Nat.lt_of_succ_le (Nat.le_of_eq hp.symm)) (whitelistCount_addRanges_le ps t')

end PcTables

open PcTables

variable {L dlsym}

/-- What a line does to the tables before the CHECK, where the name is found. -/
theorem dlOpenLine_found {l : PcLine} (h : dlsym l.functionName ≠ 0) (t : PcTables) :
    ∃ t' : PcTables, dlOpenLine dlsym l t = t'.checkCounts ∧ t'.whitelistCount = t.whitelistCount ∧
      t'.cmaCount = t.cmaCount + (if l.isOnlyInWhitelist then 1 else 2) ∧
      t'.writes = t.writes ++ (.whitelist, t.whitelistCount) ::
        if l.isOnlyInWhitelist then [] else [(.cma, t.cmaCount + 1)] := by
  refine ⟨_, if_neg h, ?_⟩
  cases l.isOnlyInWhitelist with
  | true => exact ⟨rfl, rfl, rfl⟩
  | false => exact ⟨rfl, rfl, List.append_assoc _ _ _⟩

theorem whitelistCount_dlOpenLine (l : PcLine) (t : PcTables) :
    (atEnd (dlOpenLine dlsym l t)).whitelistCount = t.whitelistCount := by
  by_cases h : dlsym l.functionName = 0
  · have hline : dlOpenLine dlsym l t = .ok t := if_pos h
    rw [hline]
    rfl
  · obtain ⟨t', hline, hcount, -⟩ := dlOpenLine_found h t
    rw [hline, atEnd_checkCounts, hcount]

/-- **`CMASanOnDlOpen` never moves `whitelist_count`.** -/
theorem whitelistCount_onDlOpen (es : List CacheEntry) (t : PcTables) :
    (atEnd (onDlOpen L dlsym (runPcExtractor true es []) t)).whitelistCount = t.whitelistCount := by
  cases es with
  | nil => rfl
  | cons e es =>
    rw [onDlOpen_eq]
    apply atEnd_foldlM (R := fun t t' => t'.whitelistCount = t.whitelistCount) (fun _ => rfl)
      (fun h h' => h'.trans h)
    exact fun t e' => whitelistCount_dlOpenLine (e'.line L e.functionName) t

theorem onDlOpen_unresolved {e : CacheEntry} (h : dlsym e.functionName = 0) (es : List CacheEntry) (t : PcTables) :
    onDlOpen L dlsym (runPcExtractor true (e :: es) []) t = .ok t := by
  have hline : ∀ e' : CacheEntry, dlOpenLine dlsym (e'.line L e.functionName) t = .ok t := fun _ => if_pos h
  have hlines : ∀ es' : List CacheEntry,
      es'.foldlM (fun t e' => dlOpenLine dlsym (e'.line L e.functionName) t) t = .ok t := by
    intro es'
    induction es' with
    | nil => rfl
    | cons e' es' ih =>
      rw [List.foldlM_cons, hline e']
      exact ih
  rw [onDlOpen_eq, hlines]

theorem resolved_eq_none {e : CacheEntry} : e.resolved L dlsym = none ↔ dlsym e.functionName = 0 := by
  by_cases h : dlsym e.functionName = 0
  · exact ⟨fun _ => h, fun _ => if_pos h⟩
  · have hsome : e.resolved L dlsym = some _ := if_neg h
    rw [hsome]
    exact ⟨fun hnone => (by cases hnone), fun h0 => absurd h0 h⟩

variable (L dlsym)

/-- **The copy against the original.** In the shared-library mode each entry
that is found adds its range; `CMASanOnDlOpen` does the same exactly where no
entry is found. -/
theorem onDlOpen_eq_initSharedMode_iff (es : List CacheEntry) (t : PcTables) :
    ((∀ e ∈ es, e.NoDash) →
      initSharedMode L dlsym es t = t.addRanges (es.filterMap (CacheEntry.resolved L dlsym))) ∧
    (onDlOpen L dlsym (runPcExtractor true es []) t = t.addRanges (es.filterMap (CacheEntry.resolved L dlsym)) ↔
      ∀ e ∈ es, dlsym e.functionName = 0) := by
  refine ⟨fun hdash => initSharedMode_eq L dlsym hdash t, ?_, ?_⟩
  · intro heq e he
    by_contra hne
    have hsome : es.filterMap (CacheEntry.resolved L dlsym) ≠ [] := by
      intro hnil
      exact hne (resolved_eq_none.mp (List.filterMap_eq_nil_iff.mp hnil e he))
    have hlt := whitelistCount_addRanges_lt hsome t
    rw [← heq, whitelistCount_onDlOpen] at hlt
    exact Nat.lt_irrefl _ hlt
  · intro hnone
    have hnil : es.filterMap (CacheEntry.resolved L dlsym) = [] :=
      List.filterMap_eq_nil_iff.mpr fun e he => resolved_eq_none.mpr (hnone e he)
    rw [hnil]
    cases es with
    | nil => rfl
    | cons e es => exact onDlOpen_unresolved (hnone e List.mem_cons_self) es t

/-- `pool` and `obj` of one library, both found: the whitelist stays empty, and
the CMA table gets an empty slot before the range of `pool` and one behind it. -/
theorem onDlOpen_two_entries :
    let dlsym := fun name => if name = objNew.functionName then 0x1000 else 0x2000
    let opened := (onDlOpen sampleLoader dlsym (runPcExtractor true [poolGet, objNew] []) {}).toOption
    let expected := (initSharedMode sampleLoader dlsym [poolGet, objNew] {}).toOption
    opened.map whitelistRanges = some [] ∧
    opened.map cmaRanges = some [(0, 0), (0x2000, 0x205c), (0, 0)] ∧
    expected.map whitelistRanges = some [(0x2000, 0x205c), (0x1000, 0x106c)] ∧
    expected.map cmaRanges = some [(0x2000, 0x205c)] := by
  decide +kernel

end Cmasan
