/-
# What the cache file puts into the tables

`InitializeCMAInformation` relocates the static entries by the address of the
first one, the reference point, and looks up the entries behind the `'-'`
line. On a file of `run_pc_extractor` it ends with exactly these ranges in the
whitelist and with those that are not in the whitelist only in the CMA table
(`initializeCMAInformation_ranges`), as long as the tables have room.

Key definitions: `PcLine.relocate`, `PcLine.resolve`, `PcTables.addRanges`.
Key theorems: `initStatic_entries`, `initShared_entries`,
`initializeCMAInformation_ranges`.
-/
import Cmasan.PcScan
import Cmasan.Lib.Wrap

namespace Cmasan

open Lib

namespace PcTables

/-- The tables after one range, before the CHECK. -/
def afterRange (t : PcTables) (p : (ℕ × ℕ) × Bool) : PcTables :=
  if p.2 then t.addWhitelist p.1 else (t.addWhitelist p.1).addCma p.1

/-- The ranges one after the other. -/
def addRanges (t : PcTables) (ps : List ((ℕ × ℕ) × Bool)) : Except PcTables PcTables :=
  ps.foldlM (fun t p => t.addRange p.1 p.2) t

theorem addRange_eq (t : PcTables) (p : (ℕ × ℕ) × Bool) : t.addRange p.1 p.2 = (t.afterRange p).checkCounts := rfl

theorem checkCounts_ok {t : PcTables} (hc : t.cmaCount < cmaMaxN) (hw : t.whitelistCount < cmaMaxN) :
    t.checkCounts = .ok t := if_pos ⟨hc, hw⟩

theorem checkCounts_eq_ok {t t' : PcTables} (h : t.checkCounts = .ok t') :
    t' = t ∧ t.cmaCount < cmaMaxN ∧ t.whitelistCount < cmaMaxN := by
  unfold checkCounts at h
  split at h
  · cases h
    exact ⟨rfl, ‹_›⟩
  · cases h

theorem whitelistCount_afterRange (t : PcTables) (p : (ℕ × ℕ) × Bool) :
    (t.afterRange p).whitelistCount = t.whitelistCount + 1 := by
  unfold afterRange
  split <;> rfl

theorem cmaCount_afterRange (t : PcTables) (p : (ℕ × ℕ) × Bool) :
    (t.afterRange p).cmaCount = t.cmaCount + if p.2 then 0 else 1 := by
  unfold afterRange
  split <;> rfl

theorem baseAddress_afterRange (t : PcTables) (p : (ℕ × ℕ) × Bool) :
    (t.afterRange p).baseAddress = t.baseAddress := by
  unfold afterRange
  split <;> rfl

theorem whitelistRanges_afterRange (t : PcTables) (p : (ℕ × ℕ) × Bool) :
    (t.afterRange p).whitelistRanges = t.whitelistRanges ++ [p.1] := by
  have h : (t.afterRange p).whitelistRanges = (t.addWhitelist p.1).whitelistRanges := by
    unfold afterRange
    split <;> rfl
  rw [h]
  exact map_range_update t.whitelistPcRange t.whitelistCount p.1

theorem cmaRanges_afterRange (t : PcTables) (p : (ℕ × ℕ) × Bool) :
    (t.afterRange p).cmaRanges = t.cmaRanges ++ if p.2 then [] else [p.1] := by
  unfold afterRange
  split
  · exact (List.append_nil _).symm
  · exact map_range_update t.cmaPcRange t.cmaCount p.1

/-- **Ranges that fit** are added in order. -/
theorem addRanges_ok : ∀ (ps : List ((ℕ × ℕ) × Bool)) {t : PcTables}
    (_ : t.whitelistCount + ps.length < cmaMaxN) (_ : t.cmaCount ≤ t.whitelistCount),
    ∃ t', t.addRanges ps = .ok t' ∧
      t'.whitelistRanges = t.whitelistRanges ++ ps.map Prod.fst ∧
      t'.cmaRanges = t.cmaRanges ++ (ps.filter (!·.2)).map Prod.fst ∧
      t'.whitelistCount = t.whitelistCount + ps.length ∧ t'.cmaCount ≤ t'.whitelistCount
  | [], t, _, hc => ⟨t, rfl, by simp, by simp, rfl, hc⟩
  | p :: ps, t, hw, hc => by
    have hw1 := t.whitelistCount_afterRange p
    have hc1 := t.cmaCount_afterRange p
    have hle : (if p.2 then 0 else 1) ≤ 1 := by split <;> omega
    rw [List.length_cons] at hw
    obtain ⟨t', hadd, hwr, hcr, hwc, hcc⟩ := addRanges_ok ps (t := t.afterRange p) (by omega) (by omega)
    have hcheck := checkCounts_ok (t := t.afterRange p) (by omega) (by omega)
    refine ⟨t', ?_, ?_, ?_, ?_, hcc⟩
    · rw [addRanges, List.foldlM_cons, addRange_eq, hcheck]
      exact hadd
    · rw [hwr, whitelistRanges_afterRange]
      simp
    · rw [hcr, cmaRanges_afterRange]
      cases hp : p.2 <;> simp [hp]
    · rw [hwc, hw1, List.length_cons]
      omega

end PcTables

/-- A static line, relocated. -/
def PcLine.relocate (base : ℕ) (l : PcLine) : (ℕ × ℕ) × Bool :=
  ((uadd base l.functionStart, uadd base l.functionEnd), l.isOnlyInWhitelist)

/-- A line of a shared library, where its name is found. -/
def PcLine.resolve (dlsym : List UInt8 → ℕ) (l : PcLine) : Option ((ℕ × ℕ) × Bool) :=
  if dlsym l.functionName = 0 then none
  else some ((dlsym l.functionName, uadd (dlsym l.functionName) (usub l.functionEnd l.functionStart)),
    l.isOnlyInWhitelist)

/-- The numbers, the name and the flag of an entry. -/
def CacheEntry.own (e : CacheEntry) : PcLine := ⟨e.functionStart, e.functionEnd, e.functionName, e.isInWhitelist⟩

/-- No `'-'` in the name. -/
def CacheEntry.NoDash (e : CacheEntry) : Prop := '-'.toUInt8 ∉ e.functionName

/-- Both addresses are below `2^63`. -/
def CacheEntry.Addresses (e : CacheEntry) : Prop := e.functionStart < 2 ^ 63 ∧ e.functionEnd < 2 ^ 63

instance (e : CacheEntry) : Decidable e.NoDash := inferInstanceAs (Decidable (¬ _))

instance (e : CacheEntry) : Decidable e.Addresses := inferInstanceAs (Decidable (_ ∧ _))

theorem CacheEntry.line_eq_own {L : PcLoader} (hL : ∀ n < 2 ^ 63, L.strtoll (decimal n) = n) {e : CacheEntry}
    (h : e.Addresses) : e.line L e.functionName = e.own := by
  simp [line, own, hL _ h.1, hL _ h.2]

theorem initParser_plain {L : PcLoader} {dlsym : List UInt8 → ℕ} {e : CacheEntry} (h : e.NoDash) :
    ∀ b ∈ e.functionName, (initParser L dlsym).Plain b := by
  intro b hb
  obtain ⟨h0, hspace, hnewline⟩ := e.name_word b hb
  exact ⟨h0, hspace, hnewline, fun _ heq => h (heq ▸ hb)⟩

variable (L : PcLoader) (dlsym : List UInt8 → ℕ)

/-- What a static entry adds, as the runtime parses it. -/
def CacheEntry.relocated (base : ℕ) (e : CacheEntry) : (ℕ × ℕ) × Bool := (e.line L e.functionName).relocate base

/-- What an entry of a shared library adds, as the runtime parses it. -/
def CacheEntry.resolved (e : CacheEntry) : Option ((ℕ × ℕ) × Bool) := (e.line L e.functionName).resolve dlsym

/-- The lines of `es`, one after the other, each with its own name. -/
def initEntries (es : List CacheEntry) (st : InitState) : Except PcTables InitState :=
  es.foldlM (fun st e => (initParser L dlsym).onLine (e.line L e.functionName) st) st

/-- The scanner of `InitializeCMAInformation` takes the lines of `es` so. -/
theorem scan_initEntries {es : List CacheEntry} (h : ∀ e ∈ es, e.NoDash) {s : PcScan} (hs : s.AtLine none) :
    ∃ s' : PcScan, s'.AtLine none ∧ ∀ (rest : List UInt8) (st : InitState),
      (initParser L dlsym).scan L (es.flatMap CacheEntry.format ++ rest) s st =
        initEntries L dlsym es st >>= (initParser L dlsym).scan L rest s' :=
  scan_entries (initParser L dlsym) L (fun _ => rfl) (fun e he => initParser_plain (h e he)) hs

theorem initStatic_entries : ∀ (es : List CacheEntry) (t : PcTables),
    initEntries L dlsym es ⟨t, true, false⟩ =
      (t.addRanges (es.map (CacheEntry.relocated L t.baseAddress))).map (⟨·, true, false⟩)
  | [], _ => rfl
  | e :: es, t => by
    let p := e.relocated L t.baseAddress
    have hline : (initParser L dlsym).onLine (e.line L e.functionName) ⟨t, true, false⟩ =
        (t.addRange p.1 p.2).map (⟨·, true, false⟩) := rfl
    rw [initEntries, List.foldlM_cons, hline, List.map_cons, PcTables.addRanges, List.foldlM_cons]
    cases hadd : t.addRange p.1 p.2 with
    | error t' => rfl
    | ok t' =>
      have hbase : t'.baseAddress = t.baseAddress := by
        rw [(PcTables.checkCounts_eq_ok hadd).1]
        exact t.baseAddress_afterRange p
      rw [← hbase]
      exact initStatic_entries es t'

theorem initSharedLine_eq (l : PcLine) (st : InitState) : initSharedLine dlsym l st =
    match l.resolve dlsym with
    | none => .ok st
    | some p => (st.tables.addRange p.1 p.2).map ({ st with tables := · }) := by
  unfold initSharedLine PcLine.resolve
  by_cases h0 : dlsym l.functionName = 0
  · simp only [if_pos h0]
  · simp only [if_neg h0]

theorem initShared_entries (b : Bool) : ∀ (es : List CacheEntry) (t : PcTables),
    initEntries L dlsym es ⟨t, b, true⟩ =
      (t.addRanges (es.filterMap (CacheEntry.resolved L dlsym))).map (⟨·, b, true⟩)
  | [], _ => rfl
  | e :: es, t => by
    have hline : (initParser L dlsym).onLine (e.line L e.functionName) ⟨t, b, true⟩ =
        initSharedLine dlsym (e.line L e.functionName) ⟨t, b, true⟩ := rfl
    rw [initEntries, List.foldlM_cons, hline, initSharedLine_eq]
    cases hp : (e.line L e.functionName).resolve dlsym with
    | none =>
      have hnone : e.resolved L dlsym = none := hp
      rw [List.filterMap_cons_none hnone]
      exact initShared_entries b es t
    | some p =>
      have hsome : e.resolved L dlsym = some p := hp
      show (t.addRange p.1 p.2).map (InitState.mk · b true) >>= _ = _
      rw [List.filterMap_cons_some hsome, PcTables.addRanges, List.foldlM_cons]
      cases t.addRange p.1 p.2 with
      | error t' => rfl
      | ok t' => exact initShared_entries b es t'

/-- The shared-library mode up to the end of the buffer. -/
theorem scan_initShared {es : List CacheEntry} (h : ∀ e ∈ es, e.NoDash) {s : PcScan} (hs : s.AtLine none)
    (b : Bool) (t : PcTables) :
    ((initParser L dlsym).scan L (es.flatMap CacheEntry.format) s ⟨t, b, true⟩).map InitState.tables =
      t.addRanges (es.filterMap (CacheEntry.resolved L dlsym)) := by
  obtain ⟨s', -, hscan⟩ := scan_initEntries L dlsym h hs
  rw [← List.append_nil (es.flatMap CacheEntry.format), hscan, initShared_entries]
  cases t.addRanges (es.filterMap (CacheEntry.resolved L dlsym)) with
  | error t' => rfl
  | ok t' => rfl

/-- The base address that the reference point gives. -/
def PcLoader.base (ref : CacheEntry) : ℕ := usub L.pieReference (L.strtoll (decimal ref.functionStart))

theorem PcTables.addRanges_append (t : PcTables) (ps qs : List ((ℕ × ℕ) × Bool)) :
    t.addRanges (ps ++ qs) = t.addRanges ps >>= (·.addRanges qs) := List.foldlM_append

/-- **The scanner of `InitializeCMAInformation`** on a file of the extractor:
the reference point, the static entries, the entries of the shared libraries. -/
theorem initializeCMAInformation_eq {ref : CacheEntry} {statics shared : List CacheEntry}
    (hstatic : ∀ e ∈ ref :: statics, e.NoDash) (hshared : ∀ e ∈ shared, e.NoDash) (t : PcTables) :
    initializeCMAInformation L dlsym (runPcExtractor false (ref :: statics) shared) t =
      PcTables.addRanges { t with baseAddress := L.base ref }
        (statics.map (CacheEntry.relocated L (L.base ref)) ++ shared.filterMap (CacheEntry.resolved L dlsym)) := by
  let t₀ : PcTables := { t with baseAddress := L.base ref }
  obtain ⟨s₁, hs₁, hscan⟩ := scan_initEntries L dlsym hstatic PcScan.atLine_start
  let s₂ : PcScan := { s₁ with read := s₁.read ++ ['-'.toUInt8, '\n'.toUInt8], lineLen := 0 }
  have hs₂ : s₂.AtLine none := ⟨hs₁.arg1, rfl, hs₁.isEntryComplete, hs₁.arg2⟩
  have hfile : runPcExtractor false (ref :: statics) shared = some ((ref :: statics).flatMap CacheEntry.format ++
      '-'.toUInt8 :: '\n'.toUInt8 :: shared.flatMap CacheEntry.format) := by simp [runPcExtractor]
  have hlen : ((ref :: statics).flatMap CacheEntry.format ++
      '-'.toUInt8 :: '\n'.toUInt8 :: shared.flatMap CacheEntry.format).length ≠ 0 := by simp
  -- the reference point is the line that sets the base address
  have hreference : initEntries L dlsym (ref :: statics) ⟨t, false, false⟩ =
      initEntries L dlsym statics ⟨t₀, true, false⟩ := rfl
  have hstatics : initEntries L dlsym statics ⟨t₀, true, false⟩ =
      (t₀.addRanges (statics.map (CacheEntry.relocated L (L.base ref)))).map (⟨·, true, false⟩) :=
    initStatic_entries L dlsym statics t₀
  rw [hfile]
  simp only [initializeCMAInformation, if_neg hlen]
  rw [hscan, hreference, hstatics, PcTables.addRanges_append]
  cases t₀.addRanges (statics.map (CacheEntry.relocated L (L.base ref))) with
  | error t₁ => rfl
  | ok t₁ =>
    show ((initParser L dlsym).scan L _ s₁ ⟨t₁, true, false⟩).map InitState.tables = t₁.addRanges _
    rw [scan_dash (initParser L dlsym) L rfl]
    exact scan_initShared L dlsym hshared hs₂ true t₁

/-- **The ranges of a cache file** whose entries fit into the tables. -/
theorem initializeCMAInformation_ranges {L : PcLoader} (dlsym : List UInt8 → ℕ)
    (hL : ∀ n < 2 ^ 63, L.strtoll (decimal n) = n) {ref : CacheEntry} {statics shared : List CacheEntry}
    (hentry : ∀ e ∈ ref :: statics ++ shared, e.NoDash ∧ e.Addresses)
    (hroom : statics.length + shared.length < cmaMaxN) :
    ∃ t, initializeCMAInformation L dlsym (runPcExtractor false (ref :: statics) shared) {} = .ok t ∧
      t.whitelistRanges = (statics.map (·.own.relocate (usub L.pieReference ref.functionStart)) ++
        shared.filterMap (·.own.resolve dlsym)).map Prod.fst ∧
      t.cmaRanges = ((statics.map (·.own.relocate (usub L.pieReference ref.functionStart)) ++
        shared.filterMap (·.own.resolve dlsym)).filter (!·.2)).map Prod.fst := by
  have hstatics : ∀ e ∈ ref :: statics, e.NoDash ∧ e.Addresses :=
    fun e he => hentry e (List.mem_append_left shared he)
  have hshared : ∀ e ∈ shared, e.NoDash ∧ e.Addresses :=
    fun e he => hentry e (List.mem_append_right (ref :: statics) he)
  have hbase : L.base ref = usub L.pieReference ref.functionStart := by
    rw [PcLoader.base, hL _ (hstatics ref List.mem_cons_self).2.1]
  have hrelocated : statics.map (CacheEntry.relocated L (L.base ref)) =
      statics.map (·.own.relocate (usub L.pieReference ref.functionStart)) := by
    apply List.map_congr_left
    intro e he
    rw [hbase, CacheEntry.relocated, CacheEntry.line_eq_own hL (hstatics e (List.mem_cons_of_mem ref he)).2]
  have hresolved : shared.filterMap (CacheEntry.resolved L dlsym) = shared.filterMap (·.own.resolve dlsym) := by
    apply List.filterMap_congr
    intro e he
    rw [CacheEntry.resolved, CacheEntry.line_eq_own hL (hshared e he).2]
  have hlen : (shared.filterMap (·.own.resolve dlsym)).length ≤ shared.length := List.length_filterMap_le _ _
  rw [initializeCMAInformation_eq L dlsym (fun e he => (hstatics e he).1) (fun e he => (hshared e he).1),
    hrelocated, hresolved]
  obtain ⟨t, hadd, hw, hc, -⟩ := PcTables.addRanges_ok
    (statics.map (·.own.relocate (usub L.pieReference ref.functionStart)) ++
      shared.filterMap (·.own.resolve dlsym)) (t := { baseAddress := L.base ref })
    (by
      simp only [List.length_append, List.length_map]
      omega)
    (Nat.le_refl 0)
  exact ⟨t, hadd, hw, hc⟩

theorem name_word_of_all {w : List UInt8}
    (h : w.all fun b => b ≠ 0 ∧ b ≠ ' '.toUInt8 ∧ b ≠ '\n'.toUInt8) :
    ∀ b ∈ w, b ≠ 0 ∧ b ≠ ' '.toUInt8 ∧ b ≠ '\n'.toUInt8 :=
  fun b hb => of_decide_eq_true (List.all_eq_true.mp h b hb)

/-- `decimalValue` for `strtoll`, and a reference point at `0x555555555000`. -/
def sampleLoader : PcLoader := ⟨decimalValue, 0x555555555000⟩

/-- `pool`, a function for both tables. -/
def poolGet : CacheEntry := ⟨4608, 4700, ['p', 'o', 'o', 'l'].map Char.toUInt8, false, name_word_of_all (by decide)⟩

/-- `obj`, a function for the whitelist only. -/
def objNew : CacheEntry := ⟨8192, 8300, ['o', 'b', 'j'].map Char.toUInt8, true, name_word_of_all (by decide)⟩

/-- `ref`, the reference point of a target. -/
def referencePoint : CacheEntry := ⟨4096, 4128, ['r', 'e', 'f'].map Char.toUInt8, false, name_word_of_all (by decide)⟩

/-- A resolver that finds `obj` only. -/
def sampleDlsym (name : List UInt8) : ℕ := if name = objNew.functionName then 0x7ffff7000000 else 0

/-- A file with an entry of each part, where the last name is not found. -/
theorem initializeCMAInformation_ranges_sample :
    ∃ t, initializeCMAInformation sampleLoader sampleDlsym
        (runPcExtractor false [referencePoint, poolGet] [objNew, poolGet]) {} = .ok t ∧
      t.whitelistRanges = [(0x555555555200, 0x55555555525c), (0x7ffff7000000, 0x7ffff700006c)] ∧
      t.cmaRanges = [(0x555555555200, 0x55555555525c)] := by
  have hL : ∀ n < 2 ^ 63, sampleLoader.strtoll (decimal n) = n := fun n _ => decimalValue_decimal n
  obtain ⟨t, h, hw, hc⟩ := initializeCMAInformation_ranges sampleDlsym hL
    (by decide : ∀ e ∈ referencePoint :: [poolGet] ++ [objNew, poolGet], e.NoDash ∧ e.Addresses) (by decide)
  exact ⟨t, h, hw.trans (by decide), hc.trans (by decide)⟩

end Cmasan
