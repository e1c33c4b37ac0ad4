/-
# Writes to the tables of code ranges

Both scanners check the counts behind the writes of a line. That is enough for
`InitializeCMAInformation`, on any bytes: the check leaves room for one more
line in both tables (`initializeCMAInformation_safe`). `CMASanOnDlOpen` writes
to `cma_pc_range` behind a first increment of `cma_count`, so a line that is
not in the whitelist only and meets `cma_count` at the last index writes behind
the end. A run of the program writes inside the tables exactly when no call
has such a line (`writes_inRange_iff`).

Key definitions: `PcTables.InRange`, `DlOpenCall`, `DlOpenCall.Fits`.
Key theorems: `scan_outcome`, `initializeCMAInformation_safe`,
`onDlOpen_inRange_iff`, `writes_inRange_iff`.
-/
import Cmasan.DlOpen
import Cmasan.Lib.Run

namespace Cmasan

open Lib PcTables

/-- Every write so far is to an index of its table. -/
def PcTables.InRange (t : PcTables) : Prop := ∀ w ∈ t.writes, w.2 < cmaMaxN

/-- Both tables have room for a line. -/
def PcTables.HasRoom (t : PcTables) : Prop := t.cmaCount < cmaMaxN ∧ t.whitelistCount < cmaMaxN

/-- `I` of what a call returns, `J` of the tables at a CHECK that fails. -/
def Outcome {σ : Type} (I : σ → Prop) (J : PcTables → Prop) : Except PcTables σ → Prop
  | .ok st => I st
  | .error t => J t

theorem Outcome.bind {σ τ : Type} {I : σ → Prop} {I' : τ → Prop} {J : PcTables → Prop}
    {x : Except PcTables σ} {f : σ → Except PcTables τ} (hx : Outcome I J x)
    (hf : ∀ st, I st → Outcome I' J (f st)) : Outcome I' J (x >>= f) := by
  cases x with
  | error t => exact hx
  | ok st => exact hf st hx

theorem Outcome.map {σ τ : Type} {I : σ → Prop} {I' : τ → Prop} {J : PcTables → Prop}
    {x : Except PcTables σ} {f : σ → τ} (hx : Outcome I J x) (hf : ∀ st, I st → I' (f st)) :
    Outcome I' J (x.map f) := by
  cases x with
  | error t => exact hx
  | ok st => exact hf st hx

/-- **The invariant rule of the scanner**, on any bytes: what `'-'` and a line
keep, the scanner keeps. -/
theorem scan_outcome {σ : Type} (P : PcParser σ) (L : PcLoader) {I : σ → Prop} {J : PcTables → Prop}
    (hdash : ∀ st, I st → I ((P.dash.getD id) st)) (hline : ∀ l st, I st → Outcome I J (P.onLine l st))
    (hstop : ∀ st, I st → J (P.tables st)) (bytes : List UInt8) (s : PcScan) (st : σ) (h : I st) :
    Outcome I J (P.scan L bytes s st) := by
  fun_induction PcParser.scan P L bytes s st with
  | case1 => exact h
  | case2 => exact h
  | case3 => exact hdash _ h
  | case4 b s st _ _ c rest ih => exact ih (hdash st h)
  | case5 rest s st _ _ _ ih => exact (hline _ st h).bind ih
  | case6 => exact hstop _ h
  | case7 rest s st _ _ _ ih => exact ih h
  | case8 b rest s st _ _ _ _ ih => exact ih h

namespace PcTables

theorem outcome_checkCounts {t : PcTables} (h : t.InRange) :
    Outcome (fun t' => t'.InRange ∧ t'.HasRoom) InRange t.checkCounts := by
  unfold checkCounts
  split
  · exact ⟨h, ‹_›⟩
  · exact h

theorem inRange_append {t t' : PcTables} {ws : List (PcTable × ℕ)} (h : t'.writes = t.writes ++ ws) :
    t'.InRange ↔ t.InRange ∧ ∀ w ∈ ws, w.2 < cmaMaxN := by
  unfold InRange
  rw [h]
  exact List.forall_mem_append

theorem inRange_afterRange {t : PcTables} (h : t.InRange) (hroom : t.HasRoom) (p : (ℕ × ℕ) × Bool) :
    (t.afterRange p).InRange := by
  have hwrites : (t.afterRange p).writes =
      t.writes ++ (.whitelist, t.whitelistCount) :: if p.2 then [] else [(.cma, t.cmaCount)] := by
    unfold afterRange
    cases p.2 with
    | true => rfl
    | false => exact List.append_assoc _ _ _
  apply (inRange_append hwrites).mpr
  refine ⟨h, ?_⟩
  intro w hw
  cases hp : p.2 with
  | true =>
    rw [hp] at hw
    obtain rfl := List.mem_singleton.mp hw
    exact hroom.2
  | false =>
    rw [hp] at hw
    obtain rfl | hw := List.mem_cons.mp hw
    · exact hroom.2
    · obtain rfl := List.mem_singleton.mp hw
      exact hroom.1

end PcTables

/-- **`InitializeCMAInformation` on any bytes** writes inside the tables, and
leaves room for one more line. -/
theorem initializeCMAInformation_safe (L : PcLoader) (dlsym : List UInt8 → ℕ) (file : Option (List UInt8))
    {t : PcTables} (h : t.InRange ∧ t.HasRoom) :
    Outcome (fun t' => t'.InRange ∧ t'.HasRoom) InRange (initializeCMAInformation L dlsym file t) := by
  have hadd : ∀ (t : PcTables) (p : (ℕ × ℕ) × Bool), t.InRange ∧ t.HasRoom →
      Outcome (fun t' => t'.InRange ∧ t'.HasRoom) InRange (t.addRange p.1 p.2) := by
    intro t p ht
    rw [addRange_eq]
    exact outcome_checkCounts (inRange_afterRange ht.1 ht.2 p)
  have hline : ∀ (l : PcLine) (st : InitState), st.tables.InRange ∧ st.tables.HasRoom →
      Outcome (fun st' => st'.tables.InRange ∧ st'.tables.HasRoom) InRange ((initParser L dlsym).onLine l st) := by
    intro l st hst
    show Outcome _ _ (if st.isSharedLibMode then initSharedLine dlsym l st else initStaticLine L l st)
    split
    · rw [initSharedLine_eq]
      cases l.resolve dlsym with
      | none => exact hst
      | some p => exact (hadd st.tables p hst).map fun _ ht => ht
    · unfold initStaticLine
      split
      · exact (hadd st.tables (_, _) hst).map fun _ ht => ht
      · exact hst
  unfold initializeCMAInformation
  split
  · exact h
  · split
    · exact h
    · have hscan := scan_outcome (initParser L dlsym) L
        (I := fun st : InitState => st.tables.InRange ∧ st.tables.HasRoom)
        (fun _ hst => hst) hline (fun _ hst => hst.1)
      exact (hscan _ {} { tables := t } h).map fun _ hst => hst

/-- What the line of `e` adds to `cma_count` in `CMASanOnDlOpen`. -/
def CacheEntry.cmaIncrement (e : CacheEntry) : ℕ := if e.isInWhitelist then 1 else 2

/-- What the lines of `es` add to it. -/
def cmaIncrements (es : List CacheEntry) : ℕ := (es.map CacheEntry.cmaIncrement).sum

theorem cmaIncrements_whitelist {es : List CacheEntry} (h : ∀ e ∈ es, e.isInWhitelist) :
    cmaIncrements es = es.length := by
  have hone : es.map CacheEntry.cmaIncrement = es.map fun _ => 1 :=
    List.map_congr_left fun e he => if_pos (h e he)
  rw [cmaIncrements, hone]
  simp

theorem forall_split_cons {α : Type} {Q : List α → α → Prop} {a : α} {l : List α} :
    (∀ before x after, a :: l = before ++ x :: after → Q before x) ↔
      Q [] a ∧ ∀ before x after, l = before ++ x :: after → Q (a :: before) x := by
  constructor
  · intro h
    exact ⟨h [] a l rfl, fun before x after hl => h (a :: before) x after (congrArg (a :: ·) hl)⟩
  · intro h before x after heq
    cases before with
    | nil =>
      cases heq
      exact h.1
    | cons b before =>
      obtain ⟨rfl, hl⟩ := List.cons.inj heq
      exact h.2 before x after hl

variable {L : PcLoader} {dlsym : List UInt8 → ℕ}

/-- The writes of one line, from tables with room. -/
theorem inRange_dlOpenLine {e : CacheEntry} {t t' : PcTables} (hroom : t.HasRoom)
    (hwrites : t'.writes = t.writes ++ (.whitelist, t.whitelistCount) ::
      if e.isInWhitelist then [] else [(.cma, t.cmaCount + 1)]) :
    t'.InRange ↔ t.InRange ∧ (e.isInWhitelist = false → t.cmaCount + 1 ≠ cmaMaxN) := by
  rw [inRange_append hwrites]
  apply and_congr_right
  intro _
  have hcma := hroom.1
  have hwhitelist := hroom.2
  cases e.isInWhitelist with
  | true => simp [hwhitelist]
  | false =>
    simp only [Bool.false_eq_true, if_false, List.forall_mem_cons, hwhitelist, true_and, forall_const,
      List.not_mem_nil, false_imp_iff, implies_true, and_true]
    omega

/-- **The lines of one call**: a write goes out of range exactly at a line of
the CMA table that meets `cma_count` at the last index. -/
theorem inRange_dlOpenLines {name : List UInt8} (hname : dlsym name ≠ 0) :
    ∀ (es : List CacheEntry) {t : PcTables} (_ : t.HasRoom),
    (atEnd (es.foldlM (fun t e => dlOpenLine dlsym (e.line L name) t) t)).InRange ↔
      t.InRange ∧ ∀ before e after, es = before ++ e :: after → e.isInWhitelist = false →
        t.cmaCount + cmaIncrements before + 1 ≠ cmaMaxN
  | [], t, _ => by
    refine ⟨fun h => ⟨h, ?_⟩, fun h => h.1⟩
    intro before e after heq
    cases before <;> cases heq
  | e :: es, t, hroom => by
    obtain ⟨t', hline, hw, hc, hwrites⟩ := dlOpenLine_found (l := e.line L name) hname t
    have hc' : t'.cmaCount = t.cmaCount + e.cmaIncrement := hc
    have hcons : ∀ before, cmaIncrements (e :: before) = e.cmaIncrement + cmaIncrements before :=
      fun _ => List.sum_cons
    have hin : t'.InRange ↔ t.InRange ∧ (e.isInWhitelist = false →
        t.cmaCount + cmaIncrements [] + 1 ≠ cmaMaxN) := inRange_dlOpenLine hroom hwrites
    rw [forall_split_cons, ← and_assoc, ← hin, List.foldlM_cons, hline]
    by_cases hroom' : t'.HasRoom
    · rw [checkCounts_ok hroom'.1 hroom'.2]
      have ih := inRange_dlOpenLines hname es hroom'
      have hshift : ∀ before, t'.cmaCount + cmaIncrements before = t.cmaCount + cmaIncrements (e :: before) := by
        intro before
        rw [hc', hcons, Nat.add_assoc]
      simp only [hshift] at ih
      exact ih
    · have hfull : cmaMaxN ≤ t'.cmaCount := by
        have := hroom.2
        unfold HasRoom at hroom'
        omega
      have hcheck : t'.checkCounts = .error t' := if_neg hroom'
      rw [hcheck]
      refine ⟨fun h => ⟨h, ?_⟩, fun h => h.1⟩
      intro before e' after _ _
      rw [hcons]
      omega

/-- A call of `CMASanOnDlOpen`: the symbols of the handle and the entries of
the library's cache file. -/
structure DlOpenCall where
  dlsym : List UInt8 → ℕ
  entries : List CacheEntry

/-- The call. A failed CHECK ends the program. -/
def DlOpenCall.step (L : PcLoader) : Except PcTables PcTables → DlOpenCall → Option (Except PcTables PcTables)
  | .ok t, c => some (onDlOpen L c.dlsym (runPcExtractor true c.entries []) t)
  | .error _, _ => none

/-- The first name is not found, or no line of the CMA table meets `cma_count`
at the last index. -/
def DlOpenCall.Fits (c : DlOpenCall) (t : PcTables) : Prop :=
  ∀ first ∈ c.entries.head?, c.dlsym first.functionName ≠ 0 →
    ∀ before e after, c.entries = before ++ e :: after → e.isInWhitelist = false →
      t.cmaCount + cmaIncrements before + 1 ≠ cmaMaxN

/-- The guard of a run: the call fits where it happens. -/
def DlOpenCall.FitsIn : Except PcTables PcTables → DlOpenCall → Prop
  | .ok t, c => c.Fits t
  | .error _, _ => True

/-- **One call** writes inside the tables exactly if it fits. -/
theorem onDlOpen_inRange_iff (c : DlOpenCall) {t : PcTables} (hroom : t.HasRoom) :
    (atEnd (onDlOpen L c.dlsym (runPcExtractor true c.entries []) t)).InRange ↔ t.InRange ∧ c.Fits t := by
  obtain ⟨dlsym, entries⟩ := c
  cases entries with
  | nil => exact ⟨fun h => ⟨h, fun _ hfirst => (by cases hfirst)⟩, fun h => h.1⟩
  | cons e es =>
    by_cases hname : dlsym e.functionName = 0
    · rw [onDlOpen_unresolved hname]
      refine ⟨fun h => ⟨h, ?_⟩, fun h => h.1⟩
      intro first hfirst hfound
      obtain rfl : e = first := Option.some.inj hfirst
      exact absurd hname hfound
    · rw [onDlOpen_eq, inRange_dlOpenLines hname (e :: es) hroom]
      apply and_congr_right
      intro _
      constructor
      · intro h first hfirst _
        exact h
      · exact fun h => h e rfl hname

theorem hasRoom_onDlOpen (dlsym : List UInt8 → ℕ) (file : Option (List UInt8)) {t : PcTables} (h : t.HasRoom) :
    Outcome HasRoom (fun _ => True) (onDlOpen L dlsym file t) := by
  have hline : ∀ (l : PcLine) (t : PcTables), t.HasRoom →
      Outcome HasRoom (fun _ => True) ((dlOpenParser dlsym).onLine l t) := by
    intro l t ht
    show Outcome _ _ (dlOpenLine dlsym l t)
    by_cases hname : dlsym l.functionName = 0
    · have hskip : dlOpenLine dlsym l t = .ok t := if_pos hname
      rw [hskip]
      exact ht
    · obtain ⟨t', ht', -⟩ := dlOpenLine_found hname t
      rw [ht']
      unfold checkCounts
      split
      · exact ‹_›
      · trivial
  unfold onDlOpen
  split
  · exact h
  · split
    · exact h
    · exact scan_outcome (dlOpenParser dlsym) L (fun _ ht => ht) hline (fun _ _ => trivial) _ {} _ h

theorem start_safe (file : Option (List UInt8)) :
    (atEnd (initializeCMAInformation L dlsym file {})).InRange ∧
      Outcome HasRoom (fun _ => True) (initializeCMAInformation L dlsym file {}) := by
  have hempty : PcTables.InRange {} ∧ PcTables.HasRoom {} :=
    ⟨fun _ hw => (by cases hw), by decide, by decide⟩
  have hsafe := initializeCMAInformation_safe L dlsym file hempty
  revert hsafe
  cases initializeCMAInformation L dlsym file {} with
  | error t => exact fun ht => ⟨ht, trivial⟩
  | ok t => exact id

/-- After the startup and any calls there is room for a line. -/
theorem hasRoom_of_runs {file : Option (List UInt8)} {ok : Except PcTables PcTables → DlOpenCall → Prop}
    {calls : List DlOpenCall} {r : Except PcTables PcTables}
    (h : Runs (DlOpenCall.step L) ok (initializeCMAInformation L dlsym file {}) calls r) :
    Outcome HasRoom (fun _ => True) r := by
  refine h.invariant ?_ (start_safe file).2
  intro r₁ r₂ c hroom _ hs
  cases r₁ with
  | error t => cases hs
  | ok t =>
    cases hs
    exact hasRoom_onDlOpen c.dlsym _ hroom

/-- **The writes of a run**, from a startup with any bytes, are all inside the
tables exactly if every call fits where it happens. -/
theorem writes_inRange_iff {file : Option (List UInt8)} {calls : List DlOpenCall} {r : Except PcTables PcTables}
    (h : Runs (DlOpenCall.step L) (fun _ _ => True) (initializeCMAInformation L dlsym file {}) calls r) :
    (atEnd r).InRange ↔
      Runs (DlOpenCall.step L) DlOpenCall.FitsIn (initializeCMAInformation L dlsym file {}) calls r := by
  constructor
  · intro hin
    induction h with
    | nil => exact .nil
    | @snoc calls r₁ r₂ c hrun _ hs ih =>
      cases r₁ with
      | error t => cases hs
      | ok t =>
        cases hs
        obtain ⟨hin₁, hfits⟩ := (onDlOpen_inRange_iff c (hasRoom_of_runs hrun)).mp hin
        exact .snoc (ih hin₁) hfits rfl
  · intro hfits
    have hsafe : (atEnd r).InRange ∧ Outcome HasRoom (fun _ => True) r := by
      apply hfits.invariant (I := fun r => (atEnd r).InRange ∧ Outcome HasRoom (fun _ => True) r) ?_
        (start_safe file)
      intro r₁ r₂ c h₁ hfit hs
      cases r₁ with
      | error t => cases hs
      | ok t =>
        cases hs
        exact ⟨(onDlOpen_inRange_iff c h₁.2).mpr ⟨h₁.1, hfit⟩, hasRoom_onDlOpen c.dlsym _ h₁.2⟩
    exact hsafe.1

instance (t : PcTables) : Decidable t.InRange := inferInstanceAs (Decidable (∀ _ ∈ _, _))

/-- A startup with a static entry, then a library with two. -/
theorem writes_inRange_sample :
    let dlsym := fun name => if name = objNew.functionName then 0x1000 else 0x2000
    let started := initializeCMAInformation sampleLoader sampleDlsym
      (runPcExtractor false [referencePoint, poolGet] []) {}
    ∃ r, Runs (DlOpenCall.step sampleLoader) DlOpenCall.FitsIn started [⟨dlsym, [poolGet, objNew]⟩] r := by
  intro dlsym started
  have hstep : (DlOpenCall.step sampleLoader started ⟨dlsym, [poolGet, objNew]⟩).map
      (fun r => decide (atEnd r).InRange) = some true := by decide +kernel
  obtain ⟨r, hr, hin⟩ := Option.map_eq_some_iff.mp hstep
  have hrun : Runs (DlOpenCall.step sampleLoader) (fun _ _ => True) started ([] ++ [⟨dlsym, [poolGet, objNew]⟩]) r :=
    .snoc .nil trivial hr
  exact ⟨r, (writes_inRange_iff hrun).mp (of_decide_eq_true hin)⟩

/-- The `i`-th function of a library, `f0`, `f1`, `f2` and so on. -/
def libraryEntry (isInWhitelist : Bool) (i : ℕ) : CacheEntry where
  functionStart := 16 * i
  functionEnd := 16 * i + 8
  functionName := 'f'.toUInt8 :: decimal i
  isInWhitelist := isInWhitelist
  name_word := by
    intro b hb
    obtain rfl | hb := List.mem_cons.mp hb
    · decide
    · obtain ⟨h0, hspace, hnewline, -⟩ := plain_of_mem_decimal (dlOpenParser fun _ => 0) b hb
      exact ⟨h0, hspace, hnewline⟩

/-- Without a startup file, a library with 499 functions for the whitelist only
and a last one for both tables: the last line writes to `cma_pc_range[500]`. -/
theorem onDlOpen_writes_behind_table :
    let entries := (List.range 499).map (libraryEntry true) ++ [libraryEntry false 499]
    ∃ r, Runs (DlOpenCall.step sampleLoader) (fun _ _ => True)
        (initializeCMAInformation sampleLoader sampleDlsym none {}) [⟨fun _ => 0x1000, entries⟩] r ∧
      ¬ (atEnd r).InRange := by
  intro entries
  have hroom : PcTables.HasRoom {} := ⟨by decide, by decide⟩
  refine ⟨_, .snoc .nil trivial rfl, ?_⟩
  intro hin
  have hfits := ((onDlOpen_inRange_iff ⟨fun _ => 0x1000, entries⟩ hroom).mp hin).2
  have hcount : cmaIncrements ((List.range 499).map (libraryEntry true)) = 499 := by
    rw [cmaIncrements_whitelist]
    · simp
    · intro e he
      obtain ⟨i, -, rfl⟩ := List.mem_map.mp he
      rfl
  have hfirst : entries.head? = some (libraryEntry true 0) := by simp [entries, List.head?_range]
  apply hfits (libraryEntry true 0) hfirst (by decide : (0x1000 : ℕ) ≠ 0) _ (libraryEntry false 499) [] rfl rfl
  rw [hcount]
  rfl

end Cmasan
