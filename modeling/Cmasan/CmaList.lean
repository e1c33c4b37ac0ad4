/-
# The list of instrumented functions

Each compilation appends to the file `RT_CMA_LIST` what it instrumented
(`WriteBackCMANames`): a line with the module and a line for each function,
its name and its type. `run_pc_extractor` reads the file of all compilations
back line by line into the set `cma_list` and the map `is_in_whitelist`. It
raises iff nothing was instrumented or a name has a space in it; else the set
has the names of all compilations, and the flag of a name is that of its last
line. So `get_addr_info`, which looks up the flag of each function that it
finds, finds one for all that it asks for.

The file's texts are characters here: how Python decodes the bytes that the
compiler writes is not modelled.

Key definitions: `writeBackCMANames`, `Compilation`, `cmaListFile`,
`CmaRecord`, `readCmaList`, `lastType`, `CmaList.ofRecords`.
Key theorems: `cmaListFile_eq`, `foldl_addRecord`, `readCmaList_written`.
-/
import Mathlib.Data.Finset.Lattice.Lemmas
import Cmasan.AddrInfoOrder
import Cmasan.InstrumentModule

namespace Cmasan

open Lib Ssa

/-! ### The compiler -/

/-- `WriteBackCMANames`: the file after it, which opening it makes. -/
def writeBackCMANames (filePath moduleName : List Char) (infoMap : String → Option CMAInfo)
    (cmaList : List String) (file : Option (List Char)) : Option (List Char) :=
  if filePath = [] then file
  else if cmaList.length = 0 then file
  else some (file.getD [] ++ ("[module] ".toList ++ moduleName ++ '\n' ::
    cmaList.flatMap fun F => F.toList ++ ' ' :: (int2str (getCMAInfo infoMap F).type ++ ['\n'])))

/-- A module that the compiler has run on, and what the pass gave. -/
structure Compilation (Op : Type) where
  moduleName : List Char
  annos : List (String × List Char)
  source : List (IrFunction Op)
  result : List (IrFunction Op)
  infoMap : String → Option CMAInfo
  instrumentedCMAs : List String
  compiled : instrumentCMA (fun _ => none) annos source = some (result, infoMap, instrumentedCMAs)

/-- The file after the compilations, which is not there before the first. -/
def cmaListFile {Op : Type} (filePath : List Char) (cs : List (Compilation Op)) : Option (List Char) :=
  cs.foldl (fun file c => writeBackCMANames filePath c.moduleName c.infoMap c.instrumentedCMAs file) none

/-! ### The script -/

/-- How the script ends early: `exit(0)`, and the exceptions that nothing catches. -/
inductive ScriptStop
  | exit
  | fileNotFoundError
  | valueError
  deriving DecidableEq, Repr

/-- What a file that is opened as text reads a `'\r'` as. -/
def universalNewlines : List Char → List Char
  | [] => []
  | [c] => if c = '\r' then ['\n'] else [c]
  | c :: d :: s =>
    if c = '\r' then
      if d = '\n' then '\n' :: universalNewlines s else '\n' :: universalNewlines (d :: s)
    else c :: universalNewlines (d :: s)

/-- `CMA_LIST_MODULE_PREFIX`. -/
def cmaListModulePrefix : List Char := "[module]".toList

/-- `cma_list` and `is_in_whitelist`. -/
structure CmaList where
  cmaList : Finset (List Char)
  isInWhitelist : List Char → Option ℕ

/-- What the line of a function adds. -/
def CmaList.add (l : CmaList) (name t : List Char) : CmaList where
  cmaList := insert name l.cmaList
  isInWhitelist := Function.update l.isInWhitelist name (some (if t = ['0'] then 1 else 0))

/-- The loop's body. -/
def cmaListLine (l : CmaList) (info : List Char) : Except ScriptStop CmaList :=
  if info.take cmaListModulePrefix.length ≠ cmaListModulePrefix ∧ info ≠ [] then
    match info.splitOn ' ' with
    | [name, t] => .ok (l.add name t)
    | _ => .error .valueError
  else .ok l

/-- `cma_list` and `is_in_whitelist` before the first line. -/
def CmaList.start (isSharedLib : Bool) : CmaList where
  cmaList := if isSharedLib then ∅ else {referencePointFname}
  isInWhitelist := fun _ => none

/-- The part of `run_pc_extractor` that reads the list. -/
def readCmaList (isSharedLib : Bool) : Option (List Char) → Except ScriptStop CmaList
  | none => .error .fileNotFoundError
  | some file =>
    let cmaInfo := universalNewlines file
    if cmaInfo.length = 0 then .error .exit
    else (cmaInfo.splitOn '\n').foldlM cmaListLine (CmaList.start isSharedLib)

/-! ### What the file says -/

/-- A function that was instrumented: its name and its type. -/
abbrev CmaRecord := List Char × Int32

variable {Op : Type}

/-- The functions that a compilation instrumented. -/
def Compilation.records (c : Compilation Op) : List CmaRecord :=
  c.instrumentedCMAs.map fun F => (F.toList, (getCMAInfo c.infoMap F).type)

/-- The functions of all compilations, in order. -/
def allRecords (cs : List (Compilation Op)) : List CmaRecord := cs.flatMap Compilation.records

/-- The type of the name's last record. -/
def lastType (rs : List CmaRecord) (name : List Char) : Option Int32 :=
  (rs.reverse.find? (·.1 = name)).map Prod.snd

/-- No line ends in the text. -/
def OneLine (s : List Char) : Prop := '\n' ∉ s ∧ '\r' ∉ s

/-- The name is taken for a module's line. -/
def LooksLikeModule (name : List Char) : Prop := cmaListModulePrefix <+: name

instance (s : List Char) : Decidable (OneLine s) := inferInstanceAs (Decidable (_ ∧ _))

instance (name : List Char) : Decidable (LooksLikeModule name) :=
  inferInstanceAs (Decidable (cmaListModulePrefix <+: name))

/-- The line of a record. -/
def recordLine (r : CmaRecord) : List Char := r.1 ++ ' ' :: int2str r.2

/-- The lines of a compilation, of which there are none without a function. -/
def Compilation.lines (c : Compilation Op) : List (List Char) :=
  if c.instrumentedCMAs.length = 0 then []
  else ("[module] ".toList ++ c.moduleName) :: c.records.map recordLine

theorem writeBackCMANames_eq (c : Compilation Op) {filePath : List Char} (h : filePath ≠ [])
    (file : Option (List Char)) :
    writeBackCMANames filePath c.moduleName c.infoMap c.instrumentedCMAs file =
      if c.lines = [] then file else some (file.getD [] ++ c.lines.flatMap (· ++ ['\n'])) := by
  unfold writeBackCMANames Compilation.lines
  rw [if_neg h]
  by_cases hc : c.instrumentedCMAs.length = 0
  · rw [if_pos hc, if_pos hc, if_pos rfl]
  · have hlines : (c.records.map recordLine).flatMap (· ++ ['\n']) =
        c.instrumentedCMAs.flatMap fun F => F.toList ++ ' ' :: (int2str (getCMAInfo c.infoMap F).type ++ ['\n']) := by
      rw [Compilation.records, List.map_map, List.flatMap_map]
      refine List.flatMap_congr fun F _ => ?_
      simp only [Function.comp, recordLine, List.append_assoc, List.cons_append]
    rw [if_neg hc, if_neg hc, if_neg (List.cons_ne_nil _ _), List.flatMap_cons, hlines, List.append_assoc _ ['\n'],
      List.singleton_append]

theorem foldl_writeBack {filePath : List Char} (h : filePath ≠ []) :
    ∀ (cs : List (Compilation Op)) (file : Option (List Char)),
      cs.foldl (fun file c => writeBackCMANames filePath c.moduleName c.infoMap c.instrumentedCMAs file) file =
        if cs.flatMap Compilation.lines = [] then file
        else some (file.getD [] ++ (cs.flatMap Compilation.lines).flatMap (· ++ ['\n']))
  | [], file => (if_pos rfl).symm
  | c :: cs, file => by
    rw [List.foldl_cons, foldl_writeBack h cs, writeBackCMANames_eq c h, List.flatMap_cons]
    by_cases hc : c.lines = []
    · rw [if_pos hc, hc, List.nil_append]
    · rw [if_neg hc, if_neg fun hnil => hc (List.append_eq_nil_iff.mp hnil).1]
      by_cases hcs : cs.flatMap Compilation.lines = []
      · rw [if_pos hcs, hcs, List.append_nil]
      · rw [if_neg hcs, List.flatMap_append, Option.getD_some, List.append_assoc]

theorem cmaListFile_eq {filePath : List Char} (h : filePath ≠ []) (cs : List (Compilation Op)) :
    cmaListFile filePath cs =
      if cs.flatMap Compilation.lines = [] then none
      else some ((cs.flatMap Compilation.lines).flatMap (· ++ ['\n'])) :=
  foldl_writeBack h cs none

theorem flatMap_lines_eq_nil_iff (cs : List (Compilation Op)) :
    cs.flatMap Compilation.lines = [] ↔ allRecords cs = [] := by
  have hone : ∀ c : Compilation Op, c.lines = [] ↔ c.records = [] := by
    intro c
    unfold Compilation.lines
    by_cases hc : c.instrumentedCMAs.length = 0
    · rw [if_pos hc, Compilation.records, List.length_eq_zero_iff.mp hc]
      exact iff_of_true rfl rfl
    · rw [if_neg hc]
      refine iff_of_false (List.cons_ne_nil _ _) fun hnil => hc ?_
      exact List.length_eq_zero_iff.mpr (List.map_eq_nil_iff.mp hnil)
  rw [allRecords, List.flatMap_eq_nil_iff, List.flatMap_eq_nil_iff]
  exact forall₂_congr fun c _ => hone c

/-! ### Reading it -/

theorem universalNewlines_eq : ∀ {s : List Char}, '\r' ∉ s → universalNewlines s = s
  | [], _ => rfl
  | [_], h => if_neg fun he => h (List.mem_singleton.mpr (Eq.symm he))
  | c :: d :: s, h => by
    have hc : c ≠ '\r' := fun he => h (he ▸ List.mem_cons_self)
    have hrest : universalNewlines (d :: s) = d :: s := universalNewlines_eq fun hm => h (List.mem_cons_of_mem c hm)
    rw [universalNewlines, if_neg hc, hrest]

theorem oneLine_int2str (t : Int32) : OneLine (int2str t) :=
  ⟨not_mem_intText rfl (by decide) t.toInt, not_mem_intText rfl (by decide) t.toInt⟩

theorem OneLine.append {s t : List Char} (hs : OneLine s) (ht : OneLine t) : OneLine (s ++ t) :=
  ⟨fun h => (List.mem_append.mp h).elim hs.1 ht.1, fun h => (List.mem_append.mp h).elim hs.2 ht.2⟩

theorem oneLine_recordLine {r : CmaRecord} (h : OneLine r.1) : OneLine (recordLine r) := by
  have hspace : OneLine (' ' :: int2str r.2) := OneLine.append (s := [' ']) (by decide) (oneLine_int2str r.2)
  exact h.append hspace

/-- The texts of a compilation are lines. -/
structure Compilation.Lines (c : Compilation Op) : Prop where
  moduleName : OneLine c.moduleName
  records : ∀ r ∈ c.records, OneLine r.1

theorem Compilation.Lines.oneLine {c : Compilation Op} (h : c.Lines) : ∀ l ∈ c.lines, OneLine l := by
  unfold Compilation.lines
  split
  · exact fun l hl => absurd hl List.not_mem_nil
  · intro l hl
    rcases List.mem_cons.mp hl with rfl | hl
    · exact OneLine.append (by decide) h.moduleName
    · obtain ⟨r, hr, rfl⟩ := List.mem_map.mp hl
      exact oneLine_recordLine (h.records r hr)

theorem int2str_eq_zero_iff (t : Int32) : int2str t = ['0'] ↔ t = 0 := by
  constructor
  · intro h
    have hread : stoi (int2str t) = stoi (int2str 0) := congrArg stoi h
    rw [stoi_int2str, stoi_int2str] at hread
    exact Except.ok.inj hread
  · rintro rfl
    rfl

theorem cmaListLine_module (l : CmaList) (s : List Char) : cmaListLine l ("[module] ".toList ++ s) = .ok l :=
  if_neg fun h => h.1 rfl

theorem cmaListLine_nil (l : CmaList) : cmaListLine l [] = .ok l := if_neg fun h => h.2 rfl

/-- The prefix of a record's line is its name's, as the prefix has no space. -/
theorem take_recordLine_iff (r : CmaRecord) :
    (recordLine r).take cmaListModulePrefix.length = cmaListModulePrefix ↔ LooksLikeModule r.1 := by
  have hspace : ' ' ∉ cmaListModulePrefix := by decide
  constructor
  · intro h
    have hp : cmaListModulePrefix <+: r.1 ++ ' ' :: int2str r.2 := List.prefix_iff_eq_take.mpr h.symm
    rcases Nat.lt_or_ge r.1.length cmaListModulePrefix.length with hlt | hge
    · -- the space behind the name would be in the prefix
      have hget : (recordLine r)[r.1.length]? = some ' ' := by simp [recordLine]
      rw [← List.getElem?_take_of_lt hlt, h] at hget
      exact absurd (List.mem_of_getElem? hget) hspace
    · exact List.prefix_of_prefix_length_le hp (List.prefix_append _ _) hge
  · intro h
    exact (List.prefix_iff_eq_take.mp (h.trans (List.prefix_append r.1 _))).symm

/-- A name with a space gives three parts at least. -/
theorem splitOn_recordLine {r : CmaRecord} (h : ' ' ∈ r.1) :
    ∃ a b c rest, (recordLine r).splitOn ' ' = a :: b :: c :: rest := by
  obtain ⟨s, t, hst⟩ := List.append_of_mem h
  obtain ⟨a, as, ha⟩ := List.exists_cons_of_ne_nil (List.splitOn_ne_nil ' ' s)
  obtain ⟨b, bs, hb⟩ := List.exists_cons_of_ne_nil (List.splitOn_ne_nil ' ' t)
  obtain ⟨c, cs, hc⟩ := List.exists_cons_of_ne_nil (List.splitOn_ne_nil ' ' (int2str r.2))
  have hsplit : (recordLine r).splitOn ' ' = (a :: as) ++ ((b :: bs) ++ (c :: cs)) := by
    rw [recordLine, hst, List.append_assoc, List.cons_append, List.splitOn_append_cons_self,
      List.splitOn_append_cons_self, ha, hb, hc]
  rw [hsplit]
  cases as with
  | cons x as =>
    cases as with
    | cons y as => exact ⟨_, _, _, _, rfl⟩
    | nil => exact ⟨_, _, _, _, rfl⟩
  | nil =>
    cases bs with
    | cons x bs => exact ⟨_, _, _, _, rfl⟩
    | nil => exact ⟨_, _, _, _, rfl⟩

theorem cmaListLine_record (l : CmaList) (r : CmaRecord) : cmaListLine l (recordLine r) =
    if LooksLikeModule r.1 then .ok l
    else if ' ' ∈ r.1 then .error .valueError else .ok (l.add r.1 (int2str r.2)) := by
  have hne : recordLine r ≠ [] := List.append_ne_nil_of_right_ne_nil _ (List.cons_ne_nil _ _)
  unfold cmaListLine
  by_cases hm : LooksLikeModule r.1
  · rw [if_pos hm, if_neg fun h => h.1 ((take_recordLine_iff r).mpr hm)]
  · rw [if_neg hm, if_pos ⟨mt (take_recordLine_iff r).mp hm, hne⟩]
    by_cases hs : ' ' ∈ r.1
    · obtain ⟨a, b, c, rest, hsplit⟩ := splitOn_recordLine hs
      rw [if_pos hs, hsplit]
    · have hint : ' ' ∉ int2str r.2 := not_mem_intText rfl (by decide) r.2.toInt
      have hsplit : (recordLine r).splitOn ' ' = [r.1, int2str r.2] := by
        rw [recordLine, List.splitOn_append_cons_self_of_not_mem hs, List.splitOn_eq_singleton hint]
      rw [if_neg hs, hsplit]

/-! ### The list -/

/-- What a record adds, if its name is taken for no module. -/
def CmaList.addRecord (l : CmaList) (r : CmaRecord) : CmaList :=
  if LooksLikeModule r.1 then l else l.add r.1 (int2str r.2)

/-- A line of the record's that the script cannot take apart. -/
def Unreadable (r : CmaRecord) : Prop := ' ' ∈ r.1 ∧ ¬ LooksLikeModule r.1

instance (r : CmaRecord) : Decidable (Unreadable r) := inferInstanceAs (Decidable (_ ∧ _))

theorem foldlM_records : ∀ (rs : List CmaRecord) (l : CmaList),
    rs.foldlM (fun l r => cmaListLine l (recordLine r)) l =
      if ∃ r ∈ rs, Unreadable r then .error .valueError else .ok (rs.foldl CmaList.addRecord l)
  | [], _ => by simp; rfl
  | r :: rs, l => by
    rw [List.foldlM_cons, cmaListLine_record]
    by_cases hu : Unreadable r
    · have hex : ∃ r' ∈ r :: rs, Unreadable r' := ⟨r, List.mem_cons_self, hu⟩
      rw [if_neg hu.2, if_pos hu.1, if_pos hex]
      rfl
    · have hstep : (if LooksLikeModule r.1 then Except.ok l
          else if ' ' ∈ r.1 then .error ScriptStop.valueError else .ok (l.add r.1 (int2str r.2))) =
            .ok (l.addRecord r) := by
        unfold CmaList.addRecord
        by_cases hm : LooksLikeModule r.1
        · rw [if_pos hm, if_pos hm]
        · rw [if_neg hm, if_neg hm, if_neg fun hs => hu ⟨hs, hm⟩]
      have hiff : (∃ r' ∈ r :: rs, Unreadable r') ↔ ∃ r' ∈ rs, Unreadable r' := by simp [hu]
      rw [hstep]
      refine (foldlM_records rs (l.addRecord r)).trans ?_
      simp only [hiff, List.foldl_cons]

/-- The module lines do nothing, so the file's lines are its records'. -/
theorem foldlM_lines : ∀ (cs : List (Compilation Op)) (l : CmaList),
    (cs.flatMap Compilation.lines).foldlM cmaListLine l =
      (allRecords cs).foldlM (fun l r => cmaListLine l (recordLine r)) l
  | [], _ => rfl
  | c :: cs, l => by
    have hlines : c.lines.foldlM cmaListLine l = c.records.foldlM (fun l r => cmaListLine l (recordLine r)) l := by
      unfold Compilation.lines
      by_cases hc : c.instrumentedCMAs.length = 0
      · have hnil : c.records = [] := by
          rw [Compilation.records, List.length_eq_zero_iff.mp hc, List.map_nil]
        rw [if_pos hc, hnil, List.foldlM_nil, List.foldlM_nil]
      · rw [if_neg hc, List.foldlM_cons, cmaListLine_module]
        exact List.foldlM_map
    rw [List.flatMap_cons, List.foldlM_append, hlines, allRecords, List.flatMap_cons, List.foldlM_append]
    refine bind_congr fun l' => ?_
    exact foldlM_lines cs l'

theorem lastType_concat (rs : List CmaRecord) (r : CmaRecord) (name : List Char) :
    lastType (rs ++ [r]) name = if r.1 = name then some r.2 else lastType rs name := by
  unfold lastType
  rw [List.reverse_append, List.reverse_singleton, List.singleton_append, List.find?_cons]
  by_cases h : r.1 = name
  · simp [h]
  · simp [h]

/-- The set and the flags of the records; the flag is that of the last one. -/
theorem foldl_addRecord (l : CmaList) (rs : List CmaRecord) : rs.foldl CmaList.addRecord l =
    { cmaList := l.cmaList ∪ ((rs.map Prod.fst).filter (¬ LooksLikeModule ·)).toFinset
      isInWhitelist := fun name => if LooksLikeModule name then l.isInWhitelist name
        else ((lastType rs name).map fun t => if t = 0 then 1 else 0).or (l.isInWhitelist name) } := by
  induction rs using List.reverseRecOn with
  | nil =>
    have hflags : (fun name => if LooksLikeModule name then l.isInWhitelist name
        else ((lastType [] name).map fun t => if t = 0 then 1 else 0).or (l.isInWhitelist name)) =
          l.isInWhitelist := by
      funext name
      simp [lastType]
    rw [hflags]
    simp
  | append_singleton rs r ih =>
    rw [List.foldl_concat, ih, CmaList.addRecord]
    by_cases hm : LooksLikeModule r.1
    · rw [if_pos hm]
      congr 1
      · simp [hm]
      · funext name
        by_cases hn : LooksLikeModule name
        · rw [if_pos hn, if_pos hn]
        · have hne : r.1 ≠ name := fun he => hn (he ▸ hm)
          rw [if_neg hn, if_neg hn, lastType_concat, if_neg hne]
    · rw [if_neg hm, CmaList.add]
      congr 1
      · simp [hm, Finset.union_insert]
      · funext name
        by_cases he : name = r.1
        · subst he
          rw [Function.update_self, if_neg hm, lastType_concat, if_pos rfl]
          simp [int2str_eq_zero_iff]
        · rw [Function.update_of_ne he, lastType_concat, if_neg (Ne.symm he)]

/-- The list of records as the script has it. -/
def CmaList.ofRecords (isSharedLib : Bool) (rs : List CmaRecord) : CmaList where
  cmaList := (CmaList.start isSharedLib).cmaList ∪ ((rs.map Prod.fst).filter (¬ LooksLikeModule ·)).toFinset
  isInWhitelist name :=
    if LooksLikeModule name then none else (lastType rs name).map fun t => if t = 0 then 1 else 0

theorem foldl_addRecord_start (isSharedLib : Bool) (rs : List CmaRecord) :
    rs.foldl CmaList.addRecord (CmaList.start isSharedLib) = CmaList.ofRecords isSharedLib rs := by
  rw [foldl_addRecord]
  simp [CmaList.ofRecords, CmaList.start]

theorem readCmaList_lines (isSharedLib : Bool) {cs : List (Compilation Op)} (h : ∀ c ∈ cs, c.Lines)
    (hne : cs.flatMap Compilation.lines ≠ []) :
    readCmaList isSharedLib (some ((cs.flatMap Compilation.lines).flatMap (· ++ ['\n']))) =
      if ∃ r ∈ allRecords cs, Unreadable r then .error .valueError
      else .ok (CmaList.ofRecords isSharedLib (allRecords cs)) := by
  have hline : ∀ l ∈ cs.flatMap Compilation.lines, OneLine l := by
    intro l hl
    obtain ⟨c, hc, hl⟩ := List.mem_flatMap.mp hl
    exact (h c hc).oneLine l hl
  have hcr : '\r' ∉ (cs.flatMap Compilation.lines).flatMap (· ++ ['\n']) := by
    intro hr
    obtain ⟨l, hl, hr⟩ := List.mem_flatMap.mp hr
    exact (hline l hl).append (t := []) (by decide) |>.2 (by simpa using hr)
  have hlen : ((cs.flatMap Compilation.lines).flatMap (· ++ ['\n'])).length ≠ 0 := by
    obtain ⟨l, ls, hl⟩ := List.exists_cons_of_ne_nil hne
    rw [hl]
    simp
  unfold readCmaList
  dsimp only
  rw [universalNewlines_eq hcr, if_neg hlen, splitOn_lines fun l hl => (hline l hl).1, List.foldlM_append, foldlM_lines,
    foldlM_records,
    foldl_addRecord_start]
  split
  · rfl
  · exact cmaListLine_nil _

/-- A name in the set is the reference point's or has a flag. -/
theorem CmaList.ofRecords_flag {isSharedLib : Bool} {rs : List CmaRecord} {name : List Char}
    (h : name ∈ (CmaList.ofRecords isSharedLib rs).cmaList) :
    name = referencePointFname ∨ ((CmaList.ofRecords isSharedLib rs).isInWhitelist name).isSome := by
  rcases Finset.mem_union.mp h with h | h
  · refine .inl ?_
    cases isSharedLib with
    | true => exact absurd h (Finset.notMem_empty name)
    | false => exact Finset.mem_singleton.mp h
  · obtain ⟨hmem, hm⟩ := List.mem_filter.mp (List.mem_toFinset.mp h)
    obtain ⟨r, hr, rfl⟩ := List.mem_map.mp hmem
    have hfind : (rs.reverse.find? (·.1 = r.1)).isSome :=
      List.find?_isSome.mpr ⟨r, List.mem_reverse.mpr hr, by simp⟩
    refine .inr ?_
    simpa [CmaList.ofRecords, lastType, of_decide_eq_true hm] using hfind

/-- **What was instrumented is what the script looks for.** -/
theorem readCmaList_written (isSharedLib : Bool) {filePath : List Char} (hp : filePath ≠ [])
    {cs : List (Compilation Op)} (h : ∀ c ∈ cs, c.Lines) :
    (readCmaList isSharedLib (cmaListFile filePath cs) =
      if allRecords cs = [] then .error .fileNotFoundError
      else if ∃ r ∈ allRecords cs, Unreadable r then .error .valueError
      else .ok (CmaList.ofRecords isSharedLib (allRecords cs))) ∧
    ∀ l, readCmaList isSharedLib (cmaListFile filePath cs) = .ok l →
      ∀ cmaList : List (List Char), (∀ name, name ∈ cmaList ↔ name ∈ l.cmaList) →
      ∀ o : ObjdumpOutput, (∀ b, .function b ∈ o.blocks → b.name ∈ cmaList) →
        getAddrInfo cmaList o.text l.isInWhitelist = blocksLoop l.isInWhitelist 0 o.blocks [] := by
  have hread : readCmaList isSharedLib (cmaListFile filePath cs) =
      if allRecords cs = [] then .error .fileNotFoundError
      else if ∃ r ∈ allRecords cs, Unreadable r then .error .valueError
      else .ok (CmaList.ofRecords isSharedLib (allRecords cs)) := by
    rw [cmaListFile_eq hp]
    by_cases hnil : allRecords cs = []
    · rw [if_pos ((flatMap_lines_eq_nil_iff cs).mpr hnil), if_pos hnil]
      rfl
    · have hlines : cs.flatMap Compilation.lines ≠ [] := mt (flatMap_lines_eq_nil_iff cs).mp hnil
      rw [if_neg hlines, if_neg hnil, readCmaList_lines isSharedLib h hlines]
  refine ⟨hread, fun l hl cmaList hlist o ho => ?_⟩
  rw [hread] at hl
  have hok : CmaList.ofRecords isSharedLib (allRecords cs) = l := by
    split at hl
    · cases hl
    · split at hl
      · cases hl
      · exact Except.ok.inj hl
  subst hok
  refine getAddrInfo_text o fun b hb => ⟨ho b hb, ?_⟩
  exact CmaList.ofRecords_flag ((hlist b.name).mp (ho b hb))

/-- The entries of a pool whose `pool_alloc` has the type. -/
def poolEntries (type : Int32) : List (String × CMAEntry) :=
  [("pool_alloc", ⟨type, 1, -1, 0, -1, -1⟩), ("pool_free", ⟨2, 1, -1, -1, 0, -1⟩)]

theorem poolEntries_compiled (moduleName : List Char) {type : Int32} (h : type = 0 ∨ type = 1) :
    ∃ c : Compilation Unit, c.moduleName = moduleName ∧
      c.records = [("pool_alloc".toList, type), ("pool_free".toList, 2)] := by
  have hparse := cmaSanParseInfo_annotated (poolEntries type) fun _ => none
  rcases h with rfl | rfl
  · exact ⟨⟨moduleName, _, [poolAlloc, poolFree], _, _, ["pool_alloc", "pool_free"], by
      unfold instrumentCMA
      rw [hparse]
      rfl⟩, rfl, rfl⟩
  · exact ⟨⟨moduleName, _, [poolAlloc, poolFree], _, _, ["pool_alloc", "pool_free"], by
      unfold instrumentCMA
      rw [hparse]
      rfl⟩, rfl, rfl⟩

/-- Two modules with the pool; the second one's `pool_alloc` has the type `NONE`. -/
theorem readCmaList_written_twice : ∃ a b : Compilation Unit, ∃ l,
    a.records = [("pool_alloc".toList, 1), ("pool_free".toList, 2)] ∧
    b.records = [("pool_alloc".toList, 0), ("pool_free".toList, 2)] ∧
    readCmaList false (cmaListFile "RT_CMA_LIST".toList [a, b]) = .ok l ∧
    l.cmaList = {"pool_alloc".toList, "pool_free".toList, referencePointFname} ∧
    l.isInWhitelist "pool_alloc".toList = some 1 ∧ l.isInWhitelist "pool_free".toList = some 0 := by
  obtain ⟨a, ha, hra⟩ := poolEntries_compiled "a.c".toList (.inr rfl)
  obtain ⟨b, hb, hrb⟩ := poolEntries_compiled "b.c".toList (.inl rfl)
  have hall : allRecords [a, b] = [("pool_alloc".toList, 1), ("pool_free".toList, 2),
      ("pool_alloc".toList, 0), ("pool_free".toList, 2)] := by
    simp only [allRecords, List.flatMap_cons, List.flatMap_nil, hra, hrb, List.append_nil, List.cons_append,
      List.nil_append]
  have hlines : ∀ c ∈ [a, b], c.Lines := by
    intro c hc
    rcases List.mem_cons.mp hc with rfl | hc
    · exact ⟨ha ▸ by decide, hra ▸ by decide⟩
    · obtain rfl := List.mem_singleton.mp hc
      exact ⟨hb ▸ by decide, hrb ▸ by decide⟩
  have hpath : "RT_CMA_LIST".toList ≠ [] := by decide
  have hread := (readCmaList_written false hpath hlines).1
  rw [hall, if_neg (by decide), if_neg (by decide)] at hread
  exact ⟨a, b, _, hra, hrb, hread, by decide, by decide, by decide⟩

end Cmasan
