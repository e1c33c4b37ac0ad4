/-
# The identification script's loops over candidates

`analyze.py` shows the user the source of each ALLOC candidate, and then of
each candidate of each family, and collects what the user says of it. Both
loops keep a step counter that is advanced at the end of the body, and both
`continue` before that if `load_func` has no source: from there on they look
at the same candidate for ever. `load_file` itself asks `find_realpath` for a
file that does not open, a name that no script binds, so that with the scripts
as they are such a candidate ends the run with a `NameError`.

A loaded file is cached under its path, which is a `Path` in one loop and a
string in the other. `LoadedFiles` is the cache together with the fact that
what it has is what loading gives.

Key definitions: `Function`, `CMAInfo`, `Files`, `loadFile`, `loadFunc`,
`allocLoop`, `FamilyEntry`, `familyLoops`.
-/
import Cmasan.Lib.PyText
import Cmasan.Lib.StepLoop

namespace Cmasan
namespace Identification

open Lib

/-- A Python string. -/
abbrev Text := List Char

/-! ### Data -/

/-- `Function`: a line of a candidate list. -/
structure Function where
  name : Text
  path : Text
  begin_ : Text
  nLines : Text
  deriving DecidableEq

/-- The types of CMA functions. -/
inductive CMAType where
  | alloc
  | realloc
  | calloc
  | free
  | clear
  | none
  | size
  | gc
  deriving DecidableEq, Repr

/-- `CMAInfo`: a function with what the user said of it. -/
structure CMAInfo where
  name : Text
  path : Text
  begin_ : Text
  nLines : Text
  sizeIdx : ℤ
  numIdx : ℤ
  ptrIdx : ℤ
  idIdx : ℤ
  fid : ℤ
  type : CMAType
  deriving DecidableEq

/-- `get_funcion_info`. -/
def getFunctionInfo (info : CMAInfo) : Function := ⟨info.name, info.path, info.begin_, info.nLines⟩

/-- `FamilyEntry`. -/
structure FamilyEntry where
  identified : List CMAInfo
  candidates : List Function

/-- The exceptions that end the script. -/
inductive PyError where
  | nameError
  | osError
  | valueError
  | assertionError
  | attributeError
  deriving DecidableEq, Repr

/-! ### What the user answers -/

/-- The answers on an ALLOC candidate: that it is none, or the indices of its
arguments. -/
inductive AllocAnswer where
  | skip
  | allocCand (sizeIdx : ℕ) (numIdx ptrIdx idIdx : Option ℕ)

/-- An index that the user may leave out. -/
def indexOr (i : Option ℕ) : ℤ := (i.map fun n => (n : ℤ)).getD (-1)

/-- `categorize_alloc_member`. -/
def categorizeAllocMember (f : Function) : AllocAnswer → Option CMAInfo
  | .skip => none
  | .allocCand sizeIdx numIdx ptrIdx idIdx =>
    let cmaType := if numIdx.isSome then .calloc else .alloc
    let cmaType := if ptrIdx.isSome then .realloc else cmaType
    some ⟨f.name, f.path, f.begin_, f.nLines, sizeIdx, indexOr numIdx, indexOr ptrIdx, indexOr idIdx, -1,
      cmaType⟩

/-- The choices on a member of a family. -/
inductive FamilyChoice where
  | free
  | clear
  | none
  | size
  | gc
  deriving DecidableEq, Repr

/-- The type of a choice. -/
def FamilyChoice.type : FamilyChoice → CMAType
  | .free => .free
  | .clear => .clear
  | .none => .none
  | .size => .size
  | .gc => .gc

/-- The answers on a member of a family. -/
inductive FamilyAnswer where
  | skip
  | member (choice : FamilyChoice) (ptrIdx : ℕ) (idIdx : Option ℕ)

/-- `categorize_family_member`; the index of the pointer is asked for `FREE`
and `SIZE`, the instance's for all but `NONE`. -/
def categorizeFamilyMember (f : Function) (allocInfo : CMAInfo) : FamilyAnswer → Option CMAInfo
  | .skip => none
  | .member choice ptrIdx idIdx =>
    let ptrIdx : ℤ := if choice = .free ∨ choice = .size then ptrIdx else -1
    let idIdx : ℤ := if choice = .none then -1 else indexOr idIdx
    some ⟨f.name, f.path, f.begin_, f.nLines, -1, -1, ptrIdx, idIdx, allocInfo.fid, choice.type⟩

/-! ### Loading a function's source -/

/-- A key of `loaded_files`: a `Path` is another key than its string. -/
inductive SourceKey where
  | path (p : Text)
  | str (p : Text)
  deriving DecidableEq

/-- The files: what opens under a path and what it says, and `find_realpath`. -/
structure Files where
  read : SourceKey → Option Text
  findRealpath : SourceKey → Except PyError (Option SourceKey)

/-- The `try` of `load_file` and its `except`: what a file says that is not in
the cache. -/
def Files.source (W : Files) (filePath : SourceKey) : Except PyError (Option Text) :=
  match W.read filePath with
  | some content => .ok content
  | none =>
    match W.findRealpath filePath with
    | .error e => .error e
    | .ok none => .ok none
    | .ok (some result) =>
      match W.read result with
      | some content => .ok content
      | none => .error .osError

/-- `loaded_files`: what is in it is what loading gives. -/
structure LoadedFiles (W : Files) where
  file : SourceKey → Option Text
  loaded : ∀ filePath content, file filePath = some content → W.source filePath = .ok content

/-- No file loaded yet. -/
def LoadedFiles.empty (W : Files) : LoadedFiles W := ⟨fun _ => none, fun _ _ h => by cases h⟩

/-- `loaded_files[file_path] = f.read()`. -/
def LoadedFiles.set {W : Files} (c : LoadedFiles W) (filePath : SourceKey) (content : Text)
    (h : W.source filePath = .ok content) : LoadedFiles W where
  file p := if p = filePath then some content else c.file p
  loaded p content' hp := by
    split at hp
    · rename_i he
      obtain rfl := Option.some.inj hp
      rw [he, h]
    · exact c.loaded p content' hp

/-- `load_file`. -/
def loadFile {W : Files} (c : LoadedFiles W) (filePath : SourceKey) :
    Except PyError (LoadedFiles W × Option Text) :=
  match c.file filePath with
  | some content => .ok (c, some content)
  | none =>
    match h : W.source filePath with
    | .error e => .error e
    | .ok none => .ok (c, none)
    | .ok (some content) => .ok (c.set filePath content h, some content)

/-- The lines of a function with some lines around it. -/
def functionLines (content : Text) (beg nLines : ℤ) : Text :=
  let file := content.splitOn '\n'
  let end_ := min (beg + nLines + 1) file.length
  joinDelim '\n' (slice file (max 0 (beg - 2)) end_)

/-- `load_func`; the numbers are texts in the one loop and numbers made from
them in the other. -/
def loadFunc {W : Files} (c : LoadedFiles W) (filePath : SourceKey) (f : Function) :
    Except PyError (LoadedFiles W × Option Text) :=
  match loadFile c filePath with
  | .error e => .error e
  | .ok (c, content) =>
    match pyInt 10 f.begin_, pyInt 10 f.nLines with
    | some beg, some nLines => .ok (c, content.map fun text => functionLines text beg nLines)
    | _, _ => .error .valueError

/-! ### The loops -/

/-- The state of a loop: the cache, the number of questions asked, the
candidates shown and the functions identified. -/
structure Session (W : Files) where
  loadedFiles : LoadedFiles W
  prompts : ℕ
  visited : List Function
  identified : List CMAInfo

/-- What follows when the user is shown a candidate: the answer is kept if it
is one. -/
def Session.answered {W : Files} (s : Session W) (c : LoadedFiles W) (f : Function)
    (info : Option CMAInfo) : Session W where
  loadedFiles := c
  prompts := s.prompts + 1
  visited := s.visited ++ [f]
  identified := s.identified ++ info.toList

/-- The body of the ALLOC loop; it advances the step unless `load_func` has no
source. The numbers are converted before the file is loaded. -/
def allocBody {W : Files} (answers : ℕ → AllocAnswer) (allocCand : Function) (s : Session W) :
    Except PyError (Session W × Bool) :=
  match pyInt 10 allocCand.begin_, pyInt 10 allocCand.nLines with
  | some _, some _ =>
    match loadFunc s.loadedFiles (.path allocCand.path) allocCand with
    | .error e => .error e
    | .ok (c, none) => .ok ({ s with loadedFiles := c }, false)
    | .ok (c, some _) =>
      .ok (s.answered c allocCand (categorizeAllocMember allocCand (answers s.prompts)), true)
  | _, _ => .error .valueError

/-- The ALLOC loop. -/
def allocLoop {W : Files} (answers : ℕ → AllocAnswer) (allocCandFuncs : List Function) (fuel : ℕ)
    (s : Session W) : Outcome PyError (Session W) :=
  stepLoop (allocBody answers) allocCandFuncs fuel 0 s

/-- The body of the loop over a family's candidates. `categorize_family_member`
shows the source of the first ALLOC, `None` if there is none, next to the candidate's. -/
def familyBody {W : Files} (answers : ℕ → FamilyAnswer) (allocInfo : CMAInfo) (allocFuncCode : Option Text)
    (familyCand : Function) (s : Session W) : Except PyError (Session W × Bool) :=
  match loadFunc s.loadedFiles (.str familyCand.path) familyCand with
  | .error e => .error e
  | .ok (c, none) => .ok ({ s with loadedFiles := c }, false)
  | .ok (c, some _) =>
    match allocFuncCode with
    -- `Syntax` has no text to take apart
    | none => .error .attributeError
    | some _ =>
      .ok (s.answered c familyCand (categorizeFamilyMember familyCand allocInfo (answers s.prompts)), true)

/-- The loop over one family's candidates, after its assertion; `identified`
is the family's. -/
def familyLoop {W : Files} (answers : ℕ → FamilyAnswer) (fuel : ℕ) (family : FamilyEntry)
    (s : Session W) : Outcome PyError (Session W) :=
  match family.identified with
  | [] => .raised .assertionError
  | allocInfo :: _ =>
    match loadFunc s.loadedFiles (.str allocInfo.path) (getFunctionInfo allocInfo) with
    | .error e => .raised e
    | .ok (c, allocFuncCode) =>
      stepLoop (familyBody answers allocInfo allocFuncCode) family.candidates fuel 0
        { s with loadedFiles := c, identified := family.identified }

/-- The loops over all families, with the families as they are left. -/
def familyLoops {W : Files} (answers : ℕ → FamilyAnswer) (fuel : ℕ) :
    List FamilyEntry → Session W → Outcome PyError (List FamilyEntry × Session W)
  | [], s => .done ([], s)
  | family :: families, s =>
    match familyLoop answers fuel family s with
    | .raised e => .raised e
    | .outOfFuel => .outOfFuel
    | .done s =>
      match familyLoops answers fuel families s with
      | .raised e => .raised e
      | .outOfFuel => .outOfFuel
      | .done (left, s') => .done ({ family with identified := s.identified } :: left, s')

end Identification
end Cmasan
