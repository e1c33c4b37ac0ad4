/-
# The annotation between the compiler's two passes

The Clang plugin writes what the user says of a CMA function into an
annotation of its declaration, `CMA_TARGET|type|family|id|size|ptr|num`, and
the LLVM pass reads it back into a `CMAInfo`. Both programs agree on the order
of the fields and the delimiter only. The pass takes the text apart at the
delimiters and picks the fields by position; `stoi` throws on a field that is
no number or none of an `int`.

Key definitions: `CMAInfoClang`, `annotateCMADecl`, `stoi`, `CMAInfo`,
`parseAnnotation`, `cmaSanParseInfo`.
Key theorems: `parseAnnotation_annotateCMADecl`, `cmaSanParseInfo_annotated`.
-/
import Mathlib.Algebra.Group.Int.Defs
import Mathlib.Logic.Function.Basic
import Cmasan.Lib.Delimited

namespace Cmasan

open Lib

/-! ### The plugin -/

/-- `cma_attribute_header`, which is also `kCMASanTargetAttribute`. -/
def cmaAttributeHeader : List Char := "CMA_TARGET".toList

/-- `delimiter`, which is also `kCMASanDelimiter`. -/
def delimiter : Char := '|'

/-- `INT2STR`. -/
def int2str (i : Int32) : List Char := intText i.toInt

/-- The attributes of a CMA function in the plugin. The type is text already,
`INT2STR` of the encoded type. -/
structure CMAInfoClang where
  type : List Char
  family : Int32
  idI : Int32
  sizeI : Int32
  ptrI : Int32
  numI : Int32

/-- The annotation that `AnnotateCMADecl` adds. -/
def annotateCMADecl (info : CMAInfoClang) : List Char :=
  joinDelim delimiter [cmaAttributeHeader, info.type, int2str info.family, int2str info.idI,
    int2str info.sizeI, int2str info.ptrI, int2str info.numI]

/-! ### The pass -/

/-- How the pass fails: the two exceptions of `stoi`, and a field that is not
there. -/
inductive ParseError where
  | invalidArgument
  | outOfRange
  | noField
  deriving DecidableEq, Repr

/-- `stoi`. -/
def stoi (s : List Char) : Except ParseError Int32 :=
  match readInt s with
  | none => .error .invalidArgument
  | some v => if -2 ^ 31 ≤ v ∧ v < 2 ^ 31 then .ok (.ofInt v) else .error .outOfRange

/-- `CMAInfo`; the type is the `int` that the enumeration stands for. -/
structure CMAInfo where
  type : Int32
  id : Int32
  idIdx : Int32
  sizeIdx : Int32
  ptrIdx : Int32
  numIdx : Int32
  deriving DecidableEq

/-- `PARSE_INT_FROM_FIELD`. -/
def parseIntFromField (fs : List (List Char)) (i : ℕ) : Except ParseError Int32 :=
  match fs[i]? with
  | none => .error .noField
  | some f => stoi f

/-- What `CMASanParseInfo` reads from one annotation, `none` from one that is
not of a CMA function. -/
def parseAnnotation (anno : List Char) : Except ParseError (Option CMAInfo) :=
  if cmaAttributeHeader.isPrefixOf anno then do
    let fs := fields delimiter (split delimiter anno).2
    let type ← parseIntFromField fs 0
    let id ← parseIntFromField fs 1
    let idIdx ← parseIntFromField fs 2
    let sizeIdx ← parseIntFromField fs 3
    let ptrIdx ← parseIntFromField fs 4
    let numIdx ← parseIntFromField fs 5
    return some ⟨type, id, idIdx, sizeIdx, ptrIdx, numIdx⟩
  else return none

section Module

variable {F : Type*} [DecidableEq F]

/-- `CMASanParseInfo`: `_infoMap` after the annotations of a module. An insert
does not overwrite what a function has. -/
def cmaSanParseInfo (infoMap : F → Option CMAInfo) :
    List (F × List Char) → Except ParseError (F → Option CMAInfo)
  | [] => .ok infoMap
  | (f, anno) :: annos =>
    match parseAnnotation anno with
    | .error e => .error e
    | .ok none => cmaSanParseInfo infoMap annos
    | .ok (some info) =>
      cmaSanParseInfo (if (infoMap f).isNone then Function.update infoMap f (some info) else infoMap)
        annos

end Module

/-! ### The round trip -/

@[simp] theorem stoi_int2str (i : Int32) : stoi (int2str i) = .ok i := by
  unfold stoi int2str
  rw [readInt_intText]
  show (if -2 ^ 31 ≤ i.toInt ∧ i.toInt < 2 ^ 31 then _ else _) = _
  rw [if_pos ⟨i.le_toInt, i.toInt_lt⟩, Int32.ofInt_toInt]

theorem delimiter_not_mem_int2str (i : Int32) : delimiter ∉ int2str i :=
  not_mem_intText (by decide) (by decide) i.toInt

theorem int2str_ne_nil (i : Int32) : int2str i ≠ [] := intText_ne_nil i.toInt

/-- A CMA function's attributes as numbers. -/
structure CMAEntry where
  type : Int32
  family : Int32
  id : Int32
  size : Int32
  ptr : Int32
  num : Int32

/-- The entry in the plugin, with its type as text. -/
def CMAEntry.clang (e : CMAEntry) : CMAInfoClang :=
  ⟨int2str e.type, e.family, e.id, e.size, e.ptr, e.num⟩

/-- The entry in the pass. -/
def CMAEntry.info (e : CMAEntry) : CMAInfo := ⟨e.type, e.family, e.id, e.size, e.ptr, e.num⟩

theorem annotateCMADecl_eq (e : CMAEntry) :
    annotateCMADecl e.clang = cmaAttributeHeader ++ delimiter ::
      joinDelim delimiter (([e.type, e.family, e.id, e.size, e.ptr, e.num] : List Int32).map int2str) :=
  rfl

theorem fields_annotateCMADecl (e : CMAEntry) :
    fields delimiter (split delimiter (annotateCMADecl e.clang)).2 =
      ([e.type, e.family, e.id, e.size, e.ptr, e.num] : List Int32).map int2str := by
  rw [annotateCMADecl_eq, split_append (by decide)]
  apply fields_joinDelim
  intro w hw
  obtain ⟨i, -, rfl⟩ := List.mem_map.mp hw
  exact ⟨delimiter_not_mem_int2str i, int2str_ne_nil i⟩

theorem parseIntFromField_int2str {is : List Int32} {n : ℕ} {i : Int32} (h : is[n]? = some i) :
    parseIntFromField (is.map int2str) n = .ok i := by
  unfold parseIntFromField
  rw [List.getElem?_map, h]
  exact stoi_int2str i

theorem parse_clang (e : CMAEntry) : parseAnnotation (annotateCMADecl e.clang) = .ok (some e.info) := by
  have hheader : cmaAttributeHeader.isPrefixOf (annotateCMADecl e.clang) = true :=
    List.isPrefixOf_iff_prefix.mpr ⟨_, (annotateCMADecl_eq e).symm⟩
  unfold parseAnnotation
  rw [if_pos hheader, fields_annotateCMADecl e]
  dsimp only
  rw [parseIntFromField_int2str (n := 0) rfl, parseIntFromField_int2str (n := 1) rfl,
    parseIntFromField_int2str (n := 2) rfl, parseIntFromField_int2str (n := 3) rfl,
    parseIntFromField_int2str (n := 4) rfl, parseIntFromField_int2str (n := 5) rfl]
  rfl

/-- **Decoding undoes encoding**, for any six numbers. -/
theorem parseAnnotation_annotateCMADecl (type family id size ptr num : Int32) :
    parseAnnotation (annotateCMADecl ⟨int2str type, family, id, size, ptr, num⟩) =
      .ok (some { type := type, id := family, idIdx := id, sizeIdx := size, ptrIdx := ptr,
                  numIdx := num }) :=
  parse_clang ⟨type, family, id, size, ptr, num⟩

/-- **A module of annotated functions** is read into the first entry of each
function. -/
theorem cmaSanParseInfo_annotated {F : Type*} [DecidableEq F] : ∀ (entries : List (F × CMAEntry))
    (infoMap : F → Option CMAInfo),
    cmaSanParseInfo infoMap (entries.map fun e => (e.1, annotateCMADecl e.2.clang)) =
      .ok fun f => (infoMap f).or ((entries.lookup f).map CMAEntry.info)
  | [], infoMap => by simp [cmaSanParseInfo]
  | (f, e) :: entries, infoMap => by
    have hparse : parseAnnotation (annotateCMADecl e.clang) = .ok (some e.info) :=
      parse_clang e
    rw [List.map_cons]
    unfold cmaSanParseInfo
    simp only [hparse]
    rw [cmaSanParseInfo_annotated entries]
    congr 1
    funext f'
    by_cases hf : f' = f
    · subst hf
      cases hi : infoMap f' with
      | none => simp
      | some info => simp [hi]
    · have hb : (f' == f) = false := by simpa using hf
      rw [List.lookup_cons, hb]
      cases hi : infoMap f with
      | none => simp [Function.update_of_ne hf]
      | some info => rfl

end Cmasan
