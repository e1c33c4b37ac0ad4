/-
# The instrumentation pass

`CMASanitizer` rewrites the functions that an annotation names: calls of the
hooks at the entry, and before each return, by the type that the user gave the
function. The size argument of an allocation is replaced by the extended size
in the whole function, the pointer argument of a free by what the release hook
returns; a free of nothing returns at once if the function has a type it can
return. After each call of `munmap` the flush hook is called.

The pass works on functions in SSA form (`Lib.Ssa`); `none` is a compiler that
does not go on: an assertion of LLVM that fails, `llvm_unreachable`, an
exception, or a pointer that is read and was not set. Operands have no types,
so the assertions on their types are left out. `IRBuilder` is what has been
inserted at the entry so far.

Key definitions: `IrFunction`, `IRBuilder`, `getCMAQuarantineZoneID`,
`instrumentTargetFunction`, `instrumentMmapFamily`, `instrumentCMA`.
-/
import Cmasan.Annotation
import Cmasan.Lib.SsaPass

namespace Cmasan

open Lib Ssa

/-! ### Functions -/

/-- What a pointer points to, by what its size is taken from. -/
inductive ElemTy
  | struct (allocSize : ℕ)
  | scalar (sizeInBits : ℕ)
  | unsized
  deriving DecidableEq, Repr

/-- A type, as far as the pass looks at it. -/
inductive Ty
  | ptr (elem : ElemTy)
  | int (bits : ℕ)
  | void
  | other
  deriving DecidableEq, Repr

/-- An attribute of a function. -/
inductive FnAttr
  | readOnly
  | readNone
  | writeOnly
  | argMemOnly
  | speculatable
  | cmaTarget
  | other (name : String)
  deriving DecidableEq, Repr

/-- A function of a module; a declaration has no body. `instrumented` is the
metadata `cma.function.instrumented`. -/
structure IrFunction (Op : Type) where
  name : String
  params : List Ty
  retTy : Ty
  attrs : List FnAttr
  instrumented : Bool
  body : Option (Func String Op)
  deriving DecidableEq

/-- `CMA_TYPE`, as the `int` of an annotation is cast to it. -/
inductive CMAType
  | none
  | alloc
  | free
  | realloc
  | calloc
  | size
  | logTarget
  | clear
  | gc
  | undefined
  deriving DecidableEq, Repr

def CMAInfo.cmaType (info : CMAInfo) : CMAType :=
  if info.type = 0 then .none
  else if info.type = 1 then .alloc
  else if info.type = 2 then .free
  else if info.type = 3 then .realloc
  else if info.type = 4 then .calloc
  else if info.type = 5 then .size
  else if info.type = 6 then .logTarget
  else if info.type = 7 then .clear
  else if info.type = 8 then .gc
  else .undefined

def kCMASizeGetterFName : String := "__asan_getCMAChunkSize"
def kReallocateCMAChunkStartFName : String := "__asan_reallocateCMAChunkStart"
def kReallocateCMAChunkEndFName : String := "__asan_reallocateCMAChunkEnd"
def kAllocateCMAChunkFName : String := "__asan_allocateCMAChunk"
def kReleaseCMAChunkFName : String := "__asan_releaseCMAChunk"
def kIsInOtherCMAFName : String := "__asan_isInOtherCMA"
def kCMAExtendSizeFName : String := "__asan_extendSize"
def kLogCMARelatedFName : String := "__asan_log_cma_related_function"
def kCMAClearCMAChunksFName : String := "__asan_clearCMAChunks"
def kCMAEmptyQuarantineOnGC : String := "__asan_emptyQuarantineOnGC"
def kCMAFlushMmapRangeFName : String := "__asan_flushMmapRange"

variable {Op : Type}

namespace IrFunction

variable (F : IrFunction Op)

/-- `removeFnAttrs` of what a function with a hook in it does not keep. -/
def clearAttrs : IrFunction Op :=
  { F with
    attrs := F.attrs.filter fun a =>
      a ∉ [FnAttr.readOnly, .readNone, .writeOnly, .argMemOnly, .speculatable] }

/-- `getArg`; it asserts that there is one. -/
def getArg (i : Int32) : Option Operand :=
  if 0 ≤ i.toInt ∧ i.toInt.toNat < F.params.length then some (.arg i.toInt.toNat) else none

/-- The argument of an index, if the index is not -1. -/
def argAt (i : Int32) : Option (Option Operand) := if i = -1 then some none else (F.getArg i).map some

end IrFunction

/-! ### What is inserted -/

/-- The instructions that are inserted at one place, in order, and the next
register. -/
structure IRBuilder (Op : Type) where
  instrs : List (Instr String Op)
  nextReg : ℕ

namespace IRBuilder

variable (B : IRBuilder Op)

/-- `CreateNewCIBeforeInst` of a function without a value. -/
def createVoidCall (f : String) (as : List Operand) : IRBuilder Op :=
  { B with instrs := B.instrs ++ [.call none (.direct f) as] }

/-- `CreateNewCIBeforeInst`. -/
def createCall (f : String) (as : List Operand) : Operand × IRBuilder Op :=
  (.reg B.nextReg, ⟨B.instrs ++ [.call (some B.nextReg) (.direct f) as], B.nextReg + 1⟩)

/-- `CreatePtrToInt` and `CreateBitCast`. -/
def createCast (v : Operand) : Operand × IRBuilder Op :=
  (.reg B.nextReg, ⟨B.instrs ++ [.cast B.nextReg v], B.nextReg + 1⟩)

/-- `CreateIsNull`. -/
def createIsNull (v : Operand) : Operand × IRBuilder Op :=
  (.reg B.nextReg, ⟨B.instrs ++ [.isNull B.nextReg v], B.nextReg + 1⟩)

/-- `CreateBitCastOnTypeMismatch` of a pointer `newV` to the type of what it
replaces; only a pointer can be cast to. -/
def createBitCastOnTypeMismatch (newV : Operand) (newTy orgTy : Ty) : Option (Operand × IRBuilder Op) :=
  if newTy = orgTy then some (newV, B)
  else
    match orgTy with
    | .ptr _ => some (B.createCast newV)
    | _ => none

/-- `replaceAllUsesWith`, where the uses are inserted instructions. -/
def replaceAllUsesWith (a : ℕ) (v : Operand) : IRBuilder Op :=
  { B with instrs := B.instrs.map (·.mapOperands (replaceArg a v)) }

/-- `setArgOperand(0, v)` of the call whose value is in `r`. -/
def setArgOperand0 (r : Operand) (v : Operand) : IRBuilder Op :=
  { B with
    instrs := B.instrs.map fun
      | .call (some dst) f (a :: as) =>
        if r = .reg dst then .call (some dst) f (v :: as) else .call (some dst) f (a :: as)
      | i => i }

end IRBuilder

/-- The type of a pointer-sized integer, and of a pointer to one. -/
def intTy : Ty := .int 64
def intPtrTy : Ty := .ptr (.scalar 64)

/-- `getCMAQuarantineZoneID`: the id argument, else the family, else the first
argument if it is neither the pointer nor the size, else 1. -/
def getCMAQuarantineZoneID (B : IRBuilder Op) (F : IrFunction Op) (info : CMAInfo) :
    Option (Operand × IRBuilder Op) :=
  if info.idIdx ≠ -1 then (F.getArg info.idIdx).map (·, B)
  else if info.id ≠ -1 then some (.const (BitVec.ofInt 64 info.id.toInt).toNat, B)
  else if info.ptrIdx = 0 ∨ info.sizeIdx = 0 then some (.const 1, B)
  else
    match F.params with
    | [] => some (.const 1, B)
    | .ptr _ :: _ => some (B.createCast (.arg 0))
    | .int bits :: _ => if .int bits = intTy then some (.arg 0, B) else none
    | _ => some (.const 1, B)

/-- The granularity of a function that has no argument for it, by the type it
returns. -/
def granularityOf (retTy : Ty) : Option ℕ :=
  match retTy with
  | .ptr (.struct allocSize) => some allocSize
  | .ptr (.scalar sizeInBits) => some (sizeInBits / 8)
  | .ptr .unsized => none
  | .int bits => some (bits / 8)
  | .void | .other => none

/-- What a `FREE` returns when there is nothing to free, if its type is one that
it can return early. Operands have no types here: for an `i8` the source takes
`ConstantInt::getTrue`, which is an `i1`. -/
def earlyReturnOperand (retTy : Ty) : Option (Option Operand) :=
  match retTy with
  | .void => some none
  | .int 8 => some (some (.const 1))
  | .ptr _ => some (some (.const 0))
  | _ => none

/-- The instructions `hook n v` before each return of a `v`; the operand that
`hook` gives is returned. A return of nothing has no operand to look at. -/
def instrumentReturns (hook : ℕ → Operand → Option (List (Instr String Op) × Operand × ℕ)) :
    ℕ → List (BasicBlock String Op) → Option (List (BasicBlock String Op) × ℕ)
  | n, [] => some ([], n)
  | n, b :: bs =>
    match b.term with
    | .ret none => none
    | .ret (some v) =>
      match hook n v with
      | none => none
      | some (is, v', n') =>
        (instrumentReturns hook n' bs).map fun (bs, n) =>
          ({ b with instrs := b.instrs ++ is, term := .ret (some v') } :: bs, n)
    | _ => (instrumentReturns hook n bs).map fun (bs, n) => (b :: bs, n)

namespace IrFunction

variable (F : IrFunction Op)

/-- The function with the body, its inserted entry instructions and the next
register. -/
def withEntry (body : Func String Op) (B : IRBuilder Op) : IrFunction Op :=
  { F with body := some { body.insertEntry B.instrs with nextReg := B.nextReg } }

/-- `withEntry`, and the hook before each return. -/
def withReturns (body : Func String Op) (B : IRBuilder Op)
    (hook : ℕ → Operand → Option (List (Instr String Op) × Operand × ℕ)) : Option (IrFunction Op) :=
  (instrumentReturns hook B.nextReg (body.insertEntry B.instrs).blocks).map fun (blocks, n) =>
    { F with body := some { body with blocks := blocks, nextReg := n } }

/-! ### One function -/

/-- The granularity: the argument of a `CALLOC`, else a constant. -/
def granularityArg (info : CMAInfo) : Option Operand :=
  if info.cmaType = .calloc then F.getArg info.numIdx else (granularityOf F.retTy).map .const

/-- The hooks of `ALLOC`, `CALLOC` and `REALLOC`: the extended size takes the
place of the size. -/
def instrumentAlloc (body : Func String Op) (info : CMAInfo) (sizeArg ptrInArg : Option Operand) :
    Option (Bool × IrFunction Op) := do
  let (idArg, B) ← getCMAQuarantineZoneID ⟨[], body.nextReg⟩ F info
  let (isInCMAArg, B) := B.createCall kIsInOtherCMAFName []
  match sizeArg with
  | none => return (false, F.withEntry body B)
  | some sizeArg =>
    if info.cmaType = .calloc ∧ info.numIdx = -1 then return (false, F.withEntry body B)
    else
      let granularityArg ← F.granularityArg info
      let (extendedSize, B) := B.createCall kCMAExtendSizeFName [sizeArg, granularityArg, isInCMAArg]
      let size := info.sizeIdx.toInt.toNat
      let B := (B.replaceAllUsesWith size extendedSize).setArgOperand0 extendedSize sizeArg
      let body := body.mapOperands (replaceArg size extendedSize)
      if info.cmaType = .realloc then
        let ptrIn ← ptrInArg
        let B := B.createVoidCall kReallocateCMAChunkStartFName [ptrIn, isInCMAArg, idArg]
        let F ← F.withReturns body B fun n v => some
          ([.call none (.direct kReallocateCMAChunkEndFName)
            [ptrIn, v, sizeArg, granularityArg, idArg, isInCMAArg]], v, n)
        return (true, F)
      else
        let F ← F.withReturns body B fun n v => some
          ([.call none (.direct kAllocateCMAChunkFName) [v, sizeArg, granularityArg, idArg, isInCMAArg]],
            v, n)
        return (true, F)

/-- The blocks of a `FREE`: `cma.entry`, and `cma.return` if the function has a
type that it can return early. -/
def instrumentFree (body : Func String Op) (info : CMAInfo) (ptrInArg : Option Operand) :
    Option (Bool × IrFunction Op) := do
  let (idArg, B) ← getCMAQuarantineZoneID ⟨[], body.nextReg⟩ F info
  let (isInCMAArg, B) := B.createCall kIsInOtherCMAFName []
  match ptrInArg, body.blocks.head? with
  | _, none => none
  | none, some _ =>
    -- the new entry has no terminator
    return (false, { F with
      body := some ({ body with nextReg := B.nextReg, nextLabel := body.nextLabel + 1 }.prepend
        [⟨body.nextLabel, [], B.instrs, .missing⟩]) })
  | some ptrIn, some entry =>
    let ptr := info.ptrIdx.toInt.toNat
    let (released, B) := B.createCall kReleaseCMAChunkFName [ptrIn, idArg, isInCMAArg]
    let (releasedCast, B) ← B.createBitCastOnTypeMismatch released intPtrTy (F.params.getD ptr .other)
    let B := (B.replaceAllUsesWith ptr releasedCast).setArgOperand0 released ptrIn
    let body := body.mapOperands (replaceArg ptr releasedCast)
    match earlyReturnOperand F.retTy with
    | some v =>
      let (isPtrNull, B) := B.createIsNull releasedCast
      return (true, { F with
        body := some ({ body with nextReg := B.nextReg, nextLabel := body.nextLabel + 2 }.prepend
          [⟨body.nextLabel, [], B.instrs, .condBr isPtrNull (body.nextLabel + 1) entry.label⟩,
            ⟨body.nextLabel + 1, [], [], .ret v⟩]) })
    | none =>
      return (true, { F with
        body := some ({ body with nextReg := B.nextReg, nextLabel := body.nextLabel + 1 }.prepend
          [⟨body.nextLabel, [], B.instrs, .br entry.label⟩]) })

/-- The hook of `CLEAR` and of `GC`. -/
def instrumentScope (body : Func String Op) (info : CMAInfo) (hook : String) :
    Option (Bool × IrFunction Op) := do
  let (idArg, B) ← getCMAQuarantineZoneID ⟨[], body.nextReg⟩ F info
  let (_, B) := B.createCall kIsInOtherCMAFName []
  return (true, F.withEntry body (B.createVoidCall hook [idArg]))

/-- The hook of `SIZE`: its value is returned for the function's own. -/
def instrumentSize (body : Func String Op) (ptrInArg : Option Operand) : Option (Bool × IrFunction Op) := do
  let F ← F.withReturns body ⟨[], body.nextReg⟩ fun n v => do
    let ptrIn ← ptrInArg
    some ([.call (some n) (.direct kCMASizeGetterFName) [ptrIn, v]], .reg n, n + 1)
  return (true, F)

end IrFunction

/-- `InstrumentTargetFunction`; false says that the info is not one that the
type needs. -/
def instrumentTargetFunction (F : IrFunction Op) (body : Func String Op) (info : CMAInfo) :
    Option (Bool × IrFunction Op) :=
  if info.cmaType = .none then some (true, F)
  else
    let F := F.clearAttrs
    if info.cmaType = .logTarget then
      some (true, F.withEntry body
        (IRBuilder.createVoidCall ⟨[], body.nextReg⟩ kLogCMARelatedFName []))
    else do
      let sizeArg ← F.argAt info.sizeIdx
      let ptrInArg ← F.argAt info.ptrIdx
      match info.cmaType with
      | .alloc | .calloc | .realloc => F.instrumentAlloc body info sizeArg ptrInArg
      | .free => F.instrumentFree body info ptrInArg
      | .clear => F.instrumentScope body info kCMAClearCMAChunksFName
      | .gc => F.instrumentScope body info kCMAEmptyQuarantineOnGC
      | .size => F.instrumentSize body ptrInArg
      | _ => some (false, F.withEntry body
          (IRBuilder.createCall ⟨[], body.nextReg⟩ kIsInOtherCMAFName []).2)

/-! ### The module -/

/-- `InstrumentMmapFamily`: what goes after a call of `munmap`. -/
def instrumentMmapFamily : Instr String Op → List (Instr String Op)
  | .call _ (.direct "munmap") (ptrArg :: sizeArg :: _) =>
    [.call none (.direct kCMAFlushMmapRangeFName) [ptrArg, sizeArg]]
  | _ => []

/-- A call of `munmap` has the two arguments. -/
def munmapArgs : Instr String Op → Bool
  | .call _ (.direct "munmap") as => 2 ≤ as.length
  | _ => true

/-- The calls of `munmap` in one function. -/
def instrumentMunmaps (F : IrFunction Op) : Option (IrFunction Op) :=
  match F.body with
  | none => some F
  | some body =>
    if body.blocks.all (·.instrs.all munmapArgs) then
      some { F with body := some (body.insertAfter instrumentMmapFamily) }
    else none

/-- `getCMAInfo`. -/
def getCMAInfo (infoMap : String → Option CMAInfo) (f : String) : CMAInfo :=
  (infoMap f).getD ⟨0, 0, 0, 0, 0, 0⟩

/-- The function is to be instrumented, with its body. -/
def IrFunction.target (F : IrFunction Op) : Option (Func String Op) :=
  if .cmaTarget ∈ F.attrs ∧ F.instrumented = false then F.body else none

/-- A target instrumented, with its name if the info was one that it needs. -/
def instrumentTarget (infoMap : String → Option CMAInfo) (F : IrFunction Op) : Option (IrFunction Op × List String) :=
  match F.target with
  | none => some (F, [])
  | some body =>
    (instrumentTargetFunction F body (getCMAInfo infoMap F.name)).map fun
      | (true, F) => ({ F with instrumented := true }, [F.name])
      | (false, F) => (F, [])

/-- The loop of `InstrumentCMA`; the names are `InstrumentedCMAs`. -/
def instrumentFunctions (infoMap : String → Option CMAInfo) :
    List (IrFunction Op) → Option (List (IrFunction Op) × List String)
  | [] => some ([], [])
  | F :: Fs => do
    let (F, names) ← instrumentTarget infoMap F
    let F ← instrumentMunmaps F
    let (Fs, names') ← instrumentFunctions infoMap Fs
    return (F :: Fs, names ++ names')

/-- The attribute that `CMASanParseInfo` adds. -/
def IrFunction.markTarget (annos : List (String × List Char)) (F : IrFunction Op) : IrFunction Op :=
  if annos.any fun x => x.1 = F.name ∧ cmaAttributeHeader.isPrefixOf x.2 then
    { F with attrs := .cmaTarget :: F.attrs }
  else F

/-- `InstrumentCMA`: the module, `_infoMap` and `InstrumentedCMAs` after it. -/
def instrumentCMA (infoMap : String → Option CMAInfo) (annos : List (String × List Char))
    (M : List (IrFunction Op)) :
    Option (List (IrFunction Op) × (String → Option CMAInfo) × List String) :=
  match cmaSanParseInfo infoMap annos with
  | .error _ => none
  | .ok infoMap =>
    (instrumentFunctions infoMap (M.map (·.markTarget annos))).map fun (M, names) => (M, infoMap, names)

end Cmasan
