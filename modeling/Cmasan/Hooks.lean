/-
# The hooks

The calls that the instrumentation puts into a custom allocator:
`__asan_allocateCMAChunk` when it hands out memory, `__asan_releaseCMAChunk`
when it is asked to free some (the pointer it returns is the one the allocator
then frees; 0 says none), a `Start` and an `End` around a `realloc`,
`__asan_clearCMAChunks` when it drops everything. They work on one state: the
table, the shadow, the quarantine and the lists of allocated chunks.

`log` is what happened in order: the lock taken and let go, writes to shared
data, pushes and reports. `ReportDoubleFree` is modelled as in recover mode:
it reports and returns. A hook that returns `none` did not return.

Key definitions: `State`, `allocateCMAChunk`, `releaseCMAChunk`,
`reallocateCMAChunkStart`, `reallocateCMAChunkEnd`, `clearCMAChunks`.
-/
import Cmasan.Quarantine
import Cmasan.Shadow

namespace Cmasan

/-- What happens during a hook. -/
inductive Event
  | lock
  | unlock
  | writeChunkInfo (c : ℕ)
  | insertChunkInfo
  | popPtrIfMax (id : ℕ)
  | pushPtr (id ptr : ℕ)
  | emptyQuarantine (id : ℕ)
  | writeAllocListZone (id : ℕ)
  | reportDoubleFree (ptr : ℕ)
  deriving DecidableEq, Repr

/-- The state of the runtime. -/
structure State where
  tlt : Tlt
  shadow : Shadow
  qz : Quarantine
  alz : Registry AllocListZone
  log : List Event

/-- The state at the start: nothing tracked, nothing poisoned. -/
def State.initial : State :=
  ⟨initializeTlt, fun _ => 0, .initial, .empty newAllocListZone, []⟩

namespace State

/-- Something happens. -/
def emit (s : State) (e : Event) : State := { s with log := s.log ++ [e] }

/-- `tlt_lock_chunk_info`. -/
def lock (F : Flags) (s : State) : State := if F.isLockOff then s else s.emit .lock

/-- `tlt_unlock_chunk_info`. -/
def unlock (F : Flags) (s : State) : State := if F.isLockOff then s else s.emit .unlock

/-- `ReportDoubleFree`. -/
def reportDoubleFree (F : Flags) (s : State) (ptr : ℕ) : State :=
  if F.isReportAlwaysOff then s else s.emit (.reportDoubleFree ptr)

/-- A write to the status of an info. -/
def setStatus (s : State) (c : ℕ) (status : Status) : State :=
  { s with tlt := s.tlt.setInfo c { s.tlt.info c with status } }.emit (.writeChunkInfo c)

/-- `pushAndPopFromQuarantine`. -/
def pushAndPop (F : Flags) (s : State) (ptr : ℕ) : Option (ℕ × State) :=
  (pushAndPopFromQuarantine F s.tlt s.qz ptr).map fun (result, qz) =>
    let log := match F.isQuarantineZoneOn, tltGet s.tlt ptr with
      | true, some c => [.popPtrIfMax (s.tlt.info c).cmaId, .pushPtr (s.tlt.info c).cmaId ptr]
      | _, _ => []
    (result, { s with qz, log := s.log ++ log })

end State

/-- What `releaseCMAChunkImpl` and `__asan_clearCMAChunks` do to a chunk: it
becomes a released chunk of `id`, and its range is poisoned. -/
def freeChunk (F : Flags) (k : Caller) (s : State) (c ptr id : ℕ) : Option State :=
  let i := s.tlt.info c
  let userAlignedBeg := roundDownTo ptr 8
  let poisonSize := uadd (uadd i.rzSize i.chunkSize) (ptr - userAlignedBeg)
  (poisonShadow F.canPoisonMemory s.shadow userAlignedBeg poisonSize kAsanHeapFreeMagic).map fun shadow =>
    { s with
      tlt := s.tlt.setInfo c { i with
        status := .deallocated, freeStackId := k.stackId, freeThreadId := k.tid, cmaId := id }
      shadow }.emit (.writeChunkInfo c)

/-- `releaseCMAChunkImpl`; false says that the pointer is not a tracked chunk. -/
def releaseCMAChunkImpl (F : Flags) (k : Caller) (s : State) (ptr id : ℕ) : Option (Bool × State) :=
  match tltGet s.tlt ptr with
  | none => some (false, s)
  | some c =>
    let i := s.tlt.info c
    if i.startAddr ≠ ptr then some (false, s)
    else
      let s :=
        if i.status = .deallocated ∧ i.cmaId = id ∧ ¬ isCMAInCallStackSkipOneCMA F.cmaPcRange k.trace then
          (s.unlock F).reportDoubleFree F ptr
        else s
      (freeChunk F k s c ptr id).map fun s => (true, s)

/-- The first part of `__asan_releaseCMAChunk`, for a pointer that is being
reallocated: the pointer to return, if that is known. -/
def releaseInRealloc (F : Flags) (s : State) (ptr : ℕ) : Option (Option ℕ × State) :=
  if F.isQuarantineZoneOn then
    let s := s.lock F
    match tltGet s.tlt ptr with
    | some c =>
      if (s.tlt.info c).status = .inRealloc then
        ((s.setStatus c .deallocated).pushAndPop F ptr).map fun (r, s) => (some r, s.unlock F)
      else some (none, s.unlock F)
    | none => some (none, s.unlock F)
  else some (none, s)

/-- `__asan_releaseCMAChunk`. -/
def releaseCMAChunk (F : Flags) (k : Caller) (s : State) (ptr id : ℕ) (isInCma : Bool) :
    Option (ℕ × State) :=
  if ptr = 0 then some (ptr, s)
  else
    (releaseInRealloc F s ptr).bind fun
      | (some r, s) => some (r, s)
      | (none, s) =>
        if isInCma then some (ptr, s)
        else
          (releaseCMAChunkImpl F k (s.lock F) ptr id).bind fun
            | (false, s) => some (ptr, s.unlock F)
            | (true, s) => (s.pushAndPop F ptr).map fun (r, s) => (r, s.unlock F)

/-- The shadow of a new chunk, as `allocateCMAChunkImpl` writes it. -/
def poisonNewChunk (canPoisonMemory : Bool) (s : Shadow) (ptr size rzSize : ℕ) : Option Shadow :=
  let userAlignedBeg := roundDownTo ptr 8
  let userAlignedSize := uadd size (ptr - userAlignedBeg)
  let sizeRoundedDown := roundDownTo userAlignedSize 8
  let poisonSize := uadd userAlignedSize rzSize
  (poisonShadow canPoisonMemory s userAlignedBeg (uadd poisonSize 8) 0).bind fun s =>
    (poisonShadow canPoisonMemory s userAlignedBeg poisonSize kAsanHeapLeftRedzoneMagic).bind fun s =>
      (if sizeRoundedDown ≠ 0 then poisonShadow canPoisonMemory s userAlignedBeg sizeRoundedDown 0
        else some s).map fun s =>
        if userAlignedSize ≠ sizeRoundedDown ∧ canPoisonMemory then
          Function.update s (uadd userAlignedBeg sizeRoundedDown / 8) (userAlignedSize &&& 7)
        else s

/-- `allocateCMAChunkImpl`. -/
def allocateCMAChunkImpl (F : Flags) (k : Caller) (s : State) (ptr sizeInGranularity granularity id : ℕ) :
    Option State :=
  let size := umul sizeInGranularity granularity
  if size ≠ 0 then
    let extendedSize := extendSize F.rz sizeInGranularity granularity false
    if extendedSize = sizeInGranularity then some s
    else
      let extendedChunkSize := umul extendedSize granularity
      let extendedChunkEnd := roundDownTo (uadd ptr extendedChunkSize) 8
      let extendedChunkSize := usub extendedChunkEnd ptr
      let rzSize := u32 (usub extendedChunkSize size)
      (tltInsert s.tlt ptr size rzSize id k.stackId k.tid).bind fun tlt =>
        (poisonNewChunk F.canPoisonMemory s.shadow ptr size rzSize).map fun shadow =>
          { s with
            tlt
            shadow
            alz := addCMAAllocChunk F s.alz id ptr
            log := s.log ++ [.insertChunkInfo, .writeAllocListZone id] }
  else
    -- an empty object gets the granule of its address
    let pseudoChunkEnd := roundDownTo (uadd ptr 8) 8
    let rzSize := u32 (usub pseudoChunkEnd ptr)
    (tltInsert s.tlt ptr size rzSize id k.stackId k.tid).bind fun tlt =>
      (poisonShadow F.canPoisonMemory s.shadow (roundDownTo ptr 8) 8 0).map fun shadow =>
        { s with tlt, shadow, log := s.log ++ [.insertChunkInfo] }

/-- `__asan_allocateCMAChunk`. -/
def allocateCMAChunk (F : Flags) (k : Caller) (s : State) (ptr size granularity id : ℕ)
    (isInCma : Bool) : Option State :=
  if isInCma ∨ ptr = 0 then some s
  else (allocateCMAChunkImpl F k (s.lock F) ptr size granularity id).map (State.unlock F)

/-- `__asan_reallocateCMAChunkStart`. -/
def reallocateCMAChunkStart (F : Flags) (s : State) (oldPtr : ℕ) (isInCma : Bool) (id : ℕ) : State :=
  if isInCma then s
  else
    let s := s.lock F
    match tltGet s.tlt oldPtr with
    | none => s.unlock F
    | some c =>
      let i := s.tlt.info c
      let s :=
        if i.status = .deallocated ∧ i.cmaId = id then (s.unlock F).reportDoubleFree F oldPtr else s
      let userAlignedBeg := roundDownTo oldPtr 8
      let poisonSize := uadd (uadd i.rzSize i.chunkSize) (oldPtr - userAlignedBeg)
      let s := { s with shadow := fastPoisonShadow s.shadow userAlignedBeg poisonSize 0 }
      (s.setStatus c .inRealloc).unlock F

/-- What `__asan_reallocateCMAChunkEnd` does to the old chunk. -/
def releaseOldChunk (F : Flags) (k : Caller) (s : State) (oldPtr newPtr id : ℕ) : Option State :=
  let oldPtrChunkInfo := tltGet s.tlt oldPtr
  if F.isQuarantineZoneOn ∧ oldPtr ≠ newPtr then
    match oldPtrChunkInfo with
    | none => some s
    | some c =>
      -- the chunk is in the quarantine, by a free inside the realloc: no report
      let s := if (s.tlt.info c).status = .deallocated then s.setStatus c .inRealloc else s
      (releaseCMAChunkImpl F k s oldPtr id).map (·.2)
  else if oldPtr = newPtr then
    match oldPtrChunkInfo with
    | none => some s
    | some c => some (s.setStatus c .deallocated)
  else
    let s := match oldPtrChunkInfo with
      | none => s
      | some c => s.setStatus c .inRealloc
    (releaseCMAChunkImpl F k s oldPtr id).map (·.2)

/-- `__asan_reallocateCMAChunkEnd`. -/
def reallocateCMAChunkEnd (F : Flags) (k : Caller) (s : State) (oldPtr newPtr size granularity id : ℕ)
    (isInCma : Bool) : Option State :=
  if isInCma ∨ newPtr = 0 ∨ size = 0 then some s
  else
    (releaseOldChunk F k (s.lock F) oldPtr newPtr id).bind fun s =>
      (allocateCMAChunkImpl F k s newPtr size granularity id).map (State.unlock F)

/-- The chunk at `ptr` is one that `__asan_clearCMAChunks` drops. -/
def clearable (t : Tlt) (ptr : ℕ) : Option ℕ :=
  (tltGet t ptr).filter fun c => (t.info c).status ≠ .deallocated ∧ (t.info c).startAddr = ptr

/-- The loop of `__asan_clearCMAChunks`. -/
def clearLoop (F : Flags) (k : Caller) (id : ℕ) : List ℕ → State → Option State
  | [], s => some s
  | ptr :: ptrs, s =>
    match clearable s.tlt ptr with
    | none => clearLoop F k id ptrs s
    | some c => (freeChunk F k s c ptr id).bind (clearLoop F k id ptrs)

/-- `__asan_clearCMAChunks`. -/
def clearCMAChunks (F : Flags) (k : Caller) (s : State) (id : ℕ) : Option State :=
  let (z, alz) := s.alz.getOrCreate newAllocListZone id
  let zone := alz.cell z
  (clearLoop F k id ((List.range zone.pos).map zone.allocList) ({ s with alz }.lock F)).map fun s =>
    let s := s.unlock F
    { s with alz := s.alz.set z { s.alz.cell z with pos := 0 } }.emit (.writeAllocListZone id)

/-- `__asan_emptyQuarantineOnGC`; it does not take the lock. -/
def emptyOnGC (F : Flags) (s : State) (id : ℕ) : State :=
  let (qz, alz) := emptyQuarantineOnGC F s.qz s.alz id
  let log := if F.isQuarantineZoneOn then [.emptyQuarantine id] else []
  { s with qz, alz, log := s.log ++ log ++ [.writeAllocListZone id] }

end Cmasan
