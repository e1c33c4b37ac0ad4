/-
# The quarantine of a custom allocator

Each instance id has a zone: a queue of released chunks linked by hand, with
two counters, their number and the sum of their sizes. `pushPtr` appends;
`popPtrIfMax` does nothing below both limits, and otherwise unlinks from the
front until a chunk that the table still has as a released chunk of the id,
which it returns. `__asan_emptyQuarantineOnGC` forgets the queue.

Nodes are names in the order of their allocation. The link loop has fuel for
every node; `none` says that a null pointer was written through or the fuel
ran out.

Key definitions: `Quarantine`, `pushPtr`, `isChunkValid`, `popPtrIfMax`,
`pushAndPopFromQuarantine`, `emptyQuarantineOnGC`.
-/
import Cmasan.Config
import Cmasan.SimpleMap
import Cmasan.Tlt
import Cmasan.Lib.Linked

namespace Cmasan

open Lib

/-- The data of a `CMAQuarantineChunk`. -/
structure QChunk where
  ptr : ℕ
  size : ℕ
  deriving DecidableEq, Repr

/-- `CMAQuarantineZone`. -/
structure QZone where
  currentCmaQuarantineSize : ℕ
  currentCmaQuarantineNum : ℕ
  lastChunk : Option ℕ
  firstChunk : Option ℕ

/-- A zone as `getQuarantineZone` creates it. -/
def newQuarantineZone : QZone := ⟨0, 0, none, none⟩

/-- The zones of all ids and the nodes of their queues. -/
structure Quarantine where
  zones : Registry QZone
  node : ℕ → Node QChunk
  nextNode : ℕ

/-- No zone yet. -/
def Quarantine.initial : Quarantine := ⟨.empty newQuarantineZone, fun _ => ⟨none, ⟨0, 0⟩⟩, 0⟩

/-- The zone of an id. -/
def Quarantine.zone (q : Quarantine) (id : ℕ) : QZone := q.zones.view newQuarantineZone id

/-- `getQuarantineZone`: the zone's name. -/
def getQuarantineZone (q : Quarantine) (id : ℕ) : ℕ × Quarantine :=
  let (z, zones) := q.zones.getOrCreate newQuarantineZone id
  (z, { q with zones })

/-- A write to the zone named `z`. -/
def Quarantine.setZone (q : Quarantine) (z : ℕ) (zone : QZone) : Quarantine :=
  { q with zones := q.zones.set z zone }

/-- `pushPtr`. -/
def pushPtr (q : Quarantine) (ptr size id : ℕ) : Option Quarantine :=
  let (z, q) := getQuarantineZone q id
  let zone := { q.zones.cell z with
    currentCmaQuarantineSize := uadd (q.zones.cell z).currentCmaQuarantineSize size
    currentCmaQuarantineNum := uadd (q.zones.cell z).currentCmaQuarantineNum 1 }
  let chunk := q.nextNode
  let node := Function.update q.node chunk ⟨none, ⟨ptr, size⟩⟩
  let q := { q with nextNode := q.nextNode + 1 }
  match zone.firstChunk, zone.lastChunk with
  | none, _ =>
    some ({ q with node }.setZone z { zone with firstChunk := some chunk, lastChunk := some chunk })
  | some _, some last =>
    some ({ q with node := Function.update node last { node last with next := some chunk } }.setZone z
      { zone with lastChunk := some chunk })
  | some _, none => none

/-- `isChunkValid`. -/
def isChunkValid (t : Tlt) (ptr id : ℕ) : Bool :=
  match tltGet t ptr with
  | some c => (t.info c).status = .deallocated ∧ (t.info c).cmaId = id ∧ (t.info c).startAddr = ptr
  | none => false

/-- The loop of `popPtrIfMax` on the zone named `z`. -/
def popLoop (t : Tlt) (id z : ℕ) : ℕ → Quarantine → Option (ℕ × Quarantine)
  | fuel, q =>
    let zone := q.zones.cell z
    match zone.firstChunk with
    | none => some (0, q)
    | some current =>
      match fuel with
      | 0 => none
      | fuel + 1 =>
        let ⟨next, ⟨ptr, size⟩⟩ := q.node current
        let isLast := zone.firstChunk = zone.lastChunk
        let zone' : QZone :=
          ⟨usub zone.currentCmaQuarantineSize size, usub zone.currentCmaQuarantineNum 1,
            if isLast then none else zone.lastChunk, if isLast then none else next⟩
        let q := q.setZone z zone'
        if isChunkValid t ptr id then some (ptr, q) else popLoop t id z fuel q

/-- `popPtrIfMax`. -/
def popPtrIfMax (F : Flags) (t : Tlt) (q : Quarantine) (id : ℕ) : Option (ℕ × Quarantine) :=
  let (z, q) := getQuarantineZone q id
  if (q.zones.cell z).currentCmaQuarantineSize < F.quarantineSize ∧
      (q.zones.cell z).currentCmaQuarantineNum < F.quarantineNum then
    some (0, q)
  else popLoop t id z q.nextNode q

/-- `pushAndPopFromQuarantine`. -/
def pushAndPopFromQuarantine (F : Flags) (t : Tlt) (q : Quarantine) (ptr : ℕ) :
    Option (ℕ × Quarantine) :=
  if F.isQuarantineZoneOn then
    match tltGet t ptr with
    | none => some (ptr, q)
    | some c =>
      (popPtrIfMax F t q (t.info c).cmaId).bind fun (result, q) =>
        (pushPtr q ptr (uadd (t.info c).chunkSize (t.info c).rzSize) (t.info c).cmaId).map
          fun q => (result, q)
  else some (ptr, q)

/-! ### Allocation zones -/

/-- `CMAAllocListZone`. -/
structure AllocListZone where
  allocList : ℕ → ℕ
  pos : ℕ

/-- A zone as `getAllocListZone` creates it; the list is not initialised. -/
def newAllocListZone : AllocListZone := ⟨fun _ => 0, 0⟩

/-- `addCMAAllocChunk`. -/
def addCMAAllocChunk (F : Flags) (a : Registry AllocListZone) (id ptr : ℕ) : Registry AllocListZone :=
  let (z, a) := a.getOrCreate newAllocListZone id
  let zone := a.cell z
  let pos := if F.alloczoneN ≤ zone.pos then 0 else zone.pos
  a.set z ⟨Function.update zone.allocList pos ptr, pos + 1⟩

/-- `__asan_emptyQuarantineOnGC`. -/
def emptyQuarantineOnGC (F : Flags) (q : Quarantine) (a : Registry AllocListZone) (id : ℕ) :
    Quarantine × Registry AllocListZone :=
  let q' :=
    if F.isQuarantineZoneOn then
      let (z, q) := getQuarantineZone q id
      q.setZone z { q.zones.cell z with
        currentCmaQuarantineSize := 0
        lastChunk := none
        firstChunk := none }
    else q
  let (z, a) := a.getOrCreate newAllocListZone id
  (q', a.set z { a.cell z with pos := 0 })

end Cmasan
