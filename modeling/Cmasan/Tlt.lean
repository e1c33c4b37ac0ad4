/-
# The two-layer table of chunk infos

`asan_utils.cpp` keeps, for every 8-byte granule of the 48-bit address space,
a pointer to the `tlt_chunk_info` of the chunk that owns it:
`| 22 bits | 23 bits | 3 bits |` of an address pick a second-level table, a
page in it and a byte of the granule. All granules of a chunk share one info,
which counts them in `cnt`.

Pointers are names: an info is named by the order of its allocation, a
second-level table by `tlt_numSecondTable` at its creation (0 is the static
`SecondLayerTable`). `InternalAlloc` gives a name that was never used and
zeroed tables; `InternalFree` marks a name as freed. A function that returns
`none` did not return: a `CHECK` failed or a loop ran out of its fuel.

Key definitions: `Tlt`, `tltGet`, `tltInsert`, `tltUpdate`, `tltRelease`.
-/
import Cmasan.Word

namespace Cmasan

/-- `tlt_allocation_status`. -/
inductive Status
  | allocated
  | deallocated
  | inRealloc
  | none
  deriving DecidableEq, Repr

/-- `tlt_chunk_info`. -/
structure ChunkInfo where
  startAddr : ℕ
  chunkSize : ℕ
  rzSize : ℕ
  status : Status
  cmaId : ℕ
  allocStackId : ℕ
  allocThreadId : ℕ
  freeStackId : ℕ
  freeThreadId : ℕ
  cnt : ℕ
  deriving DecidableEq, Repr

/-- The end of the chunk with its redzone. -/
def ChunkInfo.endAddr (i : ChunkInfo) : ℕ := i.startAddr + i.chunkSize + i.rzSize

/-- The table and the infos it points to. -/
structure Tlt where
  topLayerTable : ℕ → Option ℕ
  pages : ℕ → ℕ → Option ℕ
  numSecondTable : ℕ
  info : ℕ → ChunkInfo
  freed : ℕ → Bool
  nextInfo : ℕ

/-- `kInvalidTid`, which is `-1` as a `u32`. -/
def kInvalidTid : ℕ := 0xFFFFFFFF

/-- The table after `InitializeTLT`: no second-level table, no info. -/
def initializeTlt : Tlt where
  topLayerTable := fun _ => .none
  pages := fun _ _ => .none
  numSecondTable := 0
  info := fun _ => ⟨0, 0, 0, .none, 0, 0, 0, 0, 0, 0⟩
  freed := fun _ => false
  nextInfo := 0

/-- `top_idx` of a key: `(key & tlt_22bit_upper_mask) >> tlt_topLayerShift & tlt_topLayerMask`. -/
def topIdx (key : ℕ) : ℕ := ((key &&& 0xFFFFFC000000) >>> 26) &&& 0x3FFFFF

/-- `second_idx` of a key: `key >> tlt_info_granularity_shamt & tlt_secondLayerMask`. -/
def secondIdx (key : ℕ) : ℕ := (key >>> 3) &&& 0x7FFFFF

/-- `_tlt_get_or_create_page`: the second-level table of the key, created if
the top layer has none, and the page's index in it. -/
def tltGetOrCreatePage (t : Tlt) (key : ℕ) : (ℕ × ℕ) × Tlt :=
  match t.topLayerTable (topIdx key) with
  | some tab => ((tab, secondIdx key), t)
  | none =>
    ((t.numSecondTable, secondIdx key),
      { t with
        topLayerTable := Function.update t.topLayerTable (topIdx key) (some t.numSecondTable)
        numSecondTable := t.numSecondTable + 1 })

/-- `_tlt_get_page_may_null`. -/
def tltGetPageMayNull (t : Tlt) (key : ℕ) : Option (ℕ × ℕ) :=
  (t.topLayerTable (topIdx key)).map fun tab => (tab, secondIdx key)

/-- `_tlt_release_chunk_info`: one page lets go of the info. -/
def tltReleaseChunkInfo (t : Tlt) (c : ℕ) : Tlt :=
  { t with
    info := Function.update t.info c { t.info c with cnt := (t.info c).cnt - 1 }
    freed := if (t.info c).cnt - 1 = 0 then Function.update t.freed c true else t.freed }

/-- `_tlt_get_internal`: an info of status `NONE` is not seen. -/
def tltGetInternal (t : Tlt) (key : ℕ) : Option ℕ :=
  match tltGetPageMayNull t key with
  | none => none
  | some (tab, i) =>
    match t.pages tab i with
    | none => none
    | some c => if (t.info c).status = .none then none else some c

/-- `tlt_get`. -/
def tltGet (t : Tlt) (key : ℕ) : Option ℕ := if key = 0 then none else tltGetInternal t key

/-- A write to the fields of an info. -/
def Tlt.setInfo (t : Tlt) (c : ℕ) (i : ChunkInfo) : Tlt :=
  { t with info := Function.update t.info c i }

/-! ### tlt_insert -/

/-- `InternalAlloc` of an info and the copy of `data` into it. -/
def Tlt.newInfo (t : Tlt) (data : ChunkInfo) : ℕ × Tlt :=
  (t.nextInfo,
    { t with
      info := Function.update t.info t.nextInfo data
      freed := Function.update t.freed t.nextInfo false
      nextInfo := t.nextInfo + 1 })

/-- One page of the fill: let go of the info it holds, then hold `c`. -/
def fillPage (t : Tlt) (tab i c : ℕ) : Tlt :=
  let t' := match t.pages tab i with
    | some c₀ => tltReleaseChunkInfo t c₀
    | none => t
  { t' with pages := Function.update t'.pages tab (Function.update (t'.pages tab) i (some c)) }

/-- The `n` pages from page `i` of the table `tab`. -/
def fillPages (t : Tlt) (tab i c : ℕ) : ℕ → Tlt
  | 0 => t
  | n + 1 => fillPage (fillPages t tab i c n) tab (i + n) c

/-- The fill loop of `tlt_insert`, one second-level table after the other. -/
def tltFill (c alignedKey alignedSize : ℕ) : ℕ → ℕ → Tlt → Option Tlt
  | fuel, offset, t =>
    if offset < alignedSize then
      match fuel with
      | 0 => none
      | fuel + 1 =>
        let ((tab, _), t₁) := tltGetOrCreatePage t (uadd alignedKey offset)
        let idxInPage := secondIdx (uadd alignedKey offset)
        let remainInPage := 0x800000 - idxInPage
        let pagesToFill := min remainInPage ((alignedSize - offset) >>> 3)
        let t₂ := fillPages t₁ tab idxInPage c pagesToFill
        let t₃ := t₂.setInfo c { t₂.info c with cnt := (t₂.info c).cnt + pagesToFill }
        tltFill c alignedKey alignedSize fuel (offset + pagesToFill <<< 3) t₃
    else some t

/-- `tlt_insert` by a thread `tid`; the pointer it returns is always null. -/
def tltInsert (t : Tlt) (key chunkSize rzSize cmaId allocStackId tid : ℕ) : Option Tlt :=
  if key = 0 then some t
  else if isAligned (uadd (uadd key chunkSize) rzSize) 8 then
    let data : ChunkInfo :=
      ⟨key, chunkSize, rzSize, .allocated, cmaId, allocStackId, tid, 0, kInvalidTid, 0⟩
    let (c, t') := t.newInfo data
    let alignedSize := roundUpTo (uadd chunkSize rzSize) 8
    tltFill c (roundDownTo key 8) alignedSize (alignedSize / 8) 0 t'
  else none

/-! ### tlt_update and tlt_release -/

/-- The loop of `tlt_update`. -/
def tltUpdateLoop (alignedKey size : ℕ) (status expected : Status) (freeStackId tid : ℕ) :
    ℕ → ℕ → Tlt → Option Tlt
  | fuel, i, t =>
    if i < size then
      match fuel with
      | 0 => none
      | fuel + 1 =>
        match tltGetInternal t (uadd alignedKey i) with
        | some c =>
          if (t.info c).status = expected then
            let t' := t.setInfo c { t.info c with status, freeStackId, freeThreadId := tid }
            let alignedSize := uadd (t.info c).chunkSize (t.info c).rzSize
            tltUpdateLoop alignedKey size status expected freeStackId tid fuel
              (uadd (uadd i (roundUpTo alignedSize 8)) 8) t'
          else tltUpdateLoop alignedKey size status expected freeStackId tid fuel (uadd i 8) t
        | none => tltUpdateLoop alignedKey size status expected freeStackId tid fuel (uadd i 8) t
    else some t

/-- `tlt_update` by a thread `tid`. -/
def tltUpdate (t : Tlt) (key size : ℕ) (status expected : Status) (freeStackId tid : ℕ) :
    Option Tlt :=
  if key = 0 then some t
  else tltUpdateLoop (roundDownTo key 8) size status expected freeStackId tid size 0 t

/-- `_tlt_release_whole_chunk`: the chunk at the address gets status `NONE`.
`tlt_info_granularity` is `1 << 3` without parentheses, so that
`end_addr - tlt_info_granularity` is `(end_addr - 1) << 3`. -/
def tltReleaseWholeChunk (t : Tlt) (targetAddr : ℕ) : ℕ × Tlt :=
  match tltGetInternal t targetAddr with
  | some c =>
    let endAddr := uadd (uadd (t.info c).startAddr (t.info c).chunkSize) (t.info c).rzSize
    ((usub endAddr 1 <<< 3) % 2 ^ 64, t.setInfo c { t.info c with status := .none })
  | none => (targetAddr, t)

/-- A loop of `tlt_release` with its stride. -/
def tltReleaseLoop (alignedKey size stride : ℕ) : ℕ → ℕ → Tlt → Option Tlt
  | fuel, i, t =>
    if i < size then
      match fuel with
      | 0 => none
      | fuel + 1 =>
        let (i', t') := tltReleaseWholeChunk t (uadd alignedKey i)
        tltReleaseLoop alignedKey size stride fuel (uadd i' stride) t'
    else some t

/-- `tlt_release`: a loop in strides of `CMASAN_MINIMUM_CHUNK_SIZE` (32), then
one in strides of 8 over the last bytes. The expected status is not used. An
iteration clears an info or moves on, which bounds their number. -/
def tltRelease (t : Tlt) (key size : ℕ) : Option Tlt :=
  let fuel := (t.nextInfo + 1) * (size + 1)
  if key = 0 then some t
  else
    (tltReleaseLoop (roundDownTo key 8) size 32 fuel 0 t).bind
      (tltReleaseLoop (roundDownTo key 8) size 8 fuel (roundDownTo size 32))

end Cmasan
