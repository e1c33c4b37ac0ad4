/-
# The heap below the custom allocators

A custom allocator carves its objects out of blocks of ASan's own heap. When
such a block is freed, `Allocator::Deallocate` first tells the table that what
is in it is gone, then marks the block as quarantined, reports what does not
match, poisons the block and puts it into the heap's quarantine. The update of
the table runs over the size that `Deallocate` was passed: that of a sized
`delete`, and 0 from `asan_free`. So `asan_free` leaves the table as it is, and
`asan_delete` reaches the chunks that the loop of `tlt_update` meets
(`freed_block_clean_iff`).

The heap's quarantine is a parameter, `put`: it takes a block's header in and
may recycle others, which changes headers and the shadow. The free hooks of the
program and the fill of the freed memory are not modelled, and the writes of
`tlt_update` are not in the log.

Key definitions: `AsanChunk`, `Heap`, `deallocate`, `asanFree`, `asanDelete`.
Key theorems: `deallocate_tlt`, `freed_block_clean_iff`.
-/
import Cmasan.ShadowRuns
import Cmasan.TltUpdate

namespace Cmasan

open Lib

/-- `AllocType`. -/
inductive AllocType
  | fromMalloc
  | fromNew
  | fromNewBr
  deriving DecidableEq, Repr

/-- `kChunkHeaderSize`. -/
def kChunkHeaderSize : ℕ := 16

/-- `CHUNK_ALLOCATED`. -/
def chunkAllocated : ℕ := 2

/-- `CHUNK_QUARANTINE`. -/
def chunkQuarantine : ℕ := 3

/-- `AsanChunk`: the header of a block. -/
structure AsanChunk where
  chunkState : ℕ
  allocType : AllocType
  userRequestedAlignmentLog : ℕ
  usedSize : ℕ
  freeTid : ℕ
  freeStackId : ℕ

/-- The reports of `Deallocate` other than a double free, which goes to the log. -/
inductive HeapReport
  | freeNotMalloced (addr : ℕ)
  | allocTypeMismatch (addr : ℕ) (allocType deallocType : AllocType)
  | newDeleteTypeMismatch (addr deleteSize deleteAlignment : ℕ)
  deriving DecidableEq, Repr

/-- The options of the heap. -/
structure HeapFlags where
  allocDeallocMismatch : Bool := true
  newDeleteTypeMismatch : Bool := true

/-- The runtime's state and the headers of the heap's blocks, by their addresses. -/
structure Heap where
  rt : State
  chunk : ℕ → AsanChunk
  reports : List HeapReport

/-- `AsanQuarantine::Put` of a header and the block's size, with what it recycles. -/
abbrev Put : Type := (ℕ → AsanChunk) × Shadow → ℕ → ℕ → (ℕ → AsanChunk) × Shadow

namespace Heap

/-- A report. -/
def report (h : Heap) (r : HeapReport) : Heap := { h with reports := h.reports ++ [r] }

/-- A write to a header. -/
def setChunk (h : Heap) (m : ℕ) (c : AsanChunk) : Heap := { h with chunk := Function.update h.chunk m c }

/-- `ReportInvalidFree`. -/
def reportInvalidFree (F : Flags) (h : Heap) (ptr chunkState : ℕ) : Heap :=
  if chunkState = chunkQuarantine then { h with rt := h.rt.reportDoubleFree F ptr }
  else h.report (.freeNotMalloced ptr)

end Heap

/-- `ComputeUserRequestedAlignmentLog`. -/
def computeUserRequestedAlignmentLog (userRequestedAlignment : ℕ) : ℕ :=
  if userRequestedAlignment < 8 then 0 else Nat.log2 (min userRequestedAlignment 512) - 2

/-- `AtomicallySetQuarantineFlagIfAllocated`; false says that the block was not allocated. -/
def atomicallySetQuarantineFlagIfAllocated (F : Flags) (h : Heap) (m ptr : ℕ) : Bool × Heap :=
  if (h.chunk m).chunkState = chunkAllocated then
    (true, h.setChunk m { h.chunk m with
      chunkState := chunkQuarantine, freeTid := kInvalidTid, freeStackId := 0 })
  else (false, h.reportInvalidFree F ptr (h.chunk m).chunkState)

/-- `QuarantineChunk`. -/
def quarantineChunk (F : Flags) (put : Put) (k : Caller) (h : Heap) (m : ℕ) : Option Heap :=
  if (h.chunk m).chunkState = chunkQuarantine then
    -- 0 stands for no current thread here
    let freeTid := if k.tid = kInvalidTid then 0 else k.tid
    let h := h.setChunk m { h.chunk m with freeTid, freeStackId := k.stackId }
    let usedSize := (h.chunk m).usedSize
    (poisonShadow F.canPoisonMemory h.rt.shadow (uadd m kChunkHeaderSize) (roundUpTo usedSize 8)
      kAsanHeapFreeMagic).map fun shadow =>
        let (chunk, shadow) := put (h.chunk, shadow) m usedSize
        { h with chunk, rt := { h.rt with shadow } }
  else none

/-- The reports of `Deallocate` on a block that was allocated. -/
def reportMismatch (G : HeapFlags) (h : Heap) (m ptr deleteSize deleteAlignment : ℕ) (allocType : AllocType) :
    Heap :=
  let c := h.chunk m
  if c.allocType ≠ allocType then
    if G.allocDeallocMismatch then h.report (.allocTypeMismatch ptr c.allocType allocType) else h
  else if G.newDeleteTypeMismatch ∧ (allocType = .fromNew ∨ allocType = .fromNewBr) ∧
      (deleteSize ≠ 0 ∧ deleteSize ≠ c.usedSize ∨
        computeUserRequestedAlignmentLog deleteAlignment ≠ c.userRequestedAlignmentLog) then
    h.report (.newDeleteTypeMismatch ptr deleteSize deleteAlignment)
  else h

/-- `Deallocate`. -/
def deallocate (F : Flags) (G : HeapFlags) (put : Put) (k : Caller) (h : Heap)
    (ptr deleteSize deleteAlignment : ℕ) (allocType : AllocType) : Option Heap :=
  if ptr = 0 then some h
  else
    (tltUpdate h.rt.tlt ptr deleteSize .deallocated .allocated k.stackId k.tid).bind fun tlt =>
      let h := { h with rt := State.unlock F { h.rt.lock F with tlt } }
      let m := usub ptr kChunkHeaderSize
      match atomicallySetQuarantineFlagIfAllocated F h m ptr with
      | (false, h) => some h
      | (true, h) => quarantineChunk F put k (reportMismatch G h m ptr deleteSize deleteAlignment allocType) m

/-- `asan_free`. -/
def asanFree (F : Flags) (G : HeapFlags) (put : Put) (k : Caller) (h : Heap) (ptr : ℕ)
    (allocType : AllocType) : Option Heap :=
  deallocate F G put k h ptr 0 0 allocType

/-- `asan_delete`. -/
def asanDelete (F : Flags) (G : HeapFlags) (put : Put) (k : Caller) (h : Heap) (ptr size alignment : ℕ)
    (allocType : AllocType) : Option Heap :=
  deallocate F G put k h ptr size alignment allocType

/-! ### What it does to the table -/

section Frame

variable (F : Flags) (G : HeapFlags) (h : Heap) (m ptr deleteSize deleteAlignment : ℕ) (allocType : AllocType)

theorem atomicallySetQuarantineFlag_tlt :
    (atomicallySetQuarantineFlagIfAllocated F h m ptr).2.rt.tlt = h.rt.tlt := by
  unfold atomicallySetQuarantineFlagIfAllocated
  split
  · rfl
  · unfold Heap.reportInvalidFree
    split
    · exact State.reportDoubleFree_tlt ..
    · rfl

theorem reportMismatch_frame : (reportMismatch G h m ptr deleteSize deleteAlignment allocType).rt = h.rt ∧
    (reportMismatch G h m ptr deleteSize deleteAlignment allocType).chunk = h.chunk := by
  unfold reportMismatch
  simp only
  split
  · split <;> exact ⟨rfl, rfl⟩
  · split <;> exact ⟨rfl, rfl⟩

end Frame

theorem quarantineChunk_tlt {F : Flags} {put : Put} {k : Caller} {h h' : Heap} {m : ℕ}
    (he : quarantineChunk F put k h m = some h') : h'.rt.tlt = h.rt.tlt := by
  unfold quarantineChunk at he
  split at he
  · obtain ⟨shadow, -, rfl⟩ := Option.map_eq_some_iff.mp he
    rfl
  · cases he

theorem quarantineChunk_returns {F : Flags} {put : Put} {k : Caller} {h : Heap} {m n : ℕ} (hm : m % 8 = 0)
    (hspace : m + n < 2 ^ 48) (hstate : (h.chunk m).chunkState = chunkQuarantine)
    (hused : (h.chunk m).usedSize = n) : ∃ h', quarantineChunk F put k h m = some h' := by
  have hround : roundUpTo n 8 = (n + 7) / 8 * 8 := roundUpTo_eight (by omega)
  have hbeg : uadd m kChunkHeaderSize = m + 16 := uadd_eq (by unfold kChunkHeaderSize; omega)
  obtain ⟨shadow, hs⟩ := poisonShadow_returns F.canPoisonMemory h.rt.shadow kAsanHeapFreeMagic
    (show (m + 16) % 8 = 0 by omega) (show (n + 7) / 8 * 8 % 8 = 0 by omega) (by omega)
  unfold quarantineChunk
  simp only [hstate, if_true, Heap.setChunk, Function.update_self, hused, hround, hbeg]
  rw [hs]
  exact ⟨_, rfl⟩

section Deallocate

variable {F : Flags} {G : HeapFlags} {put : Put} {k : Caller} {h h' : Heap}
  {ptr deleteSize deleteAlignment : ℕ} {allocType : AllocType}

/-- **The table after a free** is that of the update; the rest leaves it alone. -/
theorem deallocate_tlt (hp : ptr ≠ 0)
    (he : deallocate F G put k h ptr deleteSize deleteAlignment allocType = some h') :
    tltUpdate h.rt.tlt ptr deleteSize .deallocated .allocated k.stackId k.tid = some h'.rt.tlt := by
  unfold deallocate at he
  rw [if_neg hp] at he
  obtain ⟨tlt, hu, he⟩ := Option.bind_eq_some_iff.mp he
  rw [hu]
  congr 1
  simp only at he
  set h₁ : Heap := { h with rt := State.unlock F { h.rt.lock F with tlt } }
  have h₁t : h₁.rt.tlt = tlt := State.unlock_tlt F _
  have hset := atomicallySetQuarantineFlag_tlt F h₁ (usub ptr kChunkHeaderSize) ptr
  rcases hq : atomicallySetQuarantineFlagIfAllocated F h₁ (usub ptr kChunkHeaderSize) ptr with ⟨b, h₂⟩
  rw [hq] at he hset
  cases b with
  | false =>
    obtain rfl := Option.some.inj he
    rw [hset, h₁t]
  | true =>
    rw [quarantineChunk_tlt he, (reportMismatch_frame ..).1, hset, h₁t]

/-- The address is that of an allocated block of `n` bytes. -/
structure Heap.Block (h : Heap) (p n : ℕ) : Prop where
  aligned : p % 8 = 0
  header : kChunkHeaderSize ≤ p
  space : p + n ≤ 2 ^ 47
  state : (h.chunk (p - kChunkHeaderSize)).chunkState = chunkAllocated
  used : (h.chunk (p - kChunkHeaderSize)).usedSize = n

/-- **A free of a block returns**, if the update of the table does. -/
theorem deallocate_returns {p n : ℕ} {tlt : Tlt} (hb : h.Block p n)
    (hu : tltUpdate h.rt.tlt p deleteSize .deallocated .allocated k.stackId k.tid = some tlt) :
    ∃ h', deallocate F G put k h p deleteSize deleteAlignment allocType = some h' := by
  obtain ⟨hal, hhead, hspace, hstate, hused⟩ := hb
  have hm : usub p kChunkHeaderSize = p - kChunkHeaderSize := usub_eq hhead (by omega)
  unfold deallocate
  rw [if_neg (by unfold kChunkHeaderSize at hhead; omega), hu, Option.bind_some]
  unfold atomicallySetQuarantineFlagIfAllocated
  simp only [hm, hstate, if_true]
  have hchunk := (reportMismatch_frame G (Heap.setChunk
    { h with rt := State.unlock F { h.rt.lock F with tlt } } (p - kChunkHeaderSize)
    { h.chunk (p - kChunkHeaderSize) with
      chunkState := chunkQuarantine, freeTid := kInvalidTid, freeStackId := 0 })
    (p - kChunkHeaderSize) p deleteSize deleteAlignment allocType).2
  unfold kChunkHeaderSize at hhead
  apply quarantineChunk_returns (n := n)
  · unfold kChunkHeaderSize
    omega
  · omega
  · rw [hchunk]
    simp [Heap.setChunk]
  · rw [hchunk]
    simp [Heap.setChunk, hused]

/-! ### What is left in a freed block -/

/-- No chunk has an `ALLOCATED` entry in `[p, p + n)`. -/
def NoneAllocated (t : Tlt) (p n : ℕ) : Prop := ∀ c, ¬ t.HasIn .allocated p n c

theorem hasIn_updated {t : Tlt} {fs tid p n c : ℕ} {seen : List ℕ} :
    (t.updated .deallocated fs tid seen).HasIn .allocated p n c ↔ t.HasIn .allocated p n c ∧ c ∉ seen := by
  have hslot : slot (t.updated .deallocated fs tid seen) = slot t := rfl
  unfold Tlt.HasIn
  by_cases hc : c ∈ seen
  · have hst : ((t.updated .deallocated fs tid seen).info c).status = .deallocated := by simp [Tlt.updated, hc]
    simp [hst, hc]
  · have hinfo : (t.updated .deallocated fs tid seen).info c = t.info c := by simp [Tlt.updated, hc]
    simp only [tltGet_eq_some, hslot, hinfo, hc, not_false_eq_true, and_true]

theorem noneAllocated_updated {t : Tlt} {fs tid p n : ℕ} {seen : List ℕ} :
    NoneAllocated (t.updated .deallocated fs tid seen) p n ↔ ∀ c, t.HasIn .allocated p n c → c ∈ seen := by
  unfold NoneAllocated
  refine forall_congr' fun c => ?_
  rw [hasIn_updated, not_and_not_right]

theorem tltUpdate_zero {t : Tlt} {status e : Status} (key fs tid : ℕ) :
    tltUpdate t key 0 status e fs tid = some t := by
  unfold tltUpdate
  split
  · rfl
  · unfold tltUpdateLoop
    exact if_neg (Nat.lt_irrefl 0)

/-- A block is clean after a free if the update meets all that was `ALLOCATED` in it. -/
theorem deallocate_noneAllocated_iff {p n : ℕ} (hp : p ≠ 0)
    (he : deallocate F G put k h p deleteSize deleteAlignment allocType = some h') :
    NoneAllocated h'.rt.tlt p n ↔
      ∀ c, h.rt.tlt.HasIn .allocated p n c → UpdateMeets h.rt.tlt .allocated p deleteSize c := by
  obtain ⟨seen, ht, hseen⟩ := tltUpdate_spec hp (by decide) (deallocate_tlt hp he)
  rw [ht, noneAllocated_updated]
  simp only [hseen]

end Deallocate

/-- **What a free leaves in its block**, in every state of the runtime
(`hookStep_inv`, `tltStep_inv`). `asan_free` returns, and leaves no
`ALLOCATED` chunk in the block exactly if there was none. `asan_delete` with
any size `d` leaves none exactly if the walk of the update over `d` bytes meets
every one there was; it returns for all sizes below 2^63, if the tracked ranges
are in the address space, and for chunks side by side and a size that ends in
the space it leaves none exactly if for each chunk, and each granule of the
block up to its first one, the chunks that end in between are fewer than its
granules below `d` and the granules without a chunk in between. -/
theorem freed_block_clean_iff {F : Flags} {G : HeapFlags} {put : Put} {k : Caller} {h : Heap} {p n : ℕ}
    (ht : h.rt.tlt.Inv) (hb : h.Block p n) (allocType : AllocType) :
    (∃ h', asanFree F G put k h p allocType = some h' ∧
      (NoneAllocated h'.rt.tlt p n ↔ NoneAllocated h.rt.tlt p n)) ∧
    ∀ d alignment,
      ((∀ g c, slot h.rt.tlt g = some c → (h.rt.tlt.info c).endAddr ≤ 2 ^ 48) → d ≤ 2 ^ 63 →
        ∃ h', asanDelete F G put k h p d alignment allocType = some h') ∧
      ∀ h', asanDelete F G put k h p d alignment allocType = some h' →
        (NoneAllocated h'.rt.tlt p n ↔
          ∀ c, h.rt.tlt.HasIn .allocated p n c → UpdateMeets h.rt.tlt .allocated p d c) ∧
        ((∀ g c, slot h.rt.tlt g = some c → (h.rt.tlt.info c).endAddr ≤ 2 ^ 48) → p + d ≤ 2 ^ 48 →
          LaidOut h.rt.tlt .allocated p n →
          (NoneAllocated h'.rt.tlt p n ↔ ∀ c, h.rt.tlt.HasIn .allocated p n c →
            ∀ x ≤ h.rt.tlt.firstCell p c,
              h.rt.tlt.firstCell p c +
                  ends (ownerFrom h.rt.tlt .allocated p) (h.rt.tlt.firstCell p) h.rt.tlt.cells x
                    (h.rt.tlt.firstCell p c) <
                min (h.rt.tlt.firstCell p c + h.rt.tlt.cells c) ((d + 7) / 8) +
                  gaps (ownerFrom h.rt.tlt .allocated p) x (h.rt.tlt.firstCell p c))) := by
  have hp : p ≠ 0 := by
    have := hb.header
    unfold kChunkHeaderSize at this
    omega
  constructor
  · obtain ⟨h', he⟩ := deallocate_returns (F := F) (G := G) hb (tltUpdate_zero p k.stackId k.tid)
    refine ⟨h', he, ?_⟩
    rw [deallocate_noneAllocated_iff hp he]
    exact forall_congr' fun c => ⟨fun hm hc => not_updateMeets_zero (hm hc), fun hno hc => absurd hc hno⟩
  · intro d alignment
    constructor
    · intro h48 hd
      have hreturns : ∃ tlt, tltUpdate h.rt.tlt p d .deallocated .allocated k.stackId k.tid = some tlt :=
        tltUpdate_returns ht h48 k.stackId k.tid hd
      obtain ⟨tlt, hu⟩ := hreturns
      exact deallocate_returns hb hu
    · intro h' he
      have hiff := deallocate_noneAllocated_iff (n := n) hp he
      refine ⟨hiff, fun h48 hd hlaid => ?_⟩
      rw [hiff]
      have hspace := hb.space
      exact updateMeets_all_iff ht h48 hp hlaid (by omega) hd

/-- A table of hooks in a heap whose block at `0x602000000010` has `n` bytes. -/
def heapOf (s : State) (n : ℕ) : Heap := ⟨s, fun _ => ⟨chunkAllocated, .fromNew, 0, n, 0, 0⟩, []⟩

/-- Two objects side by side in a block, and the block deleted with its size. -/
theorem freed_block_clean_adjacent :
    ∃ s h', HookRun defaultFlags
        [.allocate {} 0x602000000010 8 1 1 false, .allocate {} 0x602000000030 8 1 1 false] s ∧
      s.tlt.HasIn .allocated 0x602000000010 64 1 ∧
      asanDelete defaultFlags {} (fun x _ _ => x) {} (heapOf s 64) 0x602000000010 64 0 .fromNew = some h' ∧
      NoneAllocated h'.rt.tlt 0x602000000010 64 := by
  have h : ((exec (hookStep defaultFlags) (fun _ _ => True) .initial
      [.allocate {} 0x602000000010 8 1 1 false, .allocate {} 0x602000000030 8 1 1 false]).bind fun s =>
        (asanDelete defaultFlags {} (fun x _ _ => x) {} (heapOf s 64) 0x602000000010 64 0 .fromNew).map fun _ =>
          (s.tlt.nextInfo,
            decide (∀ c < (2 : ℕ), (s.tlt.info c).status = .allocated ∧ 0x602000000010 ≤ (s.tlt.info c).startAddr ∧
              (s.tlt.info c).endAddr = (s.tlt.info c).startAddr + 32 ∧ (s.tlt.info c).endAddr ≤ 0x602000000010 + 64 ∧
              ∀ i < (32 : ℕ), tltGet s.tlt ((s.tlt.info c).startAddr + i) = some c),
            decide (tltGet s.tlt 0x602000000030 = some 1 ∧ ∀ c < (2 : ℕ), ∀ x ≤ s.tlt.firstCell 0x602000000010 c,
              s.tlt.firstCell 0x602000000010 c +
                  ends (ownerFrom s.tlt .allocated 0x602000000010) (s.tlt.firstCell 0x602000000010) s.tlt.cells x
                    (s.tlt.firstCell 0x602000000010 c) <
                min (s.tlt.firstCell 0x602000000010 c + s.tlt.cells c) ((64 + 7) / 8) +
                  gaps (ownerFrom s.tlt .allocated 0x602000000010) x (s.tlt.firstCell 0x602000000010 c)))) =
        some (2, true, true) := by
    decide +kernel
  obtain ⟨s, hs, h⟩ := Option.bind_eq_some_iff.mp h
  obtain ⟨h', he, h⟩ := Option.map_eq_some_iff.mp h
  obtain ⟨hnext, h⟩ := Prod.mk.inj h
  have hchunks := of_decide_eq_true (Prod.mk.inj h).1
  obtain ⟨hget, hmet⟩ := of_decide_eq_true (Prod.mk.inj h).2
  have hrun : HookRun defaultFlags _ s := runs_of_exec hs
  have hinv : s.Inv := HookReachable.inv ⟨_, hrun⟩
  have htwo : ∀ n c, slot s.tlt n = some c → c < 2 := fun n c hc => hnext ▸ hinv.tlt.used n c hc
  have hin : ∀ c, s.tlt.HasIn .allocated 0x602000000010 64 c → c < 2 :=
    fun c ⟨_, _, _, hg, _⟩ => htwo _ c (tltGet_eq_some.mp hg).2.1
  have hb : (heapOf s 64).Block 0x602000000010 64 := ⟨by decide, by decide, by decide, rfl, rfl⟩
  have h48 : ∀ g c, slot (heapOf s 64).rt.tlt g = some c → ((heapOf s 64).rt.tlt.info c).endAddr ≤ 2 ^ 48 := by
    intro g c hc
    obtain ⟨-, -, -, hle, -⟩ := hchunks c (htwo g c hc)
    exact hle.trans (by decide)
  have hlaid : LaidOut (heapOf s 64).rt.tlt .allocated 0x602000000010 64 := by
    intro c hc
    obtain ⟨-, hlo, hend, hhi, hall⟩ := hchunks c (hin c hc)
    refine ⟨hlo, hhi, fun a ha hlt => ?_⟩
    change (s.tlt.info c).startAddr ≤ a at ha
    change a < (s.tlt.info c).endAddr at hlt
    have hi := hall (a - (s.tlt.info c).startAddr) (by omega)
    rwa [Nat.add_sub_cancel' ha] at hi
  refine ⟨s, h', hrun, ⟨0x602000000030, by decide, by decide, hget, (hchunks 1 (by decide)).1⟩, he, ?_⟩
  refine ((((freed_block_clean_iff hinv.tlt hb .fromNew).2 64 0).2 h' he).2 h48 (by decide) hlaid).mpr fun c hc => ?_
  exact hmet c (hin c hc)

/-- One object in a block that `asan_free` frees; and five objects side by side
in a block that is deleted with its size. -/
theorem freed_block_keeps_allocated :
    (∃ s h', HookRun defaultFlags [.allocate {} 0x602000000010 16 1 1 false] s ∧
      (heapOf s 64).Block 0x602000000010 64 ∧
      asanFree defaultFlags {} (fun x _ _ => x) {} (heapOf s 64) 0x602000000010 .fromNew = some h' ∧
      h'.rt.tlt.HasIn .allocated 0x602000000010 64 0) ∧
    ∃ s h', HookRun defaultFlags
        [.allocate {} 0x602000000010 8 1 1 false, .allocate {} 0x602000000030 8 1 1 false,
          .allocate {} 0x602000000050 8 1 1 false, .allocate {} 0x602000000070 8 1 1 false,
          .allocate {} 0x602000000090 8 1 1 false] s ∧
      (heapOf s 160).Block 0x602000000010 160 ∧
      asanDelete defaultFlags {} (fun x _ _ => x) {} (heapOf s 160) 0x602000000010 160 0 .fromNew = some h' ∧
      h'.rt.tlt.HasIn .allocated 0x602000000010 160 4 := by
  constructor
  · have h : ((exec (hookStep defaultFlags) (fun _ _ => True) .initial
        [.allocate {} 0x602000000010 16 1 1 false]).bind fun s =>
          (asanFree defaultFlags {} (fun x _ _ => x) {} (heapOf s 64) 0x602000000010 .fromNew).map fun h' =>
            (tltGet h'.rt.tlt 0x602000000010, (h'.rt.tlt.info 0).status)) = some (some 0, .allocated) := by
      decide +kernel
    obtain ⟨s, hs, h⟩ := Option.bind_eq_some_iff.mp h
    obtain ⟨h', he, h⟩ := Option.map_eq_some_iff.mp h
    obtain ⟨hget, hst⟩ := Prod.mk.inj h
    exact ⟨s, h', runs_of_exec hs, ⟨by decide, by decide, by decide, rfl, rfl⟩, he,
      0x602000000010, by decide, by decide, hget, hst⟩
  · have h : ((exec (hookStep defaultFlags) (fun _ _ => True) .initial
        [.allocate {} 0x602000000010 8 1 1 false, .allocate {} 0x602000000030 8 1 1 false,
          .allocate {} 0x602000000050 8 1 1 false, .allocate {} 0x602000000070 8 1 1 false,
          .allocate {} 0x602000000090 8 1 1 false]).bind fun s =>
          (asanDelete defaultFlags {} (fun x _ _ => x) {} (heapOf s 160) 0x602000000010 160 0 .fromNew).map
            fun h' => (tltGet h'.rt.tlt 0x602000000090, (h'.rt.tlt.info 4).status)) =
        some (some 4, .allocated) := by
      decide +kernel
    obtain ⟨s, hs, h⟩ := Option.bind_eq_some_iff.mp h
    obtain ⟨h', he, h⟩ := Option.map_eq_some_iff.mp h
    obtain ⟨hget, hst⟩ := Prod.mk.inj h
    exact ⟨s, h', runs_of_exec hs, ⟨by decide, by decide, by decide, rfl, rfl⟩, he,
      0x602000000090, by decide, by decide, hget, hst⟩

end Cmasan
