/-
# A release inside a realloc

With the quarantine on, an allocator whose `realloc` frees the old object
queues its pointer in the zone of the id that the chunk has at that time, the
one it was allocated under. `End` then marks the chunk as released once more,
now under the id of its own call. An entry is valid only while the chunk has
the id of the zone, so the pop that reaches the entry hands the pointer out
only if the two ids are the same (`nested_entry_returned_iff`); otherwise it is
dropped, and the allocator never frees the old object. A plain release writes
its id first and queues under that id.

Other hooks may be called before, between and after, as long as they keep off
the old chunk's range.

Key definitions: `NestedMove`, `PopReaches`.
Key theorems: `NestedMove.isChunkValid_iff`, `PopReaches.returns_iff`,
`nested_entry_returned_iff`.
-/
import Cmasan.Requeue

namespace Cmasan

open Lib

/-! ### The calls -/

/-- A `realloc` that moves a tracked object and frees the old one inside:
`Start`, the nested release, which finds the chunk in the `realloc`, and
`End`. The calls between them avoid the old chunk. -/
structure NestedMove (F : Flags) where
  before : State
  reallocating : State
  queued : State
  closing : State
  after : State
  chunk : ℕ
  oldPtr : ℕ
  newPtr : ℕ
  size : ℕ
  granularity : ℕ
  startId : ℕ
  releaseId : ℕ
  endId : ℕ
  isInCma : Bool
  returned : ℕ
  releaser : Caller
  closer : Caller
  calls : List HookCall
  calls' : List HookCall
  reachable : HookReachable F before
  get : tltGet before.tlt oldPtr = some chunk
  start : Runs (hookStep F) (fun _ e => e.Avoids F.rz (before.tlt.info chunk))
    (reallocateCMAChunkStart F before oldPtr false startId) calls reallocating
  inRealloc : (reallocating.tlt.info chunk).status = .inRealloc
  release : releaseCMAChunk F releaser reallocating oldPtr releaseId isInCma = some (returned, queued)
  between : Runs (hookStep F) (fun _ e => e.Avoids F.rz (before.tlt.info chunk)) queued calls' closing
  moved : oldPtr ≠ newPtr
  newPtr_ne : newPtr ≠ 0
  size_ne : size ≠ 0
  apart : ∀ j ∈ insertedInfo F.rz closer newPtr size granularity endId, ¬ Overlap (before.tlt.info chunk) j
  finish : reallocateCMAChunkEnd F closer closing oldPtr newPtr size granularity endId false = some after

namespace NestedMove

variable {F : Flags} (m : NestedMove F)

/-- The three hooks with no other call between them, all under one id. -/
def direct {s s₁ s₂ : State} {c oldPtr newPtr size granularity id r : ℕ} {k k' : Caller} (h : HookReachable F s)
    (hget : tltGet s.tlt oldPtr = some c)
    (h₁ : releaseCMAChunk F k (reallocateCMAChunkStart F s oldPtr false id) oldPtr id true = some (r, s₁))
    (hmoved : oldPtr ≠ newPtr) (hnew : newPtr ≠ 0) (hsize : size ≠ 0)
    (hapart : ∀ j ∈ insertedInfo F.rz k' newPtr size granularity id, ¬ Overlap (s.tlt.info c) j)
    (h₂ : reallocateCMAChunkEnd F k' s₁ oldPtr newPtr size granularity id false = some s₂) : NestedMove F where
  before := s
  reallocating := reallocateCMAChunkStart F s oldPtr false id
  queued := s₁
  closing := s₁
  after := s₂
  chunk := c
  oldPtr := oldPtr
  newPtr := newPtr
  size := size
  granularity := granularity
  startId := id
  releaseId := id
  endId := id
  isInCma := true
  returned := r
  releaser := k
  closer := k'
  calls := []
  calls' := []
  reachable := h
  get := hget
  start := .nil
  inRealloc := by rw [(reallocateCMAChunkStart_tracked F id hget).1, info_setInfo, if_pos rfl]
  release := h₁
  between := .nil
  moved := hmoved
  newPtr_ne := hnew
  size_ne := hsize
  apart := hapart
  finish := h₂

/-- The info of the old chunk. -/
def info : ChunkInfo := m.before.tlt.info m.chunk

/-- The id it was allocated under, whose zone the pointer is queued in. -/
def zone : ℕ := m.info.cmaId

/-- The entry that the nested release queues. -/
def entry : QChunk := m.info.queued m.oldPtr

end NestedMove

/-- From `s` to `s'` the release of `ptr` goes through the zone `z`, and its
pop gets as far as the entry. -/
structure PopReaches (F : Flags) (s s' : State) (ptr z : ℕ) (entry : QChunk) : Prop where
  through : pushesOf z s'.log = pushesOf z s.log ++ [ptr]
  full : (s.qz.zone z).Full F
  reaches : ∃ older newer, s.qz.chunks z = older ++ entry :: newer ∧
    ∀ d ∈ older, isChunkValid s'.tlt d.ptr z = false

/-! ### The three hooks -/

section Hooks

variable {F : Flags} {s s' : State} {ptr c : ℕ}

/-- **A chunk that is avoided** stays as it is, but for a `CLEAR` that releases it. -/
theorem avoided_stays {i : ChunkInfo} {es : List HookCall} (h : s.Inv) (hget : tltGet s.tlt ptr = some c)
    (hp : SamePlace (s.tlt.info c) i) (hrun : Runs (hookStep F) (fun _ e => e.Avoids F.rz i) s es s') :
    s'.Inv ∧ tltGet s'.tlt ptr = some c ∧ SamePlace (s'.tlt.info c) i ∧
      ((s'.tlt.info c).core = (s.tlt.info c).core ∨ (s'.tlt.info c).status = .deallocated) := by
  apply Runs.invariant (I := fun s' => s'.Inv ∧ tltGet s'.tlt ptr = some c ∧ SamePlace (s'.tlt.info c) i ∧
    ((s'.tlt.info c).core = (s.tlt.info c).core ∨ (s'.tlt.info c).status = .deallocated)) _
    ⟨h, hget, hp, .inl rfl⟩ hrun
  intro s₁ s₂ e hI hav he
  obtain ⟨hi, hget₁, hp₁, hcore⟩ := hI
  obtain ⟨hget₂, hp₂⟩ := hookStep_avoided hi he hget₁ hp₁ hav
  refine ⟨hookStep_inv hi he, hget₂, hp₂, ?_⟩
  by_cases hc : e.Touches s₁ c
  · -- the list of a `CLEAR`
    obtain ⟨k, id, rfl, hcl⟩ := hav.touches hi hp₁ hc
    obtain ⟨s₃, h₃, hclears⟩ := clearCMAChunks_spec F k hi id
    obtain rfl := Option.some.inj (h₃.symm.trans he)
    right
    rw [hclears.released c hcl]
    rfl
  · have hsame := hookStep_untouched hi he hget₁ hc
    rcases hcore with hcore | hd
    · exact .inl (hsame.trans hcore)
    · exact .inr ((congrArg ChunkInfo.status hsame).trans hd)

theorem releaseCMAChunk_inRealloc (hon : F.isQuarantineZoneOn = true) {k : Caller} {id r : ℕ} {b : Bool}
    (hget : tltGet s.tlt ptr = some c) (hst : (s.tlt.info c).status = .inRealloc)
    (he : releaseCMAChunk F k s ptr id b = some (r, s')) :
    Retired F s s' ptr r c { s.tlt.info c with status := .deallocated } := by
  have hno : ∀ {s₁ : State}, releaseInRealloc F s ptr ≠ some (none, s₁) := fun h₁ =>
    (releaseInRealloc_none h₁).2 hon c hget hst
  cases releaseCMAChunk_path he with
  | null hp => exact absurd hp (tltGet_eq_some.mp hget).1
  | inRealloc h₁ =>
    obtain ⟨c', -, -, hr, -⟩ := releaseInRealloc_some h₁
    obtain rfl := Option.some.inj (hget.symm.trans hr.get)
    exact hr
  | inCma h₁ => exact absurd h₁ hno
  | noChunk h₁ _ => exact absurd h₁ hno
  | chunk h₁ _ _ => exact absurd h₁ hno

theorem reallocateCMAChunkEnd_released {k : Caller} {newPtr size g id : ℕ} (h : s.Inv)
    (hget : tltGet s.tlt ptr = some c) (hstart : (s.tlt.info c).startAddr = ptr) (hne : ptr ≠ newPtr)
    (hn : newPtr ≠ 0) (hz : size ≠ 0) (he : reallocateCMAChunkEnd F k s ptr newPtr size g id false = some s') :
    (s'.tlt.info c).core = ((s.tlt.info c).released k id).core := by
  rcases reallocateCMAChunkEnd_path he with ⟨hb | h0 | h0, -⟩ | ⟨-, s₁, s₂, h₁, h₂, rfl⟩
  · cases hb
  · exact absurd h0 hn
  · exact absurd h0 hz
  have hinfo : s₁.tlt.info c = (s.tlt.info c).released k id := by
    rw [← State.lock_tlt F s] at hget hstart ⊢
    rw [(releaseOldChunk_moved hget hstart hne h₁).1, info_setInfo, if_pos rfl]
  have hi₁ : s₁.Inv := releaseOldChunk_inv h.lock h₁
  have hget₁ : tltGet s₁.tlt ptr = some c := by
    rw [(releaseOldChunk_wrote h₁).gets, State.lock_tlt, hget]
  rw [State.unlock_tlt, ← hinfo]
  rcases (allocateCMAChunkImpl_newEntry hi₁ hn h₂).table with ⟨-, ht⟩ | ⟨i, -, hov⟩
  · rw [ht]
  · exact hov.old c (hi₁.tlt.used _ _ (tltGet_eq_some.mp hget₁).2.1).ne

theorem releaseCMAChunk_through (hon : F.isQuarantineZoneOn = true) (h : s.Inv) {k : Caller} {id r z : ℕ} {b : Bool}
    (he : releaseCMAChunk F k s ptr id b = some (r, s'))
    (hz : pushesOf z s'.log = pushesOf z s.log ++ [ptr]) :
    r = (popped F s'.tlt (s.qz.zone z) z (s.qz.chunks z)).1 := by
  rcases releaseCMAChunk_retired he with ⟨-, hs⟩ | ⟨d, i, hr, hst, -⟩
  · rw [hs.pushes, List.self_eq_append_right] at hz
    cases hz
  · have hid : i.cmaId = z := by
      by_contra hne
      have hp := (hr.pushes z).symm.trans hz
      rw [if_neg fun hc => hne hc.2] at hp
      cases List.append_cancel_left hp
    have hget : tltGet s'.tlt ptr = some d := (hr.tltGet_eq (by simp [hst]) ptr).trans hr.get
    obtain ⟨q', hpop, -⟩ := pushAndPop_spec hon h.qz hget
    rw [hr.info, hid] at hpop
    exact (Prod.mk.inj (Option.some.inj (hr.popped.symm.trans hpop))).1

theorem PopReaches.returns_iff {k : Caller} {id r z : ℕ} {b : Bool} {entry : QChunk}
    (hreach : PopReaches F s s' ptr z entry) (hon : F.isQuarantineZoneOn = true) (h : s.Inv)
    (h0 : entry.ptr ≠ 0) (he : releaseCMAChunk F k s ptr id b = some (r, s')) :
    r = entry.ptr ↔ isChunkValid s'.tlt entry.ptr z = true := by
  obtain ⟨older, newer, hq, hold⟩ := hreach.reaches
  rw [releaseCMAChunk_through hon h he hreach.through, popped_eq_iff h0]
  unfold FirstOut
  rw [and_iff_right hreach.full, hq, List.map_append, List.find?_append]
  have hnone : (older.map (·.ptr)).find? (isChunkValid s'.tlt · z) = none := by
    rw [List.find?_eq_none]
    intro p hp
    obtain ⟨d, hd, rfl⟩ := List.mem_map.mp hp
    rw [hold d hd]
    exact Bool.false_ne_true
  rw [hnone, Option.none_or, List.map_cons, List.find?_cons]
  constructor
  · intro hfind
    split at hfind
    · assumption
    · exact List.find?_some (p := (isChunkValid s'.tlt · z)) hfind
  · intro hv
    rw [hv]

end Hooks

/-! ### The entry -/

namespace NestedMove

variable {F : Flags} (m : NestedMove F)

theorem reallocating_facts : m.reallocating.Inv ∧ tltGet m.reallocating.tlt m.oldPtr = some m.chunk ∧
    (m.reallocating.tlt.info m.chunk).core = ({ m.info with status := .inRealloc } : ChunkInfo).core := by
  have hinfo : (reallocateCMAChunkStart F m.before m.oldPtr false m.startId).tlt.info m.chunk =
      { m.info with status := .inRealloc } := by
    rw [(reallocateCMAChunkStart_tracked F m.startId m.get).1, info_setInfo, if_pos rfl]
    rfl
  have hget := (reallocateCMAChunkStart_get F m.before m.oldPtr m.startId false m.oldPtr).trans m.get
  obtain ⟨hi, hget', -, hcore | hd⟩ := avoided_stays
    (reallocateCMAChunkStart_inv m.reachable.inv m.oldPtr m.startId false) hget
    (by rw [hinfo]; exact ⟨rfl, rfl, rfl⟩) m.start
  · rw [hinfo] at hcore
    exact ⟨hi, hget', hcore⟩
  · have hst := m.inRealloc
    rw [hd] at hst
    cases hst

theorem queued_facts (hon : F.isQuarantineZoneOn = true) : m.queued.Inv ∧
    tltGet m.queued.tlt m.oldPtr = some m.chunk ∧
    (m.queued.tlt.info m.chunk).core = ({ m.info with status := .deallocated } : ChunkInfo).core ∧
    ∃ older, m.queued.qz.chunks m.zone = older ++ [m.entry] := by
  obtain ⟨hi, hget, hcore⟩ := m.reallocating_facts
  have hr := releaseCMAChunk_inRealloc hon hget m.inRealloc m.release
  have hcore' : (m.queued.tlt.info m.chunk).core = ({ m.info with status := .deallocated } : ChunkInfo).core :=
    calc (m.queued.tlt.info m.chunk).core
      _ = ({ m.reallocating.tlt.info m.chunk with status := .deallocated } : ChunkInfo).core :=
        congrArg ChunkInfo.core hr.info
      _ = ({ m.info with status := .deallocated } : ChunkInfo).core :=
        congrArg (fun i : ChunkInfo => { i with status := .deallocated }) hcore
  have hget' : tltGet m.queued.tlt m.oldPtr = some m.chunk := (hr.tltGet_eq (by simp) m.oldPtr).trans hget
  refine ⟨releaseCMAChunk_inv hi m.release, hget', hcore', ?_⟩
  obtain ⟨q', hpop, -, hch, -⟩ := pushAndPop_spec hon hi.qz hget'
  obtain ⟨-, rfl⟩ := Prod.mk.inj (Option.some.inj (hr.popped.symm.trans hpop))
  have hplace := ChunkInfo.core_eq_iff.mp hcore'
  have hid : (m.queued.tlt.info m.chunk).cmaId = m.zone := hplace.2.2.2.2.1
  have hentry : (m.queued.tlt.info m.chunk).queued m.oldPtr = m.entry := by
    unfold entry ChunkInfo.queued
    rw [hplace.2.1, hplace.2.2.1]
  have hmine := hch m.zone
  rw [if_pos hid.symm, hentry] at hmine
  exact ⟨_, hmine⟩

theorem after_facts (hon : F.isQuarantineZoneOn = true) : m.after.Inv ∧
    tltGet m.after.tlt m.oldPtr = some m.chunk ∧ SamePlace (m.after.tlt.info m.chunk) m.info ∧
    (m.info.startAddr = m.oldPtr → (m.after.tlt.info m.chunk).status = .deallocated ∧
      (m.after.tlt.info m.chunk).cmaId = m.endId) := by
  obtain ⟨hi, hget, hcore, -⟩ := m.queued_facts hon
  have hd : (m.queued.tlt.info m.chunk).status = .deallocated := (ChunkInfo.core_eq_iff.mp hcore).2.2.2.1
  have hplace : SamePlace (m.queued.tlt.info m.chunk) m.info :=
    (SamePlace.of_core hcore).trans ⟨rfl, rfl, rfl⟩
  obtain ⟨hi₁, hget₁, hcore₁⟩ := released_stays hi hget hd hplace m.between
  have hplace₁ : SamePlace (m.closing.tlt.info m.chunk) m.info := (SamePlace.of_core hcore₁).trans hplace
  have he : hookStep F m.closing
      (.reallocateEnd m.closer m.oldPtr m.newPtr m.size m.granularity m.endId false) = some m.after := m.finish
  have howns : Owns m.info (granule m.oldPtr) := hplace₁.owns.mp (hi₁.tlt.tracks hget₁).2
  obtain ⟨hget₂, hplace₂⟩ := hookStep_entry hi₁ he hget₁ fun j hj hj' => by
    simp only [HookCall.inserts] at hj
    rw [if_neg (by simp [m.newPtr_ne, m.size_ne])] at hj
    exact m.apart j hj ⟨_, howns, hj'⟩
  refine ⟨hookStep_inv hi₁ he, hget₂, hplace₂.trans hplace₁, fun hstart => ?_⟩
  have hcore₂ := reallocateCMAChunkEnd_released hi₁ hget₁ (hplace₁.startAddr.trans hstart) m.moved m.newPtr_ne
    m.size_ne m.finish
  obtain ⟨-, -, -, hst, hid, -⟩ := ChunkInfo.core_eq_iff.mp hcore₂
  exact ⟨hst, hid⟩

/-- **The entry is valid** from then on, as long as nothing names the old
chunk's range, iff the pointer is the chunk's start and `End` was called with
the id of the zone. -/
theorem isChunkValid_iff (hon : F.isQuarantineZoneOn = true) {es : List HookCall} {s : State}
    (hrun : Runs (hookStep F) (fun _ e => e.Avoids F.rz m.info) m.after es s) :
    isChunkValid s.tlt m.oldPtr m.zone = true ↔ m.info.startAddr = m.oldPtr ∧ m.endId = m.zone := by
  obtain ⟨hi, hget, hplace, hreleased⟩ := m.after_facts hon
  obtain ⟨-, hget', hplace', -⟩ := avoided_stays hi hget hplace hrun
  rw [Cmasan.isChunkValid_iff]
  constructor
  · rintro ⟨c, hc, -, hid, hstart⟩
    obtain rfl := Option.some.inj (hget'.symm.trans hc)
    have hstart' : m.info.startAddr = m.oldPtr := hplace'.startAddr.symm.trans hstart
    obtain ⟨hst, hend⟩ := hreleased hstart'
    obtain ⟨-, -, hcore⟩ := released_stays hi hget hst hplace hrun
    obtain ⟨-, -, -, -, hsame, -⟩ := ChunkInfo.core_eq_iff.mp hcore
    exact ⟨hstart', hend.symm.trans (hsame.symm.trans hid)⟩
  · intro ⟨hstart, hend⟩
    obtain ⟨hst, hid⟩ := hreleased hstart
    obtain ⟨-, -, hcore⟩ := released_stays hi hget hst hplace hrun
    obtain ⟨-, -, -, hsame, hsame', -⟩ := ChunkInfo.core_eq_iff.mp hcore
    exact ⟨m.chunk, hget', hsame.trans hst, hsame'.trans (hid.trans hend), hplace'.startAddr.trans hstart⟩

end NestedMove

/-- **The old pointer of a moved `realloc` is reclaimable iff the ids agree.**
The nested release queues it in the zone of the id that the chunk was allocated
under. Whatever the hooks after that, as long as none names the old chunk's
range, the pop that reaches the entry returns it iff `End` was called with that
id too, and the pointer is the chunk's start. -/
theorem nested_entry_returned_iff {F : Flags} (hon : F.isQuarantineZoneOn = true) (m : NestedMove F) :
    (∃ older, m.queued.qz.chunks m.zone = older ++ [m.entry]) ∧
    ∀ {es : List HookCall} {s s' : State} {k : Caller} {ptr id r : ℕ} {b : Bool},
      Runs (hookStep F) (fun _ e => e.Avoids F.rz m.info) m.after es s →
      (HookCall.release k ptr id b).Avoids F.rz m.info →
      releaseCMAChunk F k s ptr id b = some (r, s') → PopReaches F s s' ptr m.zone m.entry →
      (r = m.oldPtr ↔ m.info.startAddr = m.oldPtr ∧ m.endId = m.zone) := by
  refine ⟨(m.queued_facts hon).2.2.2, fun {es s s' k ptr id r b} hrun hav he hreach => ?_⟩
  obtain ⟨hi, hget, hplace, -⟩ := m.after_facts hon
  have hs : s.Inv := (avoided_stays hi hget hplace hrun).1
  have h0 : m.entry.ptr ≠ 0 := (tltGet_eq_some.mp m.get).1
  -- the release that pops is one more call that avoids the chunk
  have hstep : hookStep F s (.release k ptr id b) = some s' := Option.map_eq_some_iff.mpr ⟨_, he, rfl⟩
  have hrun' := hrun.snoc hav hstep
  calc r = m.oldPtr
    _ ↔ isChunkValid s'.tlt m.oldPtr m.zone = true := hreach.returns_iff hon hs h0 he
    _ ↔ m.info.startAddr = m.oldPtr ∧ m.endId = m.zone := m.isChunkValid_iff hon hrun'

/-- An object of the id 1 in a `realloc` whose hooks have the id `id`; then
another one of the id 1 is handed out and freed, for which the pop reaches the
entry and returns `r`. -/
theorem nestedMove_run {id r : ℕ}
    (h : ((exec (hookStep oneChunkFlags) (fun _ _ => True) .initial [.allocate {} 0x602000000010 16 1 1 false]).bind
      fun s₀ => (releaseCMAChunk oneChunkFlags {} (reallocateCMAChunkStart oneChunkFlags s₀ 0x602000000010 false id)
        0x602000000010 id true).bind
      fun x => (reallocateCMAChunkEnd oneChunkFlags {} x.2 0x602000000010 0x602000000110 40 1 id false).bind
      fun s₁ => (exec (hookStep oneChunkFlags) (fun _ e => e.Avoids oneChunkFlags.rz (s₀.tlt.info 0)) s₁
        [.allocate {} 0x602000000210 16 1 1 false]).bind
      fun s => (releaseCMAChunk oneChunkFlags {} s 0x602000000210 1 false).map
      fun y => decide ((tltGet s₀.tlt 0x602000000010 = some 0 ∧ s₀.tlt.info 0 =
          ⟨0x602000000010, 16, 24, .allocated, 1, 0, 0, 0, kInvalidTid, 5⟩) ∧
        (∀ j ∈ insertedInfo oneChunkFlags.rz {} 0x602000000110 40 1 id, ¬ Overlap (s₀.tlt.info 0) j) ∧
        ((HookCall.release {} 0x602000000210 1 false).Avoids oneChunkFlags.rz (s₀.tlt.info 0) ∧ y.1 = r) ∧
        pushesOf 1 y.2.log = pushesOf 1 s.log ++ [0x602000000210] ∧ (s.qz.zone 1).Full oneChunkFlags ∧
          s.qz.chunks 1 = [⟨0x602000000010, 40⟩])) = some true) :
    ∃ (m : NestedMove oneChunkFlags) (s s' : State), m.oldPtr = 0x602000000010 ∧ m.info.startAddr = m.oldPtr ∧
      m.zone = 1 ∧ m.endId = id ∧
      Runs (hookStep oneChunkFlags) (fun _ e => e.Avoids oneChunkFlags.rz m.info) m.after
        [.allocate {} 0x602000000210 16 1 1 false] s ∧
      (HookCall.release {} 0x602000000210 1 false).Avoids oneChunkFlags.rz m.info ∧
      releaseCMAChunk oneChunkFlags {} s 0x602000000210 1 false = some (r, s') ∧
      PopReaches oneChunkFlags s s' 0x602000000210 m.zone m.entry := by
  obtain ⟨s₀, h₀, h⟩ := Option.bind_eq_some_iff.mp h
  obtain ⟨⟨r₁, s₁⟩, h₁, h⟩ := Option.bind_eq_some_iff.mp h
  obtain ⟨s₂, h₂, h⟩ := Option.bind_eq_some_iff.mp h
  obtain ⟨s, hs, h⟩ := Option.bind_eq_some_iff.mp h
  obtain ⟨⟨r', s'⟩, he, h⟩ := Option.map_eq_some_iff.mp h
  obtain ⟨⟨hget, hinfo⟩, hapart, ⟨hav, hr⟩, hpush, hfull, hch⟩ := of_decide_eq_true h
  obtain rfl : r' = r := hr
  refine ⟨.direct ⟨_, runs_of_exec h₀⟩ hget h₁ (by decide) (by decide) (by decide) hapart h₂, s, s', rfl, ?_, ?_, rfl,
    runs_of_exec hs, hav, he, ?_⟩
  · exact congrArg ChunkInfo.startAddr hinfo
  · exact congrArg ChunkInfo.cmaId hinfo
  · show PopReaches oneChunkFlags s s' 0x602000000210 (s₀.tlt.info 0).cmaId ((s₀.tlt.info 0).queued 0x602000000010)
    rw [hinfo]
    have hentry : ChunkInfo.queued ⟨0x602000000010, 16, 24, .allocated, 1, 0, 0, 0, kInvalidTid, 5⟩ 0x602000000010 =
        ⟨0x602000000010, 40⟩ := by decide
    rw [hentry]
    refine ⟨hpush, hfull, [], [], hch, fun d hd => ?_⟩
    cases hd

/-- The `realloc` hooks have another id than the object: the pop drops the
entry, and returns nothing. -/
theorem nested_entry_dropped :
    ∃ (m : NestedMove oneChunkFlags) (s s' : State), m.oldPtr = 0x602000000010 ∧ m.info.startAddr = m.oldPtr ∧
      m.zone = 1 ∧ m.endId = 2 ∧
      Runs (hookStep oneChunkFlags) (fun _ e => e.Avoids oneChunkFlags.rz m.info) m.after
        [.allocate {} 0x602000000210 16 1 1 false] s ∧
      (HookCall.release {} 0x602000000210 1 false).Avoids oneChunkFlags.rz m.info ∧
      releaseCMAChunk oneChunkFlags {} s 0x602000000210 1 false = some (0, s') ∧
      PopReaches oneChunkFlags s s' 0x602000000210 m.zone m.entry :=
  nestedMove_run (by decide +kernel)

/-- With the object's own id it is returned. -/
theorem nested_entry_returned :
    ∃ (m : NestedMove oneChunkFlags) (s s' : State) (r : ℕ), m.zone = 1 ∧ m.endId = 1 ∧
      releaseCMAChunk oneChunkFlags {} s 0x602000000210 1 false = some (r, s') ∧ r = 0x602000000010 ∧
      ∃ older, m.queued.qz.chunks 1 = older ++ [m.entry] := by
  obtain ⟨m, s, s', hold, hstart, hzone, hend, hrun, hav, he, hreach⟩ :=
    @nestedMove_run 1 0x602000000010 (by decide +kernel)
  obtain ⟨hqueued, hpop⟩ := nested_entry_returned_iff rfl m
  have hr := (hpop hrun hav he hreach).mpr ⟨hstart, hend.trans hzone.symm⟩
  rw [hold] at hr
  rw [hzone] at hqueued
  exact ⟨m, s, s', _, hzone, hend, he, hr, hqueued⟩

end Cmasan
