/-
# Both halves of a realloc

A `realloc` is two hooks around the allocator's own code: `Start` makes the old
object addressable and puts its chunk in state `IN_REALLOC`, `End` releases it
and hands out the new one. If the object moved, all variants come to the same:
whether the quarantine is on or off and whether the allocator freed the old
object inside or not, the old chunk ends released and poisoned, the new one is
what a hand-out alone would have made it, and nothing is reported
(`movedRealloc_spec`). If the `realloc` failed, `End` returns at once, and what
`Start` did stays: the live object is `IN_REALLOC` and its redzone addressable
(`failedRealloc_not_restored`).

Key definitions: `movedRealloc`.
Key theorems: `failedRealloc_not_restored`, `HandedOut.same`,
`movedRealloc_spec`.
-/
import Cmasan.Objects
import Cmasan.Reports
import Cmasan.ShadowRuns
import Cmasan.Traffic
import Mathlib.Order.Interval.Finset.Nat

namespace Cmasan

open Lib

/-! ### A realloc that fails -/

/-- **A failed `realloc`** is not undone: whatever the layout, the chunk is left
`IN_REALLOC` and its range addressable. -/
theorem failedRealloc_not_restored {F : Flags} {k : Caller} {s : State} {oldPtr size granularity id c : ℕ}
    (hget : tltGet s.tlt oldPtr = some c) (hstart : (s.tlt.info c).startAddr = oldPtr)
    (hst : (s.tlt.info c).status = .allocated) :
    ∃ s', reallocateCMAChunkEnd F k (reallocateCMAChunkStart F s oldPtr false id) oldPtr 0 size granularity id
        false = some s' ∧
      ¬ ((s'.tlt.info c).status = (s.tlt.info c).status ∧ s'.shadow = s.shadow) ∧
      (s'.tlt.info c).status = .inRealloc ∧ ∀ n, (s.tlt.info c).poisons n → s'.shadow n = 0 := by
  have hend : reallocateCMAChunkEnd F k (reallocateCMAChunkStart F s oldPtr false id) oldPtr 0 size granularity
      id false = some (reallocateCMAChunkStart F s oldPtr false id) := by
    unfold reallocateCMAChunkEnd
    rw [if_pos (.inr (.inl rfl))]
  refine ⟨_, hend, ?_⟩
  obtain ⟨ht, hsh, -⟩ := reallocateCMAChunkStart_tracked F id hget
  have hstatus : ((reallocateCMAChunkStart F s oldPtr false id).tlt.info c).status = .inRealloc := by
    rw [ht, info_setInfo, if_pos rfl]
  refine ⟨fun hsame => ?_, hstatus, fun n hn => ?_⟩
  · rw [hstatus, hst] at hsame
    cases hsame.1
  · rw [hsh]
    unfold fastPoisonShadow
    unfold ChunkInfo.poisons at hn
    rw [hstart] at hn
    rw [if_pos]
    exact ⟨by unfold roundDownTo; omega, hn.2⟩

/-- The state of a `realloc` that failed, step by step. -/
theorem failedRealloc_leaves_inRealloc :
    ∃ s s', HookRun defaultFlags [.allocate {} 0x602000000010 16 1 1 false] s ∧
      hookStep defaultFlags (reallocateCMAChunkStart defaultFlags s 0x602000000010 false 1)
        (.reallocateEnd {} 0x602000000010 0 64 1 1 false) = some s' ∧
      (s.tlt.info 0).status = .allocated ∧ (s'.tlt.info 0).status = .inRealloc ∧
      addressIsPoisoned s.shadow 0x602000000020 = true ∧ addressIsPoisoned s'.shadow 0x602000000020 = false := by
  have h : ((exec (hookStep defaultFlags) (fun _ _ => True) .initial
      [.allocate {} 0x602000000010 16 1 1 false]).bind fun s =>
      (hookStep defaultFlags (reallocateCMAChunkStart defaultFlags s 0x602000000010 false 1)
        (.reallocateEnd {} 0x602000000010 0 64 1 1 false)).map fun s' =>
        (((s.tlt.info 0).status, (s'.tlt.info 0).status),
          addressIsPoisoned s.shadow 0x602000000020, addressIsPoisoned s'.shadow 0x602000000020)) =
      some ((.allocated, .inRealloc), true, false) := by
    decide +kernel
  obtain ⟨s, hs, h⟩ := Option.bind_eq_some_iff.mp h
  obtain ⟨s', hs', h⟩ := Option.map_eq_some_iff.mp h
  simp only [Prod.mk.injEq] at h
  exact ⟨s, s', runs_of_exec hs, hs', h.1.1, h.1.2, h.2.1, h.2.2⟩

theorem failedRealloc_not_restored_run :
    ∃ s s', HookRun defaultFlags [.allocate {} 0x602000000010 16 1 1 false] s ∧
      reallocateCMAChunkEnd defaultFlags {} (reallocateCMAChunkStart defaultFlags s 0x602000000010 false 1)
        0x602000000010 0 64 1 1 false = some s' ∧
      ¬ ((s'.tlt.info 0).status = (s.tlt.info 0).status ∧ s'.shadow = s.shadow) := by
  have h : (exec (hookStep defaultFlags) (fun _ _ => True) .initial
      [.allocate {} 0x602000000010 16 1 1 false]).map (fun s =>
        (tltGet s.tlt 0x602000000010, (s.tlt.info 0).startAddr, (s.tlt.info 0).status)) =
      some (some 0, 0x602000000010, .allocated) := by
    decide +kernel
  obtain ⟨s, hs, h⟩ := Option.map_eq_some_iff.mp h
  simp only [Prod.mk.injEq] at h
  obtain ⟨s', he, hno, -⟩ :=
    @failedRealloc_not_restored defaultFlags {} s 0x602000000010 64 1 1 0 h.1 h.2.1 h.2.2
  exact ⟨s, s', runs_of_exec hs, he, hno⟩

/-! ### A realloc that moves the object -/

/-- `Start`, the free of the old object inside the allocator, if there is one,
and `End`. -/
def movedRealloc (F : Flags) (k₁ k₂ : Caller) (s : State) (oldPtr newPtr size granularity id : ℕ)
    (nested : Bool) : Option State :=
  let s := reallocateCMAChunkStart F s oldPtr false id
  (if nested then (releaseCMAChunk F k₁ s oldPtr id true).map (·.2) else some s).bind fun s =>
    reallocateCMAChunkEnd F k₂ s oldPtr newPtr size granularity id false

/-- Before `End`: the chunk is in a `realloc`, or in the quarantine by the free inside. -/
structure HalfRealloc (F : Flags) (s s' : State) (oldPtr c : ℕ) (nested : Bool) : Prop where
  inv : s'.Inv
  tlt : ∃ status, status ≠ .none ∧ s'.tlt = s.tlt.setInfo c { s.tlt.info c with status }
  pushes : ∀ id, pushesOf id s'.log = pushesOf id s.log ++
    if nested = true ∧ F.isQuarantineZoneOn = true ∧ (s.tlt.info c).cmaId = id then [oldPtr] else []
  reports : reportsOf s'.log = reportsOf s.log

theorem reallocateCMAChunkStart_half (F : Flags) {s : State} (h : s.Inv) (id : ℕ) {oldPtr c : ℕ}
    (hget : tltGet s.tlt oldPtr = some c) (hst : (s.tlt.info c).status = .allocated) :
    HalfRealloc F s (reallocateCMAChunkStart F s oldPtr false id) oldPtr c false ∧
      ((reallocateCMAChunkStart F s oldPtr false id).tlt.info c).status = .inRealloc := by
  have hi := reallocateCMAChunkStart_inv (F := F) h oldPtr id false
  obtain ⟨ht, -, -, hpu, hrep⟩ := reallocateCMAChunkStart_tracked F id hget
  refine ⟨⟨hi, ⟨.inRealloc, by decide, ht⟩, fun id' => by simp [hpu], hrep fun hd => ?_⟩, ?_⟩
  · rw [hst] at hd
    cases hd.1
  · rw [ht, info_setInfo, if_pos rfl]

theorem HalfRealloc.nestedFree {F : Flags} {s s₁ : State} {oldPtr c : ℕ}
    (h : HalfRealloc F s s₁ oldPtr c false) (k : Caller) (id : ℕ) (hget : tltGet s.tlt oldPtr = some c)
    (hstart : (s.tlt.info c).startAddr = oldPtr) (hst : (s₁.tlt.info c).status = .inRealloc) :
    ∃ r s₂, releaseCMAChunk F k s₁ oldPtr id true = some (r, s₂) ∧ HalfRealloc F s s₂ oldPtr c true := by
  obtain ⟨status, hn, ht⟩ := h.tlt
  have hget₁ : tltGet s₁.tlt oldPtr = some c := by rw [ht, tltGet_setInfo hget hn, hget]
  obtain ⟨r, s₂, he⟩ := releaseCMAChunk_returns F k h.inv oldPtr id true
  have hi := releaseCMAChunk_inv h.inv he
  refine ⟨r, s₂, he, ?_⟩
  rcases releaseCMAChunk_cases he with ⟨-, hs, h0 | ⟨-, hon⟩ | hno⟩ | ⟨c', hon, -, hr, -, hrep⟩ | ⟨c', hb, -⟩
  · exact absurd h0 (tltGet_eq_some.mp hget).1
  · -- the quarantine is off, and the pointer comes straight back
    have hoff : ¬ F.isQuarantineZoneOn = true := fun hq => hon hq c hget₁ hst
    refine ⟨hi, ⟨status, hn, hs.tlt.trans ht⟩, fun id' => ?_, hs.reports.trans h.reports⟩
    rw [hs.pushes, h.pushes, if_neg (by simp), if_neg fun hq => hoff hq.2.1]
  · refine absurd ?_ (hno c hget₁)
    rw [ht, info_setInfo, if_pos rfl]
    exact hstart
  · obtain rfl := Option.some.inj (hget₁.symm.trans hr.get)
    refine ⟨hi, ⟨.deallocated, by decide, ?_⟩, fun id' => ?_, hrep.trans h.reports⟩
    · rw [hr.tlt, ht, info_setInfo, if_pos rfl, setInfo_setInfo]
    · rw [hr.pushes, h.pushes, if_neg (by simp), List.append_nil, ht, info_setInfo, if_pos rfl]
      simp
  · cases hb

/-- A `realloc` before its `End`, whether the old object was freed inside or not. -/
theorem halfRealloc_returns (F : Flags) {s : State} (h : s.Inv) (k : Caller) (id : ℕ) {oldPtr c : ℕ}
    (hget : tltGet s.tlt oldPtr = some c) (hstart : (s.tlt.info c).startAddr = oldPtr)
    (hst : (s.tlt.info c).status = .allocated) (nested : Bool) :
    ∃ s₁, (if nested then
        (releaseCMAChunk F k (reallocateCMAChunkStart F s oldPtr false id) oldPtr id true).map (·.2)
        else some (reallocateCMAChunkStart F s oldPtr false id)) = some s₁ ∧
      HalfRealloc F s s₁ oldPtr c nested := by
  obtain ⟨hhalf, hstatus⟩ := reallocateCMAChunkStart_half F h id hget hst
  cases nested with
  | false => exact ⟨_, rfl, hhalf⟩
  | true =>
    obtain ⟨r, s₁, he, h₁⟩ := hhalf.nestedFree k id hget hstart hstatus
    refine ⟨s₁, ?_, h₁⟩
    rw [if_pos rfl, he]
    rfl

/-- `End` releases the old chunk of a `realloc` that moved, and reports and
queues nothing. -/
theorem HalfRealloc.releaseOld {F : Flags} {s s₁ : State} {oldPtr newPtr c : ℕ} {nested : Bool}
    (h : HalfRealloc F s s₁ oldPtr c nested) (k : Caller) (id : ℕ) (hget : tltGet s.tlt oldPtr = some c)
    (hstart : (s.tlt.info c).startAddr = oldPtr) (hmoved : oldPtr ≠ newPtr) :
    ∃ s₂, releaseOldChunk F k (s₁.lock F) oldPtr newPtr id = some s₂ ∧ State.Inv s₂ ∧
      State.Quiet (s₁.lock F) s₂ ∧ s₂.tlt = s.tlt.setInfo c ((s.tlt.info c).released k id) ∧
      s₂.shadow = freedShadow F s₁.shadow (s.tlt.info c) oldPtr := by
  obtain ⟨status, hn, ht⟩ := h.tlt
  have hget₁ : tltGet (s₁.lock F).tlt oldPtr = some c := by rw [State.lock_tlt, ht, tltGet_setInfo hget hn, hget]
  have hinfo : (s₁.lock F).tlt.info c = { s.tlt.info c with status } := by
    rw [State.lock_tlt, ht, info_setInfo, if_pos rfl]
  obtain ⟨s₂, he₂⟩ := releaseOldChunk_returns F k h.inv.lock oldPtr newPtr id
  have hstart₁ : ((s₁.lock F).tlt.info c).startAddr = oldPtr := by
    rw [hinfo]
    exact hstart
  obtain ⟨ht₂, hsh₂⟩ := releaseOldChunk_moved hget₁ hstart₁ hmoved he₂
  rw [hinfo] at ht₂ hsh₂
  rw [State.lock_tlt, ht, setInfo_setInfo] at ht₂
  rw [State.lock_shadow] at hsh₂
  exact ⟨s₂, he₂, releaseOldChunk_inv h.inv.lock he₂, (releaseOldChunk_cases he₂).1, ht₂, hsh₂⟩

theorem Inserted.info_eq {t t' : Tlt} {i : ChunkInfo} {lo hi : ℕ} (h : Inserted t t' i lo hi) (ht : t.Inv)
    (ht' : t'.Inv) (hhi : hi ≤ 2 ^ 45) : t'.info t.nextInfo = { i with cnt := hi - lo } := by
  have hholders : ((Finset.range (2 ^ 45)).filter fun n => slot t' n = some t.nextInfo) = Finset.Ico lo hi := by
    ext n
    rw [Finset.mem_filter, Finset.mem_range, Finset.mem_Ico]
    constructor
    · rintro ⟨-, hn⟩
      by_contra hout
      rw [h.outside n hout] at hn
      exact absurd (ht.used _ _ hn) (by omega)
    · rintro ⟨h1, h2⟩
      exact ⟨by omega, h.inside n h1 h2⟩
  have hcnt : (t'.info t.nextInfo).cnt = hi - lo := by
    have hcount := ht'.balanced.count t.nextInfo
    simp only [Tlt.refs, Nat.add_zero] at hcount
    rw [hcount]
    unfold holders
    rw [hholders, Nat.card_Ico]
  have hnew := h.new
  rw [← hnew, ← hcnt]
  rfl

/-- The table and the shadow have a new chunk, as a hand-out makes it. -/
structure HandedOut (F : Flags) (k : Caller) (s s' : State) (ptr size granularity id : ℕ) : Prop where
  request : TrackedRequest F.rz ptr size granularity
  inserted : Inserted s.tlt s'.tlt
    (newChunk ptr (size * granularity) (trackedEnd F.rz ptr size granularity - ptr - size * granularity) id
      k.stackId k.tid) (ptr / 8) (trackedEnd F.rz ptr size granularity / 8)
  shadow : s'.shadow = newChunkShadow F.canPoisonMemory s.shadow ptr (size * granularity)
    (trackedEnd F.rz ptr size granularity)
  pushes : ∀ id', pushesOf id' s'.log = pushesOf id' s.log
  reports : reportsOf s'.log = reportsOf s.log

theorem allocateCMAChunkImpl_handsOut {F : Flags} (k : Caller) {s : State} (h : s.Inv) {ptr size g : ℕ} (id : ℕ)
    (hfit : Fits F.rz ptr size g) (hz : size * g ≠ 0) (hext : extendSize F.rz size g false ≠ size) :
    ∃ s', allocateCMAChunkImpl F k s ptr size g id = some s' ∧ HandedOut F k s s' ptr size g id := by
  have hr : TrackedRequest F.rz ptr size g := Obj.Tracked.request (o := ⟨ptr, size, g, id⟩) ⟨hfit, hz, hext⟩
  obtain ⟨t', -, he⟩ := allocateCMAChunkImpl_tracked h hr k id
  refine ⟨_, he, ?_⟩
  obtain ⟨hq, ⟨-, hsame, -⟩ | ⟨-, hins, hsh, -⟩ | ⟨hz', -⟩⟩ := allocateCMAChunkImpl_cases h hfit he
  · exact absurd hsame hext
  · exact ⟨hr, hins, hsh, hq.pushes, hq.reports⟩
  · exact absurd hz' hz

section HandedOut

variable {F : Flags} {k : Caller} {s s' : State} {ptr size g id : ℕ}

theorem HandedOut.unlock (h : HandedOut F k s s' ptr size g id) : HandedOut F k s (s'.unlock F) ptr size g id where
  request := h.request
  inserted := by
    rw [State.unlock_tlt]
    exact h.inserted
  shadow := by rw [State.unlock_shadow, h.shadow]
  pushes id' := by rw [State.pushesOf_unlock, h.pushes]
  reports := by rw [State.reportsOf_unlock, h.reports]

theorem allocateCMAChunk_handsOut (h : s.Inv) (hfit : Fits F.rz ptr size g) (hz : size * g ≠ 0)
    (hext : extendSize F.rz size g false ≠ size) (he : allocateCMAChunk F k s ptr size g id false = some s') :
    HandedOut F k (s.lock F) s' ptr size g id := by
  obtain ⟨s₁, he₁, rfl⟩ := allocateCMAChunk_impl hfit.ptr_ne he
  obtain ⟨s₂, he₂, h₂⟩ := allocateCMAChunkImpl_handsOut k (h.lock (F := F)) id hfit hz hext
  obtain rfl := Option.some.inj (he₁.symm.trans he₂)
  exact h₂.unlock

theorem HandedOut.entry (h : HandedOut F k s s' ptr size g id) (hi : s.Inv) (hi' : s'.Inv) (hfit : Fits F.rz ptr size g)
    {a : ℕ} (h1 : roundDownTo ptr 8 ≤ a) (h2 : a < trackedEnd F.rz ptr size g) (h0 : a ≠ 0) :
    tltGet s'.tlt a = some s.tlt.nextInfo ∧
      s'.tlt.info s.tlt.nextInfo =
        { newChunk ptr (size * g) (trackedEnd F.rz ptr size g - ptr - size * g) id k.stackId k.tid with
          cnt := trackedEnd F.rz ptr size g / 8 - ptr / 8 } := by
  have hE := h.request.end_bounds
  have hend := hfit.end_le
  have hg : granule a = a / 8 := Nat.mod_eq_of_lt (by omega)
  unfold roundDownTo at h1
  refine ⟨h.inserted.get_inside (by simp [newChunk]) h0 (by omega) (by omega), ?_⟩
  exact h.inserted.info_eq hi.tlt hi'.tlt (by omega)

theorem HandedOut.get_outside (h : HandedOut F k s s' ptr size g id) (hi : s.Inv) {a : ℕ} (ha : a < 2 ^ 48)
    (hno : ¬ (roundDownTo ptr 8 ≤ a ∧ a < trackedEnd F.rz ptr size g)) : tltGet s'.tlt a = tltGet s.tlt a := by
  have hE := h.request.end_bounds
  have hg : granule a = a / 8 := Nat.mod_eq_of_lt (by omega)
  unfold roundDownTo at hno
  exact h.inserted.get_outside hi.tlt (by omega)

theorem HandedOut.inRealloc (h : HandedOut F k s s' ptr size g id) {c : ℕ}
    (hc : (s'.tlt.info c).status = .inRealloc) : (s.tlt.info c).status = .inRealloc := by
  by_cases hnew : c = s.tlt.nextInfo
  · have hstat := congrArg ChunkInfo.status h.inserted.new
    rw [← hnew] at hstat
    exact absurd (hc.symm.trans hstat) (by simp [newChunk])
  · have hstat := (ChunkInfo.core_eq_iff.mp (h.inserted.old c hnew)).2.2.2.1
    exact hstat.symm.trans hc

/-- **What a hand-out enters does not depend on what was there before**: not
the infos of its range, and not the shadow. -/
theorem HandedOut.same {s₀ s₁ : State} (h : HandedOut F k s s' ptr size g id)
    (h' : HandedOut F k s₀ s₁ ptr size g id) (hi : s.Inv) (hi' : s'.Inv) (hi₀ : s₀.Inv) (hi₁ : s₁.Inv)
    (hfit : Fits F.rz ptr size g) :
    (∀ a, roundDownTo ptr 8 ≤ a → a < trackedEnd F.rz ptr size g → a ≠ 0 →
      ∃ c c₁, tltGet s'.tlt a = some c ∧ tltGet s₁.tlt a = some c₁ ∧ s'.tlt.info c = s₁.tlt.info c₁) ∧
    ∀ n, ptr / 8 ≤ n → n ≤ trackedEnd F.rz ptr size g / 8 → s'.shadow n = s₁.shadow n := by
  constructor
  · intro a h1 h2 h0
    obtain ⟨hget, hinfo⟩ := h.entry hi hi' hfit h1 h2 h0
    obtain ⟨hget₁, hinfo₁⟩ := h'.entry hi₀ hi₁ hfit h1 h2 h0
    exact ⟨_, _, hget, hget₁, hinfo.trans hinfo₁.symm⟩
  · intro n h1 h2
    rw [h.shadow, h'.shadow]
    unfold newChunkShadow
    split_ifs <;> first | rfl | omega

end HandedOut

/-- **All variants of a `realloc` that moves come to the same.** The old chunk,
which owns its granules, and the new range with the granule behind it are
apart. Whether the quarantine is on or not, and whether the allocator frees the
old object inside or not: nothing is reported, the old chunk ends released and
poisoned, the new one is that of a fresh hand-out, no chunk is left
`IN_REALLOC`, and the old pointer is queued exactly by the free inside, if the
quarantine is on. -/
theorem movedRealloc_spec {F : Flags} (hp : F.canPoisonMemory = true) {s : State} (h : HookReachable F s)
    {oldPtr newPtr size granularity id c : ℕ} (hget : tltGet s.tlt oldPtr = some c)
    (hstart : (s.tlt.info c).startAddr = oldPtr) (hst : (s.tlt.info c).status = .allocated)
    (hold : (s.tlt.info c).endAddr ≤ 2 ^ 48) (hown : ∀ n ∈ (s.tlt.info c).granules, slot s.tlt n = some c)
    (hmoved : oldPtr ≠ newPtr) (hfit : Fits F.rz newPtr size granularity) (hz : size * granularity ≠ 0)
    (hext : extendSize F.rz size granularity false ≠ size)
    (hapart : trackedEnd F.rz newPtr size granularity + 8 ≤ roundDownTo oldPtr 8 ∨
      (s.tlt.info c).endAddr ≤ roundDownTo newPtr 8) (k₁ k₂ : Caller) (nested : Bool) :
    ∃ s', movedRealloc F k₁ k₂ s oldPtr newPtr size granularity id nested = some s' ∧
      reportsOf s'.log = reportsOf s.log ∧
      ((s'.tlt.info c).status = .deallocated ∧ (∀ n ∈ (s.tlt.info c).granules, slot s'.tlt n = some c) ∧
        RangePoisoned (s.tlt.info c) s'.shadow) ∧
      (∀ s₀ s₁, HookReachable F s₀ → allocateCMAChunk F k₂ s₀ newPtr size granularity id false = some s₁ →
        (∀ a, roundDownTo newPtr 8 ≤ a → a < trackedEnd F.rz newPtr size granularity → a ≠ 0 →
          ∃ c' c₁, tltGet s'.tlt a = some c' ∧ tltGet s₁.tlt a = some c₁ ∧ s'.tlt.info c' = s₁.tlt.info c₁) ∧
        ∀ n, newPtr / 8 ≤ n → n ≤ trackedEnd F.rz newPtr size granularity / 8 → s'.shadow n = s₁.shadow n) ∧
      (∀ a, a < 2 ^ 48 → ¬ (roundDownTo newPtr 8 ≤ a ∧ a < trackedEnd F.rz newPtr size granularity) →
        tltGet s'.tlt a = tltGet s.tlt a) ∧
      (∀ c', (s'.tlt.info c').status = .inRealloc → (s.tlt.info c').status = .inRealloc) ∧
      ∀ id', pushesOf id' s'.log = pushesOf id' s.log ++
        if nested = true ∧ F.isQuarantineZoneOn = true ∧ (s.tlt.info c).cmaId = id' then [oldPtr] else [] := by
  obtain ⟨s₁, he₁, h₁⟩ := halfRealloc_returns F h.inv k₁ id hget hstart hst nested
  -- `End`, the old chunk and the new one
  obtain ⟨s₂, he₂, hi₂, hq₂, ht₂, hsh₂⟩ := h₁.releaseOld k₂ id hget hstart hmoved
  obtain ⟨s₃, he₃, h₃⟩ := allocateCMAChunkImpl_handsOut k₂ hi₂ id hfit hz hext
  have hnew := h₃.unlock
  have hi' : (s₃.unlock F).Inv := (allocateCMAChunkImpl_inv hi₂ he₃).unlock
  have hE := hnew.request.end_bounds
  have hused : c < s₂.tlt.nextInfo := by
    rw [ht₂]
    exact h.inv.tlt.used _ _ (tltGet_eq_some.mp hget).2.1
  have hcore : ((s₃.unlock F).tlt.info c).core = ((s.tlt.info c).released k₂ id).core := by
    rw [hnew.inserted.old c hused.ne, ht₂, info_setInfo, if_pos rfl]
  -- the two ranges have no granule in common
  have hout : ∀ n ∈ (s.tlt.info c).granules, ¬ (newPtr / 8 ≤ n ∧ n ≤ trackedEnd F.rz newPtr size granularity / 8) := by
    intro n hn
    have hmem := mem_granules.mp hn
    rw [hstart] at hmem
    unfold roundDownTo at hapart
    omega
  refine ⟨s₃.unlock F, ?_, ?_, ⟨?_, ?_, ?_⟩, ?_, ?_, ?_, ?_⟩
  · unfold movedRealloc
    simp only [he₁, Option.bind_some]
    unfold reallocateCMAChunkEnd
    rw [if_neg (by simp [hfit.ptr_ne, hnew.request.size_ne]), he₂, Option.bind_some, he₃]
    rfl
  · calc reportsOf (s₃.unlock F).log
      _ = reportsOf s₂.log := hnew.reports
      _ = reportsOf (s₁.lock F).log := hq₂.reports
      _ = reportsOf s₁.log := s₁.reportsOf_lock F
      _ = reportsOf s.log := h₁.reports
  · exact (ChunkInfo.core_eq_iff.mp hcore).2.2.2.1
  · intro n hn
    rw [hnew.inserted.outside n fun hin => hout n hn ⟨hin.1, hin.2.le⟩, ht₂, slot_setInfo]
    exact hown n hn
  · apply rangePoisoned_of_magic (h.inv.tlt.end_mod hget hold)
    intro n hn
    rw [hnew.shadow, hp, newChunkShadow_outside (by omega) (hout n hn), hsh₂, ← hstart,
      freedShadow_eq hp _ hold, if_pos hn]
  · intro s₀ s' h₀ he'
    have hi₀ : s'.Inv := hookStep_inv (e := .allocate k₂ newPtr size granularity id false) h₀.inv he'
    exact hnew.same (allocateCMAChunk_handsOut h₀.inv hfit hz hext he') hi₂ hi' h₀.inv.lock hi₀ hfit
  · intro a ha hno
    rw [hnew.get_outside hi₂ ha hno, ht₂, tltGet_setInfo hget (by simp [ChunkInfo.released])]
  · intro c' hc'
    have hstat := hnew.inRealloc hc'
    rw [ht₂, info_setInfo] at hstat
    split at hstat
    · cases hstat
    · exact hstat
  · intro id'
    calc pushesOf id' (s₃.unlock F).log
      _ = pushesOf id' s₂.log := hnew.pushes id'
      _ = pushesOf id' (s₁.lock F).log := hq₂.pushes id'
      _ = pushesOf id' s₁.log := s₁.pushesOf_lock F id'
      _ = _ := h₁.pushes id'

/-- With the quarantine on and a free inside, the old pointer is queued and not reported. -/
theorem movedRealloc_nested :
    ∃ s s', HookRun defaultFlags [.allocate {} 0x602000000010 16 1 1 false] s ∧
      movedRealloc defaultFlags {} {} s 0x602000000010 0x602000000110 40 1 1 true = some s' ∧
      reportsOf s'.log = reportsOf s.log ∧ (s'.tlt.info 0).status = .deallocated ∧
      RangePoisoned (s.tlt.info 0) s'.shadow ∧ pushesOf 1 s'.log = pushesOf 1 s.log ++ [0x602000000010] := by
  have h : (exec (hookStep defaultFlags) (fun _ _ => True) .initial
      [.allocate {} 0x602000000010 16 1 1 false]).map (fun s =>
        (tltGet s.tlt 0x602000000010, s.tlt.info 0, (s.tlt.info 0).granules.map (slot s.tlt))) =
      some (some 0, ⟨0x602000000010, 16, 24, .allocated, 1, 0, 0, 0, kInvalidTid, 5⟩,
        [some 0, some 0, some 0, some 0, some 0]) := by
    decide +kernel
  obtain ⟨s, hs, h⟩ := Option.map_eq_some_iff.mp h
  simp only [Prod.mk.injEq] at h
  obtain ⟨hget, hinfo, hslots⟩ := h
  have hown : ∀ n ∈ (s.tlt.info 0).granules, slot s.tlt n = some 0 := by
    intro n hn
    have hm : slot s.tlt n ∈ [some 0, some 0, some 0, some 0, some 0] := by
      rw [← hslots]
      exact List.mem_map_of_mem hn
    simpa using hm
  obtain ⟨s', he, hrep, ⟨hst, -, hpois⟩, -, -, -, hpush⟩ :=
    @movedRealloc_spec defaultFlags rfl s ⟨_, runs_of_exec hs⟩ 0x602000000010 0x602000000110 40 1 1 0 hget
      (by rw [hinfo]) (by rw [hinfo]) (by rw [hinfo]; decide) hown (by decide) (by decide +kernel) (by decide)
      (by decide) (by rw [hinfo]; decide +kernel) {} {} true
  refine ⟨s, s', runs_of_exec hs, he, hrep, hst, hpois, ?_⟩
  rw [hpush, if_pos ⟨rfl, rfl, by rw [hinfo]⟩]

end Cmasan
