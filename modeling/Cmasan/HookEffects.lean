/-
# What each hook changes

One lemma per hook: which chunk info it writes and how, what it does to the
quarantine, and what it logs. A release either hands the pointer straight back
and changes nothing, or marks the chunk at the pointer as released and passes
it through the quarantine. The end of a `realloc` marks the old chunk as
released and hands out the new one. Only a chunk that is released already, under
the id of the call, is reported.

Key definitions: `Same`, `pushesOf`, `reportsOf`, `ChunkInfo.released`,
`Inserted`.
Key theorems: `releaseCMAChunk_cases`, `releaseCMAChunk_retired`, `reallocateCMAChunkStart_cases`,
`releaseOldChunk_cases`, `allocateCMAChunkImpl_cases`.
-/
import Cmasan.Allocate

namespace Cmasan

/-! ### The log -/

/-- The pointers pushed to the zone of an id. -/
def pushesOf (id : ℕ) : List Event → List ℕ :=
  List.filterMap fun
    | .pushPtr id' ptr => if id' = id then some ptr else none
    | _ => none

/-- The double frees reported. -/
def reportsOf : List Event → List ℕ :=
  List.filterMap fun
    | .reportDoubleFree ptr => some ptr
    | _ => none

@[simp] theorem reportsOf_append (l l' : List Event) : reportsOf (l ++ l') = reportsOf l ++ reportsOf l' :=
  List.filterMap_append

namespace State

variable (F : Flags) (s : State) (id ptr : ℕ)

@[simp] theorem pushesOf_lock : pushesOf id (s.lock F).log = pushesOf id s.log := by
  unfold lock; split <;> simp [pushesOf]
@[simp] theorem pushesOf_unlock : pushesOf id (s.unlock F).log = pushesOf id s.log := by
  unfold unlock; split <;> simp [pushesOf]
@[simp] theorem pushesOf_report : pushesOf id (s.reportDoubleFree F ptr).log = pushesOf id s.log := by
  unfold reportDoubleFree; split <;> simp [pushesOf]
@[simp] theorem reportsOf_lock : reportsOf (s.lock F).log = reportsOf s.log := by
  unfold lock; split <;> simp [reportsOf]
@[simp] theorem reportsOf_unlock : reportsOf (s.unlock F).log = reportsOf s.log := by
  unfold unlock; split <;> simp [reportsOf]

@[simp] theorem pushesOf_setStatus (c : ℕ) (status : Status) :
    pushesOf id (s.setStatus c status).log = pushesOf id s.log := by simp [setStatus_log, pushesOf]
@[simp] theorem reportsOf_setStatus (c : ℕ) (status : Status) :
    reportsOf (s.setStatus c status).log = reportsOf s.log := by simp [setStatus_log, reportsOf]

/-- Two states with the same data; one has logged more, but no push and no report. -/
structure Same (s s' : State) : Prop where
  tlt : s'.tlt = s.tlt
  shadow : s'.shadow = s.shadow
  qz : s'.qz = s.qz
  alz : s'.alz = s.alz
  pushes : ∀ id, pushesOf id s'.log = pushesOf id s.log
  reports : reportsOf s'.log = reportsOf s.log

variable {s}

theorem Same.refl : Same s s := ⟨rfl, rfl, rfl, rfl, fun _ => rfl, rfl⟩

theorem Same.trans {s₁ s₂ : State} (h : Same s s₁) (h' : Same s₁ s₂) : Same s s₂ :=
  ⟨h'.tlt.trans h.tlt, h'.shadow.trans h.shadow, h'.qz.trans h.qz, h'.alz.trans h.alz,
    fun id => (h'.pushes id).trans (h.pushes id), h'.reports.trans h.reports⟩

theorem Same.lock : Same s (s.lock F) := ⟨by simp, by simp, by simp, by simp, by simp, by simp⟩

theorem Same.unlock : Same s (s.unlock F) := ⟨by simp, by simp, by simp, by simp, by simp, by simp⟩

end State

/-! ### Table entries -/

@[simp] theorem info_setInfo (t : Tlt) (c : ℕ) (i : ChunkInfo) (c' : ℕ) :
    (t.setInfo c i).info c' = if c' = c then i else t.info c' := by
  simp only [Tlt.setInfo, Function.update_apply]

/-- An info that stays in use keeps every entry. -/
theorem tltGet_setInfo {t : Tlt} {c p : ℕ} {i : ChunkInfo} (hc : tltGet t p = some c)
    (hi : i.status ≠ .none) (a : ℕ) : tltGet (t.setInfo c i) a = tltGet t a := by
  have hs := (tltGet_eq_some.mp hc).2.2
  unfold tltGet
  rw [tltGetInternal_eq, tltGetInternal_eq, slot_setInfo]
  congr 1
  cases slot t (granule a) with
  | none => rfl
  | some c' =>
    by_cases he : c' = c
    · subst he
      simp [Option.filter, hi, hs]
    · simp [Option.filter, he]

/-- The info of a released chunk of `id`. -/
def ChunkInfo.released (i : ChunkInfo) (k : Caller) (id : ℕ) : ChunkInfo :=
  { i with status := .deallocated, freeStackId := k.stackId, freeThreadId := k.tid, cmaId := id }

/-- The shadow after the range of a chunk at `ptr` was poisoned as released. -/
def freedShadow (F : Flags) (s : Shadow) (i : ChunkInfo) (ptr : ℕ) : Shadow :=
  if F.canPoisonMemory then
    fastPoisonShadow s (roundDownTo ptr 8) (uadd (uadd i.rzSize i.chunkSize) (ptr - roundDownTo ptr 8))
      kAsanHeapFreeMagic
  else s

/-! ### Releases -/

theorem freeChunk_cases {F : Flags} {k : Caller} {s s' : State} {c ptr id : ℕ}
    (he : freeChunk F k s c ptr id = some s') :
    s'.tlt = s.tlt.setInfo c ((s.tlt.info c).released k id) ∧
      s'.shadow = freedShadow F s.shadow (s.tlt.info c) ptr ∧ s'.qz = s.qz ∧ s'.alz = s.alz ∧
      (∀ id', pushesOf id' s'.log = pushesOf id' s.log) ∧ reportsOf s'.log = reportsOf s.log := by
  unfold freeChunk at he
  obtain ⟨shadow, hp, rfl⟩ := Option.map_eq_some_iff.mp he
  refine ⟨rfl, ?_, rfl, rfl, by simp [pushesOf], by simp [reportsOf]⟩
  show shadow = _
  unfold poisonShadow at hp
  unfold freedShadow
  split at hp
  · rename_i hv
    rw [if_neg hv.2]
    exact (Option.some.inj hp).symm
  · rename_i hv
    rw [if_pos (by by_contra hc; exact hv ⟨by decide, hc⟩)]
    split at hp
    · exact (Option.some.inj hp).symm
    · cases hp

/-- **`releaseCMAChunkImpl`** leaves a pointer that is no tracked chunk alone,
and marks the chunk at the pointer as released otherwise. -/
theorem releaseCMAChunkImpl_cases {F : Flags} {k : Caller} {s s' : State} {ptr id : ℕ} {b : Bool}
    (he : releaseCMAChunkImpl F k s ptr id = some (b, s')) :
    (b = false ∧ s' = s ∧ (∀ c, tltGet s.tlt ptr = some c → (s.tlt.info c).startAddr ≠ ptr)) ∨
      ∃ c, b = true ∧ tltGet s.tlt ptr = some c ∧ (s.tlt.info c).startAddr = ptr ∧
        s'.tlt = s.tlt.setInfo c ((s.tlt.info c).released k id) ∧
        s'.shadow = freedShadow F s.shadow (s.tlt.info c) ptr ∧ s'.qz = s.qz ∧ s'.alz = s.alz ∧
        (∀ id', pushesOf id' s'.log = pushesOf id' s.log) ∧
        (¬ ((s.tlt.info c).status = .deallocated ∧ (s.tlt.info c).cmaId = id) →
          reportsOf s'.log = reportsOf s.log) := by
  unfold releaseCMAChunkImpl at he
  rcases hget : tltGet s.tlt ptr with _ | c
  · rw [hget] at he
    obtain ⟨rfl, rfl⟩ := Prod.mk.inj (Option.some.inj he)
    exact .inl ⟨rfl, rfl, fun c hc => by cases hc⟩
  · rw [hget] at he
    simp only at he
    by_cases hstart : (s.tlt.info c).startAddr = ptr
    · rw [if_neg (by simp [hstart])] at he
      obtain ⟨s₁, hf, he⟩ := Option.map_eq_some_iff.mp he
      obtain ⟨rfl, rfl⟩ := Prod.mk.inj he
      obtain ⟨h1, h2, h3, h4, h5, h6⟩ := freeChunk_cases hf
      refine .inr ⟨c, rfl, rfl, hstart, ?_⟩
      split at h1
      · rename_i hd
        rw [if_pos hd] at h2 h3 h4 h5 h6
        simp only [State.reportDoubleFree_tlt, State.unlock_tlt, State.reportDoubleFree_shadow,
          State.unlock_shadow, State.reportDoubleFree_qz, State.unlock_qz, State.reportDoubleFree_alz,
          State.unlock_alz, State.pushesOf_report, State.pushesOf_unlock] at h1 h2 h3 h4 h5
        exact ⟨h1, h2, h3, h4, h5, fun hn => absurd ⟨hd.1, hd.2.1⟩ hn⟩
      · rename_i hd
        rw [if_neg hd] at h2 h3 h4 h5 h6
        exact ⟨h1, h2, h3, h4, h5, fun _ => h6⟩
    · rw [if_pos hstart] at he
      obtain ⟨rfl, rfl⟩ := Prod.mk.inj (Option.some.inj he)
      exact .inl ⟨rfl, rfl, fun c' hc' => by obtain rfl := Option.some.inj hc'; exact hstart⟩

theorem pushAndPop_log {F : Flags} {s s' : State} {ptr r c : ℕ} (hget : tltGet s.tlt ptr = some c)
    (he : s.pushAndPop F ptr = some (r, s')) :
    (∀ id, pushesOf id s'.log = pushesOf id s.log ++
      if F.isQuarantineZoneOn ∧ (s.tlt.info c).cmaId = id then [ptr] else []) ∧
      reportsOf s'.log = reportsOf s.log := by
  unfold State.pushAndPop at he
  obtain ⟨⟨r', qz⟩, -, he⟩ := Option.map_eq_some_iff.mp he
  obtain ⟨rfl, rfl⟩ := Prod.mk.inj he
  rw [hget]
  cases F.isQuarantineZoneOn with
  | false => simp
  | true =>
    refine ⟨fun id => ?_, by simp [reportsOf]⟩
    by_cases hid : (s.tlt.info c).cmaId = id <;> simp [pushesOf, hid]

/-- What a release does to the chunk `c` at its pointer and to the quarantine,
when the chunk's info becomes `i`. -/
structure Retired (F : Flags) (s s' : State) (ptr r c : ℕ) (i : ChunkInfo) : Prop where
  get : tltGet s.tlt ptr = some c
  tlt : s'.tlt = s.tlt.setInfo c i
  popped : pushAndPopFromQuarantine F s'.tlt s.qz ptr = some (r, s'.qz)
  alz : s'.alz = s.alz
  pushes : ∀ id, pushesOf id s'.log = pushesOf id s.log ++
    if F.isQuarantineZoneOn ∧ i.cmaId = id then [ptr] else []

theorem retired_of_pushAndPop {F : Flags} {s s₁ s' : State} {ptr r c : ℕ} {i : ChunkInfo}
    (hget : tltGet s.tlt ptr = some c) (hi : i.status ≠ .none) (ht : s₁.tlt = s.tlt.setInfo c i)
    (hq : s₁.qz = s.qz) (ha : s₁.alz = s.alz) (hp : ∀ id, pushesOf id s₁.log = pushesOf id s.log)
    (he : s₁.pushAndPop F ptr = some (r, s')) :
    Retired F s (s'.unlock F) ptr r c i ∧ s'.shadow = s₁.shadow ∧ reportsOf s'.log = reportsOf s₁.log := by
  obtain ⟨h1, h2, h3, h4⟩ := State.pushAndPop_frame ptr he
  have hget₁ : tltGet s₁.tlt ptr = some c := by rw [ht, tltGet_setInfo hget hi, hget]
  obtain ⟨h5, h6⟩ := pushAndPop_log hget₁ he
  refine ⟨⟨hget, by simp [h1, ht], ?_, by simp [h3, ha], fun id => ?_⟩, h2, h6⟩
  · rw [State.unlock_tlt, State.unlock_qz, h1, ← hq]
    exact h4
  · rw [State.pushesOf_unlock, h5, hp, ht, info_setInfo, if_pos rfl]

/-- **`releaseInRealloc`**, with the quarantine on, retires a chunk in a
`realloc` and keeps its shadow; it changes nothing otherwise. -/
theorem releaseInRealloc_cases {F : Flags} {s s' : State} {ptr : ℕ} {r : Option ℕ}
    (he : releaseInRealloc F s ptr = some (r, s')) :
    (r = none ∧ State.Same s s' ∧ (F.isQuarantineZoneOn = true →
      ∀ c, tltGet s.tlt ptr = some c → (s.tlt.info c).status ≠ .inRealloc)) ∨
    ∃ c r', r = some r' ∧ F.isQuarantineZoneOn = true ∧ (s.tlt.info c).status = .inRealloc ∧
      Retired F s s' ptr r' c { s.tlt.info c with status := .deallocated } ∧
      s'.shadow = s.shadow ∧ reportsOf s'.log = reportsOf s.log := by
  have hlock : State.Same s ((s.lock F).unlock F) := (State.Same.lock F).trans (State.Same.unlock F)
  unfold releaseInRealloc at he
  by_cases hon : F.isQuarantineZoneOn = true
  · rw [if_pos hon] at he
    simp only [State.lock_tlt] at he
    rcases hget : tltGet s.tlt ptr with _ | c
    · rw [hget] at he
      obtain ⟨rfl, rfl⟩ := Prod.mk.inj (Option.some.inj he)
      exact .inl ⟨rfl, hlock, fun _ c hc => by cases hc⟩
    · rw [hget] at he
      simp only at he
      by_cases hst : (s.tlt.info c).status = .inRealloc
      · rw [if_pos hst] at he
        obtain ⟨⟨r', s₂⟩, hpp, he⟩ := Option.map_eq_some_iff.mp he
        obtain ⟨rfl, rfl⟩ := Prod.mk.inj he
        obtain ⟨hr, hsh, hrep⟩ := retired_of_pushAndPop hget
          (i := { s.tlt.info c with status := .deallocated }) (by simp) (by simp) (by simp) (by simp)
          (by simp) hpp
        exact .inr ⟨c, r', rfl, hon, hst, hr, by simp [hsh], by simp [hrep]⟩
      · rw [if_neg hst] at he
        obtain ⟨rfl, rfl⟩ := Prod.mk.inj (Option.some.inj he)
        exact .inl ⟨rfl, hlock, fun _ c' hc' => Option.some.inj hc' ▸ hst⟩
  · rw [if_neg hon] at he
    obtain ⟨rfl, rfl⟩ := Prod.mk.inj (Option.some.inj he)
    exact .inl ⟨rfl, .refl, fun h => absurd h hon⟩

theorem releaseInRealloc_none {F : Flags} {s s' : State} {ptr : ℕ}
    (he : releaseInRealloc F s ptr = some (none, s')) :
    State.Same s s' ∧ (F.isQuarantineZoneOn = true →
      ∀ c, tltGet s.tlt ptr = some c → (s.tlt.info c).status ≠ .inRealloc) := by
  rcases releaseInRealloc_cases he with ⟨-, hsame⟩ | ⟨c, r, hr, -⟩
  · exact hsame
  · cases hr

theorem releaseInRealloc_some {F : Flags} {s s' : State} {ptr r : ℕ}
    (he : releaseInRealloc F s ptr = some (some r, s')) :
    ∃ c, F.isQuarantineZoneOn = true ∧ (s.tlt.info c).status = .inRealloc ∧
      Retired F s s' ptr r c { s.tlt.info c with status := .deallocated } ∧
      s'.shadow = s.shadow ∧ reportsOf s'.log = reportsOf s.log := by
  rcases releaseInRealloc_cases he with ⟨hn, -⟩ | ⟨c, r', hr, hall⟩
  · cases hn
  · obtain rfl := Option.some.inj hr
    exact ⟨c, hall⟩

/-- **`__asan_releaseCMAChunk`**: the pointer comes straight back and nothing
changes (it is null, or the allocator's own, or no tracked chunk); or it is
the old pointer of a `realloc`, which keeps its shadow; or its chunk is marked
as released and poisoned. -/
theorem releaseCMAChunk_cases {F : Flags} {k : Caller} {s s' : State} {ptr id r : ℕ} {b : Bool}
    (he : releaseCMAChunk F k s ptr id b = some (r, s')) :
    (r = ptr ∧ State.Same s s' ∧ (ptr = 0 ∨
      (b = true ∧ (F.isQuarantineZoneOn = true →
        ∀ c, tltGet s.tlt ptr = some c → (s.tlt.info c).status ≠ .inRealloc)) ∨
      ∀ c, tltGet s.tlt ptr = some c → (s.tlt.info c).startAddr ≠ ptr)) ∨
    (∃ c, F.isQuarantineZoneOn = true ∧ (s.tlt.info c).status = .inRealloc ∧
      Retired F s s' ptr r c { s.tlt.info c with status := .deallocated } ∧
      s'.shadow = s.shadow ∧ reportsOf s'.log = reportsOf s.log) ∨
    ∃ c, b = false ∧ (s.tlt.info c).startAddr = ptr ∧
      Retired F s s' ptr r c ((s.tlt.info c).released k id) ∧
      s'.shadow = freedShadow F s.shadow (s.tlt.info c) ptr ∧
      (¬ ((s.tlt.info c).status = .deallocated ∧ (s.tlt.info c).cmaId = id) →
        reportsOf s'.log = reportsOf s.log) ∧
      (F.isQuarantineZoneOn = true → (s.tlt.info c).status ≠ .inRealloc) := by
  cases releaseCMAChunk_path he with
  | null hp => exact .inl ⟨rfl, .refl, .inl hp⟩
  | inRealloc h₁ => exact .inr (.inl (releaseInRealloc_some h₁))
  | inCma h₁ =>
    obtain ⟨hsame, hno⟩ := releaseInRealloc_none h₁
    exact .inl ⟨rfl, hsame, .inr (.inl ⟨rfl, hno⟩)⟩
  | noChunk h₁ h₂ =>
    have hl := (releaseInRealloc_none h₁).1.trans (State.Same.lock F)
    rcases releaseCMAChunkImpl_cases h₂ with ⟨-, rfl, hstart⟩ | ⟨c, hb, -⟩
    · rw [hl.tlt] at hstart
      exact .inl ⟨rfl, hl.trans (State.Same.unlock F), .inr (.inr hstart)⟩
    · cases hb
  | chunk h₁ h₂ h₃ =>
    obtain ⟨hsame, hno⟩ := releaseInRealloc_none h₁
    have hl := hsame.trans (State.Same.lock F)
    rcases releaseCMAChunkImpl_cases h₂ with ⟨hb, -⟩ | ⟨c, -, hget, hstart, ht, hsh, hq, ha, hpu, hrep⟩
    · cases hb
    · rw [hl.tlt] at hget hstart ht hrep hsh
      rw [hl.shadow] at hsh
      obtain ⟨hr, hsh', hrep'⟩ := retired_of_pushAndPop hget (by simp [ChunkInfo.released]) ht
        (hq.trans hl.qz) (ha.trans hl.alz) (fun id => (hpu id).trans (hl.pushes id)) h₃
      refine .inr (.inr ⟨c, rfl, hstart, hr, by simp [hsh', hsh], fun hn => ?_, fun hon => hno hon c hget⟩)
      rw [State.reportsOf_unlock, hrep', hrep hn, hl.reports]

/-- **A release at the start of a chunk** retires it and frees its shadow,
unless the chunk is in a `realloc` and the quarantine is on. -/
theorem releaseCMAChunk_retires {F : Flags} {k : Caller} {s s' : State} {ptr id r c : ℕ}
    (hget : tltGet s.tlt ptr = some c) (hstart : (s.tlt.info c).startAddr = ptr)
    (hst : F.isQuarantineZoneOn = true → (s.tlt.info c).status ≠ .inRealloc)
    (he : releaseCMAChunk F k s ptr id false = some (r, s')) :
    Retired F s s' ptr r c ((s.tlt.info c).released k id) ∧
      s'.shadow = freedShadow F s.shadow (s.tlt.info c) ptr := by
  rcases releaseCMAChunk_cases he with ⟨-, -, h0 | ⟨hb, -⟩ | hno⟩ | ⟨d, hon, hd, hr, -⟩ | ⟨d, -, -, hr, hsh, -⟩
  · exact absurd h0 (tltGet_eq_some.mp hget).1
  · cases hb
  · exact absurd hstart (hno c hget)
  · obtain rfl : c = d := Option.some.inj (hget.symm.trans hr.get)
    exact absurd hd (hst hon)
  · obtain rfl : c = d := Option.some.inj (hget.symm.trans hr.get)
    exact ⟨hr, hsh⟩

/-- A release changes nothing, or retires a chunk, which stays in its place. -/
theorem releaseCMAChunk_retired {F : Flags} {k : Caller} {s s' : State} {ptr id r : ℕ} {b : Bool}
    (he : releaseCMAChunk F k s ptr id b = some (r, s')) :
    (r = ptr ∧ State.Same s s') ∨
    ∃ c i, Retired F s s' ptr r c i ∧ i.status = .deallocated ∧ i.startAddr = (s.tlt.info c).startAddr ∧
      i.chunkSize = (s.tlt.info c).chunkSize ∧ i.rzSize = (s.tlt.info c).rzSize := by
  rcases releaseCMAChunk_cases he with ⟨hr, hs, -⟩ | ⟨c, -, -, hr, -⟩ | ⟨c, -, -, hr, -⟩
  · exact .inl ⟨hr, hs⟩
  · exact .inr ⟨c, _, hr, rfl, rfl, rfl, rfl⟩
  · exact .inr ⟨c, _, hr, rfl, rfl, rfl, rfl⟩

theorem Retired.info {F : Flags} {s s' : State} {ptr r c : ℕ} {i : ChunkInfo} (h : Retired F s s' ptr r c i) :
    s'.tlt.info c = i := by
  rw [h.tlt, info_setInfo, if_pos rfl]

theorem Retired.tltGet_eq {F : Flags} {s s' : State} {ptr r c : ℕ} {i : ChunkInfo} (h : Retired F s s' ptr r c i)
    (hi : i.status ≠ .none) (a : ℕ) : tltGet s'.tlt a = tltGet s.tlt a := by
  rw [h.tlt, tltGet_setInfo h.get hi]

/-! ### Reallocations -/

/-- **`__asan_reallocateCMAChunkStart`** puts the chunk at the old pointer in
state `IN_REALLOC` and lets go of its range. -/
theorem reallocateCMAChunkStart_cases (F : Flags) (s : State) (oldPtr id : ℕ) (b : Bool) :
    ((b = true ∨ tltGet s.tlt oldPtr = none) ∧
      State.Same s (reallocateCMAChunkStart F s oldPtr b id)) ∨
    ∃ c, b = false ∧ tltGet s.tlt oldPtr = some c ∧
      (reallocateCMAChunkStart F s oldPtr b id).tlt =
        s.tlt.setInfo c { s.tlt.info c with status := .inRealloc } ∧
      (reallocateCMAChunkStart F s oldPtr b id).shadow =
        fastPoisonShadow s.shadow (roundDownTo oldPtr 8)
          (uadd (uadd (s.tlt.info c).rzSize (s.tlt.info c).chunkSize) (oldPtr - roundDownTo oldPtr 8)) 0 ∧
      (reallocateCMAChunkStart F s oldPtr b id).qz = s.qz ∧
      (reallocateCMAChunkStart F s oldPtr b id).alz = s.alz ∧
      (∀ id', pushesOf id' (reallocateCMAChunkStart F s oldPtr b id).log = pushesOf id' s.log) ∧
      (¬ ((s.tlt.info c).status = .deallocated ∧ (s.tlt.info c).cmaId = id) →
        reportsOf (reallocateCMAChunkStart F s oldPtr b id).log = reportsOf s.log) := by
  unfold reallocateCMAChunkStart
  by_cases hb : b = true
  · rw [if_pos hb]
    exact .inl ⟨.inl hb, .refl⟩
  rw [if_neg hb]
  simp only [State.lock_tlt]
  rcases hget : tltGet s.tlt oldPtr with _ | c
  · exact .inl ⟨.inr rfl, (State.Same.lock F).trans (State.Same.unlock F)⟩
  · refine .inr ⟨c, by simpa using hb, rfl, ?_⟩
    by_cases hd : (s.tlt.info c).status = .deallocated ∧ (s.tlt.info c).cmaId = id
    · simp only [if_pos hd]
      refine ⟨by simp, by simp, by simp, by simp, fun id' => ?_, fun hn => absurd hd hn⟩
      rw [State.pushesOf_unlock, State.pushesOf_setStatus]
      simp only [State.pushesOf_report, State.pushesOf_unlock, State.pushesOf_lock]
    · simp only [if_neg hd]
      refine ⟨by simp, by simp, by simp, by simp, fun id' => ?_, fun _ => ?_⟩
      · rw [State.pushesOf_unlock, State.pushesOf_setStatus]
        simp only [State.pushesOf_lock]
      · rw [State.reportsOf_unlock, State.reportsOf_setStatus]
        simp only [State.reportsOf_lock]

theorem reallocateCMAChunkStart_tracked (F : Flags) {s : State} {oldPtr c : ℕ} (id : ℕ)
    (hget : tltGet s.tlt oldPtr = some c) :
    (reallocateCMAChunkStart F s oldPtr false id).tlt =
        s.tlt.setInfo c { s.tlt.info c with status := .inRealloc } ∧
      (reallocateCMAChunkStart F s oldPtr false id).shadow =
        fastPoisonShadow s.shadow (roundDownTo oldPtr 8)
          (uadd (uadd (s.tlt.info c).rzSize (s.tlt.info c).chunkSize) (oldPtr - roundDownTo oldPtr 8)) 0 ∧
      (reallocateCMAChunkStart F s oldPtr false id).qz = s.qz ∧
      (∀ id', pushesOf id' (reallocateCMAChunkStart F s oldPtr false id).log = pushesOf id' s.log) ∧
      (¬ ((s.tlt.info c).status = .deallocated ∧ (s.tlt.info c).cmaId = id) →
        reportsOf (reallocateCMAChunkStart F s oldPtr false id).log = reportsOf s.log) := by
  rcases reallocateCMAChunkStart_cases F s oldPtr id false with
    ⟨hb | hn, -⟩ | ⟨c', -, hget', ht, hsh, hq, -, hpushes, hreports⟩
  · cases hb
  · rw [hn] at hget
    cases hget
  · obtain rfl := Option.some.inj (hget.symm.trans hget')
    exact ⟨ht, hsh, hq, hpushes, hreports⟩

theorem setInfo_setInfo (t : Tlt) (c : ℕ) (i j : ChunkInfo) :
    (t.setInfo c i).setInfo c j = t.setInfo c j := by
  simp [Tlt.setInfo, Function.update_idem]

/-- The data besides the table and the shadow is the same, nothing pushed and nothing reported. -/
structure State.Quiet (s s' : State) : Prop where
  qz : s'.qz = s.qz
  alz : s'.alz = s.alz
  pushes : ∀ id, pushesOf id s'.log = pushesOf id s.log
  reports : reportsOf s'.log = reportsOf s.log

theorem State.Quiet.setStatus (s : State) (c : ℕ) (status : Status) : State.Quiet s (s.setStatus c status) :=
  ⟨rfl, rfl, by simp, by simp⟩

theorem State.Same.quiet {s s' : State} (h : State.Same s s') : State.Quiet s s' :=
  ⟨h.qz, h.alz, h.pushes, h.reports⟩

theorem releaseCMAChunkImpl_none {F : Flags} {k : Caller} {s : State} {ptr id : ℕ}
    (h : tltGet s.tlt ptr = none) : releaseCMAChunkImpl F k s ptr id = some (false, s) := by
  unfold releaseCMAChunkImpl
  rw [h]

/-- A chunk whose status is no longer `DEALLOCATED` is released once more
without a report. -/
theorem releaseCMAChunkImpl_setStatus {F : Flags} {k : Caller} {s s' : State} {c ptr id : ℕ}
    {status : Status} {b : Bool} (hget : tltGet s.tlt ptr = some c) (hd : status ≠ .deallocated)
    (hn : status ≠ .none)
    (he : releaseCMAChunkImpl F k (s.setStatus c status) ptr id = some (b, s')) :
    State.Quiet s s' ∧
      ((s.tlt.info c).startAddr = ptr ∧ s'.tlt = s.tlt.setInfo c ((s.tlt.info c).released k id) ∧
          s'.shadow = freedShadow F s.shadow (s.tlt.info c) ptr ∨
        (s.tlt.info c).startAddr ≠ ptr ∧ s' = s.setStatus c status) := by
  have hget' : tltGet (s.setStatus c status).tlt ptr = some c := by
    rw [State.setStatus_tlt, tltGet_setInfo hget hn, hget]
  rcases releaseCMAChunkImpl_cases he with ⟨-, rfl, hno⟩ | ⟨c', -, hc', hstart, ht, hsh, hq, ha, hp, hr⟩
  · refine ⟨.setStatus s c status, .inr ⟨?_, rfl⟩⟩
    have := hno c hget'
    rw [State.setStatus_tlt, info_setInfo, if_pos rfl] at this
    exact this
  · obtain rfl : c = c' := Option.some.inj (hget'.symm.trans hc')
    simp only [State.setStatus_tlt, info_setInfo, if_true, setInfo_setInfo, State.setStatus_shadow,
      State.setStatus_qz, State.setStatus_alz, State.pushesOf_setStatus,
      State.reportsOf_setStatus] at hstart ht hsh hq ha hp hr
    exact ⟨⟨hq, ha, hp, hr fun hd' => hd hd'.1⟩, .inl ⟨hstart, ht, hsh⟩⟩

/-- **The old chunk at the end of a `realloc`.** In place it becomes
`DEALLOCATED`; moved it is released and poisoned, if the old pointer is its
start. Nothing is pushed and nothing reported. -/
theorem releaseOldChunk_cases {F : Flags} {k : Caller} {s s' : State} {oldPtr newPtr id : ℕ}
    (he : releaseOldChunk F k s oldPtr newPtr id = some s') :
    State.Quiet s s' ∧
      (tltGet s.tlt oldPtr = none ∧ s' = s ∨
        ∃ c, tltGet s.tlt oldPtr = some c ∧
          (oldPtr = newPtr ∧ s' = s.setStatus c .deallocated ∨
            oldPtr ≠ newPtr ∧ (s.tlt.info c).startAddr = oldPtr ∧
              s'.tlt = s.tlt.setInfo c ((s.tlt.info c).released k id) ∧
              s'.shadow = freedShadow F s.shadow (s.tlt.info c) oldPtr ∨
            oldPtr ≠ newPtr ∧ (s.tlt.info c).startAddr ≠ oldPtr ∧
              ((F.isQuarantineZoneOn = true ∧ (s.tlt.info c).status ≠ .deallocated) ∧ s' = s ∨
                s' = s.setStatus c .inRealloc))) := by
  unfold releaseOldChunk at he
  simp only at he
  rcases hget : tltGet s.tlt oldPtr with _ | c
  · -- no chunk: every branch leaves the state
    rw [hget] at he
    simp only [releaseCMAChunkImpl_none hget, Option.map_some, ite_self] at he
    obtain rfl := Option.some.inj he
    exact ⟨State.Same.refl.quiet, .inl ⟨rfl, rfl⟩⟩
  · rw [hget] at he
    by_cases heq : oldPtr = newPtr
    · rw [if_neg (by simp [heq]), if_pos heq] at he
      obtain rfl := Option.some.inj he
      exact ⟨.setStatus s c .deallocated, .inr ⟨c, rfl, .inl ⟨heq, rfl⟩⟩⟩
    -- the chunk is marked first, unless the quarantine is on and no free inside released it
    have hrel : ∃ b, releaseCMAChunkImpl F k (s.setStatus c .inRealloc) oldPtr id = some (b, s') ∨
        (F.isQuarantineZoneOn = true ∧ (s.tlt.info c).status ≠ .deallocated) ∧
          releaseCMAChunkImpl F k s oldPtr id = some (b, s') := by
      by_cases hon : F.isQuarantineZoneOn = true
      · rw [if_pos ⟨hon, heq⟩] at he
        obtain ⟨⟨b, s₁⟩, hi, rfl⟩ := Option.map_eq_some_iff.mp he
        by_cases hd : (s.tlt.info c).status = .deallocated
        · rw [if_pos hd] at hi
          exact ⟨b, .inl hi⟩
        · rw [if_neg hd] at hi
          exact ⟨b, .inr ⟨⟨hon, hd⟩, hi⟩⟩
      · rw [if_neg (fun h => hon h.1), if_neg heq] at he
        obtain ⟨⟨b, s₁⟩, hi, rfl⟩ := Option.map_eq_some_iff.mp he
        exact ⟨b, .inl hi⟩
    obtain ⟨b, hi | ⟨hunmarked, hi⟩⟩ := hrel
    · obtain ⟨hq, hcase⟩ := releaseCMAChunkImpl_setStatus hget (by decide) (by decide) hi
      refine ⟨hq, .inr ⟨c, rfl, ?_⟩⟩
      rcases hcase with ⟨h1, h2, h3⟩ | ⟨h1, h2⟩
      · exact .inr (.inl ⟨heq, h1, h2, h3⟩)
      · exact .inr (.inr ⟨heq, h1, .inr h2⟩)
    · rcases releaseCMAChunkImpl_cases hi with ⟨-, rfl, hno⟩ | ⟨c', -, hc', hstart, ht, hsh, hq, ha, hp, hr⟩
      · exact ⟨State.Same.refl.quiet, .inr ⟨c, rfl, .inr (.inr ⟨heq, hno c hget, .inl ⟨hunmarked, rfl⟩⟩)⟩⟩
      · obtain rfl : c = c' := Option.some.inj (hget.symm.trans hc')
        exact ⟨⟨hq, ha, hp, hr fun hd => hunmarked.2 hd.1⟩, .inr ⟨c, rfl, .inr (.inl ⟨heq, hstart, ht, hsh⟩)⟩⟩

/-- **A moved object's chunk** is released at the end of the `realloc`, if the pointer is its start. -/
theorem releaseOldChunk_moved {F : Flags} {k : Caller} {s s' : State} {oldPtr newPtr id c : ℕ}
    (hget : tltGet s.tlt oldPtr = some c) (hstart : (s.tlt.info c).startAddr = oldPtr) (hne : oldPtr ≠ newPtr)
    (he : releaseOldChunk F k s oldPtr newPtr id = some s') :
    s'.tlt = s.tlt.setInfo c ((s.tlt.info c).released k id) ∧
      s'.shadow = freedShadow F s.shadow (s.tlt.info c) oldPtr := by
  rcases (releaseOldChunk_cases he).2 with
    ⟨hnone, -⟩ | ⟨c', hget', ⟨heq, -⟩ | ⟨-, -, ht, hsh⟩ | ⟨-, hother, -⟩⟩
  · rw [hget] at hnone
    cases hnone
  · exact absurd heq hne
  · obtain rfl := Option.some.inj (hget.symm.trans hget')
    exact ⟨ht, hsh⟩
  · obtain rfl := Option.some.inj (hget.symm.trans hget')
    exact absurd hstart hother

/-! ### What keeps every entry -/

theorem releaseCMAChunk_get {F : Flags} {k : Caller} {s s' : State} {ptr id r : ℕ} {b : Bool}
    (he : releaseCMAChunk F k s ptr id b = some (r, s')) (a : ℕ) : tltGet s'.tlt a = tltGet s.tlt a := by
  rcases releaseCMAChunk_retired he with ⟨-, hs⟩ | ⟨c, i, hr, hst, -⟩
  · rw [hs.tlt]
  · exact hr.tltGet_eq (by simp [hst]) a

theorem reallocateCMAChunkStart_get (F : Flags) (s : State) (oldPtr id : ℕ) (b : Bool) (a : ℕ) :
    tltGet (reallocateCMAChunkStart F s oldPtr b id).tlt a = tltGet s.tlt a := by
  rcases reallocateCMAChunkStart_cases F s oldPtr id b with ⟨-, hs⟩ | ⟨c, -, hget, ht, -⟩
  · rw [hs.tlt]
  · rw [ht, tltGet_setInfo hget (by simp)]

theorem releaseOldChunk_get {F : Flags} {k : Caller} {s s' : State} {oldPtr newPtr id : ℕ}
    (he : releaseOldChunk F k s oldPtr newPtr id = some s') (a : ℕ) : tltGet s'.tlt a = tltGet s.tlt a := by
  rcases (releaseOldChunk_cases he).2 with
    ⟨-, rfl⟩ | ⟨c, hget, ⟨-, rfl⟩ | ⟨-, -, ht, -⟩ | ⟨-, -, ⟨-, rfl⟩ | rfl⟩⟩
  · rfl
  · exact tltGet_setInfo hget (by simp) a
  · rw [ht, tltGet_setInfo hget (by simp [ChunkInfo.released])]
  · rfl
  · exact tltGet_setInfo hget (by simp) a

/-! ### Hand-outs -/

/-- The object that is asked for and the region handed out for it lie in the
48-bit space. -/
structure Fits (o : RzOptions) (ptr size granularity : ℕ) : Prop where
  ptr_ne : ptr ≠ 0
  ptr_lt : ptr + 8 ≤ 2 ^ 48
  object_le : ptr + size * granularity ≤ 2 ^ 48
  end_le : ptr + extendSize o size granularity false * granularity ≤ 2 ^ 48

instance (o : RzOptions) (ptr size g : ℕ) : Decidable (Fits o ptr size g) :=
  decidable_of_iff (ptr ≠ 0 ∧ ptr + 8 ≤ 2 ^ 48 ∧ ptr + size * g ≤ 2 ^ 48 ∧
    ptr + extendSize o size g false * g ≤ 2 ^ 48)
    ⟨fun ⟨h1, h2, h3, h4⟩ => ⟨h1, h2, h3, h4⟩, fun ⟨h1, h2, h3, h4⟩ => ⟨h1, h2, h3, h4⟩⟩

theorem Fits.no_wrap {o : RzOptions} {ptr size g : ℕ} (h : Fits o ptr size g) :
    size * g + 2063 < 2 ^ 64 := by
  have := h.object_le
  omega

theorem emptyChunk_rzSize {ptr : ℕ} (h : ptr + 8 < 2 ^ 64) :
    u32 (usub (roundDownTo (uadd ptr 8) 8) ptr) = ptr / 8 * 8 + 8 - ptr := by
  have hend : roundDownTo (uadd ptr 8) 8 = ptr / 8 * 8 + 8 := by
    rw [uadd_eq h]
    unfold roundDownTo
    omega
  rw [hend, usub_eq (by omega) (by omega), u32_eq (by omega)]

/-- **A hand-out of no bytes** enters the granule of its address and makes it addressable. -/
theorem allocateCMAChunkImpl_empty {F : Flags} {k : Caller} {s s' : State} (h : s.Inv) {ptr size g id : ℕ}
    (hf : Fits F.rz ptr size g) (hz : size * g = 0) (he : allocateCMAChunkImpl F k s ptr size g id = some s') :
    State.Quiet { s with alz := s'.alz } s' ∧
      Inserted s.tlt s'.tlt (newChunk ptr 0 (ptr / 8 * 8 + 8 - ptr) id k.stackId k.tid) (ptr / 8)
        (ptr / 8 + 1) ∧
      s'.shadow = fastPoisonShadow s.shadow (roundDownTo ptr 8) 8 0 ∧ s'.alz = s.alz := by
  have hp := hf.ptr_lt
  have hrz := emptyChunk_rzSize (show ptr + 8 < 2 ^ 64 by omega)
  have hpoison : poisonShadow F.canPoisonMemory s.shadow (roundDownTo ptr 8) 8 0 =
      some (fastPoisonShadow s.shadow (roundDownTo ptr 8) 8 0) :=
    unpoisonShadow_eq _ _ (by unfold roundDownTo; omega) (by omega) (by unfold roundDownTo; omega)
  unfold allocateCMAChunkImpl at he
  simp only [umul, hz, Nat.zero_mod, ne_eq, not_true_eq_false, if_false, hrz, hpoison] at he
  obtain ⟨t', ht, he⟩ := Option.bind_eq_some_iff.mp he
  obtain rfl := Option.some.inj he
  have hins := tltInsert_inserted h.tlt hf.ptr_ne (by omega) (by omega) ht
  have hhi : (ptr + 0 + (ptr / 8 * 8 + 8 - ptr)) / 8 = ptr / 8 + 1 := by omega
  rw [hhi] at hins
  exact ⟨⟨rfl, rfl, by simp [pushesOf], by simp [reportsOf]⟩, hins, rfl, rfl⟩

/-- **`allocateCMAChunkImpl`** on an object in the 48-bit space: nothing, a
tracked chunk, or the granule of an empty object. -/
theorem allocateCMAChunkImpl_cases {F : Flags} {k : Caller} {s s' : State} (h : s.Inv)
    {ptr size g id : ℕ} (hf : Fits F.rz ptr size g)
    (he : allocateCMAChunkImpl F k s ptr size g id = some s') :
    State.Quiet { s with alz := s'.alz } s' ∧
      (size * g ≠ 0 ∧ extendSize F.rz size g false = size ∧ s' = s ∨
        TrackedRequest F.rz ptr size g ∧
          Inserted s.tlt s'.tlt (newChunk ptr (size * g) (trackedEnd F.rz ptr size g - ptr - size * g) id
            k.stackId k.tid) (ptr / 8) (trackedEnd F.rz ptr size g / 8) ∧
          s'.shadow =
            newChunkShadow F.canPoisonMemory s.shadow ptr (size * g) (trackedEnd F.rz ptr size g) ∧
          s'.alz = addCMAAllocChunk F s.alz id ptr ∨
        size * g = 0 ∧
          Inserted s.tlt s'.tlt (newChunk ptr 0 (ptr / 8 * 8 + 8 - ptr) id k.stackId k.tid) (ptr / 8)
            (ptr / 8 + 1) ∧
          s'.shadow = fastPoisonShadow s.shadow (roundDownTo ptr 8) 8 0 ∧ s'.alz = s.alz) := by
  have hend := hf.end_le
  by_cases hz : size * g = 0
  · obtain ⟨hq, hins, hsh, halz⟩ := allocateCMAChunkImpl_empty h hf hz he
    exact ⟨hq, .inr (.inr ⟨hz, hins, hsh, halz⟩)⟩
  · have hs : size ≠ 0 := fun h0 => hz (by rw [h0, Nat.zero_mul])
    have hg : g ≠ 0 := fun h0 => hz (by rw [h0, Nat.mul_zero])
    have hw := hf.no_wrap
    by_cases hext : extendSize F.rz size g false = size
    · rw [allocateCMAChunkImpl_same s hs hg (by omega) hext k ptr id] at he
      obtain rfl := Option.some.inj he
      exact ⟨⟨rfl, rfl, fun _ => rfl, rfl⟩, .inl ⟨hz, hext, rfl⟩⟩
    · have hr : TrackedRequest F.rz ptr size g := ⟨hf.ptr_ne, hs, hg, hw, by omega, hext⟩
      have hE := hr.end_bounds
      obtain ⟨t', ht, he'⟩ := allocateCMAChunkImpl_tracked h hr k id
      obtain rfl := Option.some.inj (he'.symm.trans he)
      have hins := tltInsert_inserted h.tlt hf.ptr_ne (by omega) (by omega) ht
      rw [show ptr + size * g + (trackedEnd F.rz ptr size g - ptr - size * g) = trackedEnd F.rz ptr size g by
        omega] at hins
      exact ⟨⟨rfl, rfl, by simp [pushesOf], by simp [reportsOf]⟩, .inr (.inl ⟨hr, hins, rfl, rfl⟩)⟩

/-- **`__asan_reallocateCMAChunkEnd`** does nothing, or releases the old chunk
and then hands out the new one. -/
theorem reallocateCMAChunkEnd_cases {F : Flags} {k : Caller} {s s' : State} {oldPtr newPtr size g id : ℕ}
    (he : reallocateCMAChunkEnd F k s oldPtr newPtr size g id false = some s') :
    (newPtr = 0 ∨ size = 0) ∧ s' = s ∨
      newPtr ≠ 0 ∧ size ≠ 0 ∧ ∃ s₁ s₂, releaseOldChunk F k (s.lock F) oldPtr newPtr id = some s₁ ∧
        allocateCMAChunkImpl F k s₁ newPtr size g id = some s₂ ∧ s' = s₂.unlock F := by
  rcases reallocateCMAChunkEnd_path he with ⟨hb | hn, rfl⟩ | ⟨hn, hall⟩
  · cases hb
  · exact .inl ⟨hn, rfl⟩
  · exact .inr ⟨fun h => hn (.inr (.inl h)), fun h => hn (.inr (.inr h)), hall⟩

/-- **A `realloc` of a null pointer** has no old chunk. -/
theorem reallocateNull_cases {F : Flags} {k : Caller} {s s' : State} {ptr size g id : ℕ}
    (he : reallocateCMAChunkEnd F k (reallocateCMAChunkStart F s 0 false id) 0 ptr size g id false = some s') :
    (ptr = 0 ∨ size = 0) ∧ State.Same s s' ∨
      ptr ≠ 0 ∧ size ≠ 0 ∧ ∃ s₁ s₂, State.Same s s₁ ∧
        allocateCMAChunkImpl F k s₁ ptr size g id = some s₂ ∧ s' = s₂.unlock F := by
  have hnull : ∀ t : Tlt, tltGet t 0 = none := fun t => if_pos rfl
  have hstart : State.Same s (reallocateCMAChunkStart F s 0 false id) := by
    rcases reallocateCMAChunkStart_cases F s 0 id false with ⟨-, hs⟩ | ⟨c, -, hget, -⟩
    · exact hs
    · rw [hnull] at hget
      cases hget
  rcases reallocateCMAChunkEnd_cases he with ⟨h0, rfl⟩ | ⟨hp, hs, s₁, s₂, h₁, h₂, rfl⟩
  · exact .inl ⟨h0, hstart⟩
  · rcases (releaseOldChunk_cases h₁).2 with ⟨-, rfl⟩ | ⟨c, hget, -⟩
    · exact .inr ⟨hp, hs, _, s₂, hstart.trans (State.Same.lock F), h₂, rfl⟩
    · rw [hnull] at hget
      cases hget

/-! ### Clears -/

/-- What is kept by freeing one clearable chunk is kept by the loop. -/
theorem clearLoop_rule {F : Flags} {k : Caller} {id : ℕ} {P : State → Prop}
    (hstep : ∀ {s s' ptr c}, P s → clearable s.tlt ptr = some c → freeChunk F k s c ptr id = some s' → P s') :
    ∀ (ptrs : List ℕ) {s s' : State}, P s → clearLoop F k id ptrs s = some s' → P s'
  | [], _, _, h, he => Option.some.inj he ▸ h
  | ptr :: ptrs, s, s', h, he => by
    unfold clearLoop at he
    rcases hc : clearable s.tlt ptr with _ | c
    · rw [hc] at he
      exact clearLoop_rule hstep ptrs h he
    · rw [hc] at he
      obtain ⟨s₁, hf, he⟩ := Option.bind_eq_some_iff.mp he
      exact clearLoop_rule hstep ptrs (hstep h hc hf) he

theorem clearable_eq_some {t : Tlt} {ptr c : ℕ} : clearable t ptr = some c ↔
    tltGet t ptr = some c ∧ (t.info c).status ≠ .deallocated ∧ (t.info c).startAddr = ptr := by
  unfold clearable
  rw [Option.filter_eq_some_iff]
  simp

/-- **`__asan_clearCMAChunks`** is its loop over the pointers of the id's
list, and empties the list. -/
theorem clearCMAChunks_cases {F : Flags} {k : Caller} {s s' : State} {id : ℕ}
    (he : clearCMAChunks F k s id = some s') :
    ∃ s₁ s₂ ptrs, clearLoop F k id ptrs s₁ = some s₂ ∧
      ptrs = (List.range (s.alz.view newAllocListZone id).pos).map
        (s.alz.view newAllocListZone id).allocList ∧
      s₁.tlt = s.tlt ∧ s₁.shadow = s.shadow ∧ s₁.qz = s.qz ∧ reportsOf s₁.log = reportsOf s.log ∧
      s'.tlt = s₂.tlt ∧ s'.shadow = s₂.shadow ∧ s'.qz = s₂.qz ∧ reportsOf s'.log = reportsOf s₂.log := by
  have hcell := s.alz.cell_getOrCreate newAllocListZone id
  unfold clearCMAChunks at he
  rcases s.alz.getOrCreate newAllocListZone id with ⟨z, alz⟩
  simp only at he hcell
  obtain ⟨s₂, hl, rfl⟩ := Option.map_eq_some_iff.mp he
  rw [hcell] at hl
  refine ⟨_, s₂, _, hl, rfl, by simp, by simp, by simp, by simp, by simp, by simp, by simp, ?_⟩
  rw [State.emit_log, reportsOf_append]
  simp only [State.reportsOf_unlock]
  simp [reportsOf]

end Cmasan
