/-
# Who holds the lock

`tlt_lock_chunk_info` guards the infos and the zones. `lockAfter` watches the
log of a call: the lock is taken only when it is free and let go only by its
holder, and every write is made by its holder. A call starts and should end
without it. Hand-outs and the end of a `realloc` always do. A release and the
start of a `realloc` do, unless they find a double free: the error branch lets
the lock go, the writes after it are made without, and the lock is let go a
second time. `__asan_clearCMAChunks` resets its list after it let the lock go,
and `__asan_emptyQuarantineOnGC` never takes it (`hookStep_lock_iff`).

Key definitions: `lockStep`, `lockAfter`, `Monitored`, `HookCall.KeepsLock`.
Key theorems: `Monitored.trans`, `releaseCMAChunk_monitored`, `run_lockAfter`,
`hookStep_lock_iff`.
-/
import Cmasan.Reports
import Cmasan.ShadowRuns

namespace Cmasan

open Lib

/-! ### The monitor -/

/-- Whether the call holds the lock after an event; `none` is a violation. -/
def lockStep (held : Bool) : Event → Option Bool
  | .lock => if held then none else some true
  | .unlock => if held then some false else none
  | .reportDoubleFree _ => some held
  | .writeChunkInfo _ | .insertChunkInfo | .popPtrIfMax _ | .pushPtr _ _ | .emptyQuarantine _
  | .writeAllocListZone _ => if held then some true else none

/-- Whether the call holds the lock after the events of `l`. -/
def lockAfter (held : Bool) (l : List Event) : Option Bool := l.foldlM lockStep held

theorem lockAfter_append (held : Bool) (l l' : List Event) :
    lockAfter held (l ++ l') = (lockAfter held l).bind (lockAfter · l') := by
  unfold lockAfter
  rw [List.foldlM_append]
  rfl

/-- From `s` to `s'` the log grew by events after which the monitor is at `r`. -/
def Monitored (held : Bool) (s s' : State) (r : Option Bool) : Prop :=
  ∃ l, s'.log = s.log ++ l ∧ lockAfter held l = r

section Monitored

variable {held held' : Bool} {s s₁ s₂ : State} {r : Option Bool}

theorem Monitored.of_log_eq (h : s₁.log = s.log) : Monitored held s s₁ (some held) :=
  ⟨[], by rw [h, List.append_nil], rfl⟩

theorem Monitored.refl : Monitored held s s (some held) := .of_log_eq rfl

/-- **One part after the other.** -/
theorem Monitored.trans (h : Monitored held s s₁ (some held')) (h' : Monitored held' s₁ s₂ r) :
    Monitored held s s₂ r := by
  obtain ⟨l, hl, hr⟩ := h
  obtain ⟨l', hl', hr'⟩ := h'
  refine ⟨l ++ l', by rw [hl', hl, List.append_assoc], ?_⟩
  rw [lockAfter_append, hr, Option.bind_some, hr']

theorem Monitored.stuck (h : Monitored held s s₁ none) (h' : Monitored held' s₁ s₂ r) :
    Monitored held s s₂ none := by
  obtain ⟨l, hl, hr⟩ := h
  obtain ⟨l', hl', -⟩ := h'
  refine ⟨l ++ l', by rw [hl', hl, List.append_assoc], ?_⟩
  rw [lockAfter_append, hr, Option.bind_none]

theorem Monitored.event {e : Event} (h : s₁.log = s.log ++ [e]) : Monitored held s s₁ (lockStep held e) := by
  refine ⟨[e], h, ?_⟩
  simp only [lockAfter, List.foldlM_cons, List.foldlM_nil, bind_pure]

end Monitored

section Parts

variable {F : Flags} {k : Caller} {s s' : State} {ptr id c r : ℕ}

theorem monitored_lock (hl : F.isLockOff = false) (s : State) : Monitored false s (s.lock F) (some true) := by
  apply Monitored.event (e := .lock)
  rw [State.lock_log, hl]
  rfl

theorem monitored_unlock (hl : F.isLockOff = false) (held : Bool) (s : State) :
    Monitored held s (s.unlock F) (if held then some false else none) := by
  apply Monitored.event (e := .unlock)
  rw [State.unlock_log, hl]
  rfl

theorem monitored_setStatus (held : Bool) (s : State) (c : ℕ) (status : Status) :
    Monitored held s (s.setStatus c status) (if held then some true else none) :=
  Monitored.event (e := .writeChunkInfo c) rfl

theorem monitored_report (held : Bool) (s : State) (ptr : ℕ) :
    Monitored held s (s.reportDoubleFree F ptr) (some held) := by
  unfold State.reportDoubleFree
  split
  · exact .refl
  · exact Monitored.event (e := .reportDoubleFree ptr) rfl

/-- What runs between taking the lock and letting it go. -/
theorem Monitored.locked (hl : F.isLockOff = false) (h : Monitored true (s.lock F) s' (some true)) :
    Monitored false s (s'.unlock F) (some false) :=
  ((monitored_lock hl s).trans h).trans (monitored_unlock hl true s')

/-- What lets the lock go in the end does not make a violation good. -/
theorem Monitored.finish {p : Prop} [Decidable p] {s₁ : State}
    (h : Monitored false s s₁ (if p then none else some true)) (h' : Monitored true s₁ s' (some false)) :
    Monitored false s s' (if p then none else some false) := by
  by_cases hp : p
  · rw [if_pos hp] at h ⊢
    exact h.stuck h'
  · rw [if_neg hp] at h ⊢
    exact h.trans h'

theorem freeChunk_monitored (held : Bool) (he : freeChunk F k s c ptr id = some s') :
    Monitored held s s' (if held then some true else none) :=
  Monitored.event (e := .writeChunkInfo c) (freeChunk_log he)

theorem pushAndPop_monitored (he : s.pushAndPop F ptr = some (r, s')) : Monitored true s s' (some true) := by
  unfold State.pushAndPop at he
  obtain ⟨⟨r', qz⟩, -, he⟩ := Option.map_eq_some_iff.mp he
  obtain ⟨-, rfl⟩ := Prod.mk.inj he
  refine ⟨_, rfl, ?_⟩
  split <;> rfl

theorem allocateCMAChunkImpl_monitored {size g : ℕ} (he : allocateCMAChunkImpl F k s ptr size g id = some s') :
    Monitored true s s' (some true) := by
  unfold allocateCMAChunkImpl at he
  simp only at he
  split at he
  · split at he
    · obtain rfl := Option.some.inj he
      exact .refl
    · obtain ⟨t, -, he⟩ := Option.bind_eq_some_iff.mp he
      obtain ⟨shadow, -, rfl⟩ := Option.map_eq_some_iff.mp he
      exact ⟨_, rfl, rfl⟩
  · obtain ⟨t, -, he⟩ := Option.bind_eq_some_iff.mp he
    obtain ⟨shadow, -, rfl⟩ := Option.map_eq_some_iff.mp he
    exact ⟨_, rfl, rfl⟩

theorem clearLoop_monitored : ∀ (ptrs : List ℕ) {s : State}, clearLoop F k id ptrs s = some s' →
    Monitored true s s' (some true)
  | [], _, he => by
    obtain rfl := Option.some.inj he
    exact .refl
  | p :: ptrs, s, he => by
    unfold clearLoop at he
    rcases hc : clearable s.tlt p with _ | c
    · rw [hc] at he
      exact clearLoop_monitored ptrs he
    · rw [hc] at he
      obtain ⟨s₁, hf, he⟩ := Option.bind_eq_some_iff.mp he
      exact (freeChunk_monitored true hf).trans (clearLoop_monitored ptrs he)

/-- **`releaseCMAChunkImpl`**, called with the lock, keeps it unless it reports. -/
theorem releaseCMAChunkImpl_monitored (hl : F.isLockOff = false) (h : s.Inv) {b : Bool}
    (he : releaseCMAChunkImpl F k s ptr id = some (b, s')) :
    Monitored true s s' (if FreedBefore F k s.tlt ptr id then none else some true) := by
  rcases releaseCMAChunkImpl_log F k h ptr id with ⟨hno, he'⟩ | ⟨c, s₁, hget, hstart, he', hlog⟩
  · obtain ⟨-, rfl⟩ := Prod.mk.inj (Option.some.inj (he'.symm.trans he))
    rw [if_neg]
    · exact .refl
    · rintro ⟨c, hc, hstart, -⟩
      exact hno c hc hstart
  · obtain ⟨-, rfl⟩ := Prod.mk.inj (Option.some.inj (he'.symm.trans he))
    refine ⟨_, by rw [hlog, List.append_assoc], ?_⟩
    by_cases hfb : FreedBefore F k s.tlt ptr id
    · -- the lock is let go, and the write comes after it
      rw [if_pos hfb, if_pos hfb]
      unfold errorLog
      rw [hl]
      cases F.isReportAlwaysOff <;> rfl
    · rw [if_neg hfb, if_neg hfb]
      rfl

theorem releaseInRealloc_monitored (hl : F.isLockOff = false) {o : Option ℕ}
    (he : releaseInRealloc F s ptr = some (o, s')) : Monitored false s s' (some false) := by
  unfold releaseInRealloc at he
  split at he
  · simp only at he
    split at he
    · split at he
      · obtain ⟨⟨r, s₁⟩, hp, he⟩ := Option.map_eq_some_iff.mp he
        obtain ⟨-, rfl⟩ := Prod.mk.inj he
        exact Monitored.locked hl ((monitored_setStatus true _ _ _).trans (pushAndPop_monitored hp))
      · obtain ⟨-, rfl⟩ := Prod.mk.inj (Option.some.inj he)
        exact Monitored.locked hl .refl
    · obtain ⟨-, rfl⟩ := Prod.mk.inj (Option.some.inj he)
      exact Monitored.locked hl .refl
  · obtain ⟨-, rfl⟩ := Prod.mk.inj (Option.some.inj he)
    exact .refl

/-- **A release** ends without the lock, with no violation, unless it finds a
double free. -/
theorem releaseCMAChunk_monitored (hl : F.isLockOff = false) (h : s.Inv) {b : Bool}
    (he : releaseCMAChunk F k s ptr id b = some (r, s')) :
    Monitored false s s' (if b = false ∧ FreedBefore F k s.tlt ptr id then none else some false) := by
  have himpl : ∀ {s₁ s₂ : State} {b₂ : Bool}, releaseInRealloc F s ptr = some (none, s₁) →
      releaseCMAChunkImpl F k (s₁.lock F) ptr id = some (b₂, s₂) →
      Monitored false s s₂ (if FreedBefore F k s.tlt ptr id then none else some true) := by
    intro s₁ s₂ b₂ h₁ h₂
    have hm₂ := releaseCMAChunkImpl_monitored hl (releaseInRealloc_inv h h₁).lock h₂
    rw [State.lock_tlt, (releaseInRealloc_none h₁).1.tlt] at hm₂
    exact ((releaseInRealloc_monitored hl h₁).trans (monitored_lock hl s₁)).trans hm₂
  cases releaseCMAChunk_path he with
  | null hp =>
    rw [if_neg]
    · exact .refl
    · rintro ⟨-, c, hc, -⟩
      exact (tltGet_eq_some.mp hc).1 hp
  | inRealloc h₁ =>
    -- the old pointer of a realloc is not released
    obtain ⟨c, -, hst, hr, -⟩ := releaseInRealloc_some h₁
    rw [if_neg]
    · exact releaseInRealloc_monitored hl h₁
    · rintro ⟨-, hfb⟩
      have hd := ((freedBefore_iff hr.get).mp hfb).2.1
      rw [hst] at hd
      cases hd
  | inCma h₁ =>
    rw [if_neg (by simp)]
    exact releaseInRealloc_monitored hl h₁
  | @noChunk s₁ s₂ h₁ h₂ =>
    simp only [true_and]
    exact (himpl h₁ h₂).finish (monitored_unlock hl true s₂)
  | @chunk r s₁ s₂ s₃ h₁ h₂ h₃ =>
    simp only [true_and]
    exact (himpl h₁ h₂).finish ((pushAndPop_monitored h₃).trans (monitored_unlock hl true s₃))

/-- The old pointer of a `realloc` is in a chunk that was released under the id. -/
def FreedAtStart (t : Tlt) (oldPtr id : ℕ) : Prop :=
  ∃ c ∈ tltGet t oldPtr, (t.info c).status = .deallocated ∧ (t.info c).cmaId = id

instance (t : Tlt) (oldPtr id : ℕ) : Decidable (FreedAtStart t oldPtr id) := by
  unfold FreedAtStart; infer_instance

/-- **The start of a `realloc`**, likewise. -/
theorem reallocateCMAChunkStart_monitored (hl : F.isLockOff = false) (s : State) (oldPtr id : ℕ) (b : Bool) :
    Monitored false s (reallocateCMAChunkStart F s oldPtr b id)
      (if b = false ∧ FreedAtStart s.tlt oldPtr id then none else some false) := by
  unfold reallocateCMAChunkStart
  by_cases hb : b = true
  · rw [if_pos hb, if_neg (by simp [hb])]
    exact .refl
  have hb' : b = false := by simpa using hb
  rw [if_neg hb]
  simp only [State.lock_tlt]
  rcases hget : tltGet s.tlt oldPtr with _ | c
  · rw [if_neg]
    · exact Monitored.locked hl .refl
    · rintro ⟨-, c, hc, -⟩
      rw [hget] at hc
      cases hc
  · by_cases hd : (s.tlt.info c).status = .deallocated ∧ (s.tlt.info c).cmaId = id
    · -- the lock is let go before the status is written
      simp only [if_pos hd]
      rw [if_pos ⟨hb', c, hget, hd⟩]
      have hopen : Monitored false s (((s.lock F).unlock F).reportDoubleFree F oldPtr) (some false) :=
        ((monitored_lock hl s).trans (monitored_unlock hl true _)).trans (monitored_report _ _ _)
      refine Monitored.stuck (Monitored.trans (Monitored.trans hopen (Monitored.of_log_eq ?_))
        (monitored_setStatus false _ c .inRealloc)) (monitored_unlock hl true _)
      rfl
    · simp only [if_neg hd]
      rw [if_neg]
      · refine Monitored.locked hl ((Monitored.of_log_eq ?_).trans (monitored_setStatus true _ c .inRealloc))
        rfl
      · rintro ⟨-, c', hc', hd'⟩
        obtain rfl := Option.some.inj (hget.symm.trans hc')
        exact hd hd'

/-- **The end of a `realloc`** never reports on the old chunk, and keeps the lock. -/
theorem releaseOldChunk_monitored (hl : F.isLockOff = false) (h : s.Inv) {newPtr : ℕ}
    (he : releaseOldChunk F k s ptr newPtr id = some s') : Monitored true s s' (some true) := by
  -- a chunk that is not `DEALLOCATED` is no double free
  have hlive : ∀ {s₁ : State} {b : Bool}, s₁.Inv → (∀ c, tltGet s₁.tlt ptr = some c →
      (s₁.tlt.info c).status ≠ .deallocated) → releaseCMAChunkImpl F k s₁ ptr id = some (b, s') →
      Monitored true s₁ s' (some true) := by
    intro s₁ b hi hd he
    have hm := releaseCMAChunkImpl_monitored hl hi he
    rwa [if_neg] at hm
    rintro ⟨c, hc, -, hst, -⟩
    exact hd c hc hst
  have hset : ∀ {c : ℕ}, tltGet s.tlt ptr = some c → ∀ c', tltGet (s.setStatus c .inRealloc).tlt ptr = some c' →
      ((s.setStatus c .inRealloc).tlt.info c').status ≠ .deallocated := by
    intro c hget c' hc'
    rw [State.setStatus_tlt] at hc' ⊢
    rw [tltGet_setInfo hget (by simp), hget] at hc'
    obtain rfl := Option.some.inj hc'
    rw [info_setInfo, if_pos rfl]
    simp
  unfold releaseOldChunk at he
  simp only at he
  rcases hget : tltGet s.tlt ptr with _ | c
  · rw [hget] at he
    simp only [releaseCMAChunkImpl_none hget, Option.map_some, ite_self] at he
    obtain rfl := Option.some.inj he
    exact .refl
  rw [hget] at he
  simp only at he
  split at he
  · obtain ⟨⟨b, s₁⟩, h₁, rfl⟩ := Option.map_eq_some_iff.mp he
    by_cases hd : (s.tlt.info c).status = .deallocated
    · rw [if_pos hd] at h₁
      exact (monitored_setStatus true s c .inRealloc).trans (hlive (h.setStatus c .inRealloc) (hset hget) h₁)
    · rw [if_neg hd] at h₁
      refine hlive h (fun c' hc' => ?_) h₁
      rwa [← Option.some.inj (hget.symm.trans hc')]
  · split at he
    · obtain rfl := Option.some.inj he
      exact monitored_setStatus true s c .deallocated
    · obtain ⟨⟨b, s₁⟩, h₁, rfl⟩ := Option.map_eq_some_iff.mp he
      exact (monitored_setStatus true s c .inRealloc).trans (hlive (h.setStatus c .inRealloc) (hset hget) h₁)

/-- **A `CLEAR`** resets its list after it let the lock go. -/
theorem clearCMAChunks_monitored (hl : F.isLockOff = false) (he : clearCMAChunks F k s id = some s') :
    Monitored false s s' none := by
  unfold clearCMAChunks at he
  simp only at he
  obtain ⟨s₁, h₁, rfl⟩ := Option.map_eq_some_iff.mp he
  have hloop := (monitored_lock hl _).trans (clearLoop_monitored _ h₁)
  have hdone := hloop.trans (monitored_unlock hl true s₁)
  have hreset : ∀ s₂ : State, Monitored false s₂ (s₂.emit (.writeAllocListZone id)) none := fun s₂ =>
    Monitored.event (e := .writeAllocListZone id) rfl
  refine Monitored.trans (Monitored.trans (Monitored.trans (Monitored.of_log_eq ?_) hdone) (Monitored.of_log_eq ?_))
    (hreset _)
  · rfl
  · rfl

/-- **`__asan_emptyQuarantineOnGC`** never takes the lock. -/
theorem emptyOnGC_monitored (F : Flags) (s : State) (id : ℕ) : Monitored false s (emptyOnGC F s id) none := by
  refine ⟨_, List.append_assoc _ _ _, ?_⟩
  cases F.isQuarantineZoneOn <;> rfl

end Parts

/-! ### Every hook -/

/-- The call is not one that lets the lock go too early or writes without it. -/
def HookCall.KeepsLock (F : Flags) (s : State) : HookCall → Prop
  | .allocate _ _ _ _ _ _ | .reallocateEnd _ _ _ _ _ _ _ => True
  | .release k ptr id isInCma => ¬ (isInCma = false ∧ FreedBefore F k s.tlt ptr id)
  | .reallocateStart oldPtr isInCma id => ¬ (isInCma = false ∧ FreedAtStart s.tlt oldPtr id)
  | .clear _ _ | .gc _ => False

instance (F : Flags) (s : State) (e : HookCall) : Decidable (e.KeepsLock F s) :=
  match e with
  | .allocate _ _ _ _ _ _ | .reallocateEnd _ _ _ _ _ _ _ => instDecidableTrue
  | .release k ptr id isInCma =>
    inferInstanceAs (Decidable (¬ (isInCma = false ∧ FreedBefore F k s.tlt ptr id)))
  | .reallocateStart oldPtr isInCma id =>
    inferInstanceAs (Decidable (¬ (isInCma = false ∧ FreedAtStart s.tlt oldPtr id)))
  | .clear _ _ | .gc _ => instDecidableFalse

theorem ite_none_eq_some {p : Prop} [Decidable p] {held : Bool} :
    (if p then none else some held) = some held ↔ ¬ p := by
  by_cases hp : p <;> simp [hp]

theorem hookStep_monitored {F : Flags} (hl : F.isLockOff = false) {s s' : State} (h : s.Inv) {e : HookCall}
    (he : hookStep F s e = some s') : ∃ r, Monitored false s s' r ∧ (r = some false ↔ e.KeepsLock F s) := by
  cases e with
  | allocate k ptr size g id b =>
    refine ⟨some false, ?_, iff_of_true rfl trivial⟩
    rcases allocateCMAChunk_path he with ⟨-, rfl⟩ | ⟨-, s₁, h₁, rfl⟩
    · exact .refl
    · exact Monitored.locked hl (allocateCMAChunkImpl_monitored h₁)
  | release k ptr id b =>
    obtain ⟨⟨r, s₁⟩, h₁, rfl⟩ := Option.map_eq_some_iff.mp he
    exact ⟨_, releaseCMAChunk_monitored hl h h₁, ite_none_eq_some⟩
  | reallocateStart oldPtr b id =>
    obtain rfl := Option.some.inj he
    exact ⟨_, reallocateCMAChunkStart_monitored hl s oldPtr id b, ite_none_eq_some⟩
  | reallocateEnd k oldPtr newPtr size g id b =>
    refine ⟨some false, ?_, iff_of_true rfl trivial⟩
    rcases reallocateCMAChunkEnd_path he with ⟨-, rfl⟩ | ⟨-, s₁, s₂, h₁, h₂, rfl⟩
    · exact .refl
    · exact Monitored.locked hl ((releaseOldChunk_monitored hl h.lock h₁).trans (allocateCMAChunkImpl_monitored h₂))
  | clear k id => exact ⟨none, clearCMAChunks_monitored hl he, iff_of_false (by simp) fun hn => hn⟩
  | gc id =>
    obtain rfl := Option.some.inj he
    exact ⟨none, emptyOnGC_monitored F s id, iff_of_false (by simp) fun hn => hn⟩

/-- **A run of calls that keep to the lock** keeps to it as a whole, and ends
without it. -/
theorem run_lockAfter {F : Flags} (hl : F.isLockOff = false) {s : State} {es : List HookCall}
    (hrun : Runs (hookStep F) (fun s e => e.KeepsLock F s) .initial es s) : lockAfter false s.log = some false := by
  suffices h : s.Inv ∧ lockAfter false s.log = some false from h.2
  refine Runs.invariant (I := fun s => s.Inv ∧ lockAfter false s.log = some false) ?_ ?_ hrun
  · intro s₁ s₂ e hI hok he
    obtain ⟨hi, hfree⟩ := hI
    obtain ⟨r, ⟨l, hlog, hr⟩, hiff⟩ := hookStep_monitored hl hi he
    refine ⟨hookStep_inv hi he, ?_⟩
    calc lockAfter false s₂.log
      _ = (lockAfter false s₁.log).bind (lockAfter · l) := by rw [hlog, lockAfter_append]
      _ = lockAfter false l := by rw [hfree, Option.bind_some]
      _ = some false := by rw [hr, hiff.mpr hok]
  · exact ⟨State.initial_inv, rfl⟩

/-- **Which calls keep to the lock.** With locking on, a call that starts
without the lock lets it go only while it holds it, writes only while it holds
it and ends without it, exactly if it is a hand-out, the end of a `realloc`, or
a release or the start of a `realloc` that finds no double free. A run of such
calls does so as a whole. -/
theorem hookStep_lock_iff {F : Flags} (hl : F.isLockOff = false) :
    (∀ {s s' : State} {e : HookCall}, HookReachable F s → hookStep F s e = some s' →
      ∃ l, s'.log = s.log ++ l ∧ (lockAfter false l = some false ↔ e.KeepsLock F s)) ∧
    ∀ {s : State} {es : List HookCall}, Runs (hookStep F) (fun s e => e.KeepsLock F s) .initial es s →
      lockAfter false s.log = some false := by
  constructor
  · intro s s' e h he
    obtain ⟨r, ⟨l, hlog, rfl⟩, hiff⟩ := hookStep_monitored hl h.inv he
    exact ⟨l, hlog, hiff⟩
  · intro s es hrun
    exact run_lockAfter hl hrun

/-- Handed out and released: both calls keep to the lock. -/
theorem hookStep_lock_release :
    ∃ s s' l, Runs (hookStep defaultFlags) (fun s e => e.KeepsLock defaultFlags s) .initial
        [.allocate {} 0x602000000010 16 1 1 false] s ∧ lockAfter false s.log = some false ∧
      hookStep defaultFlags s (.release {} 0x602000000010 1 false) = some s' ∧ s'.log = s.log ++ l ∧
      lockAfter false l = some false := by
  have h : ((exec (hookStep defaultFlags) (fun s e => e.KeepsLock defaultFlags s) .initial
      [.allocate {} 0x602000000010 16 1 1 false]).bind fun s =>
      (hookStep defaultFlags s (.release {} 0x602000000010 1 false)).map fun _ =>
        decide ((HookCall.release {} 0x602000000010 1 false).KeepsLock defaultFlags s)) = some true := by
    decide +kernel
  obtain ⟨s, hs, h⟩ := Option.bind_eq_some_iff.mp h
  obtain ⟨s', hs', h⟩ := Option.map_eq_some_iff.mp h
  have hrun := runs_of_exec hs
  have hreach : HookReachable defaultFlags s := ⟨_, hrun.mono fun _ _ _ => trivial⟩
  obtain ⟨l, hlog, hiff⟩ := (hookStep_lock_iff (F := defaultFlags) rfl).1 hreach hs'
  exact ⟨s, s', l, hrun, (hookStep_lock_iff (F := defaultFlags) rfl).2 hrun, hs', hlog,
    hiff.mpr (of_decide_eq_true h)⟩

/-- A double free that is reported: the chunk is written and its pointer pushed
after the lock was let go, and then the lock is let go again. -/
theorem double_free_drops_lock :
    ∃ s s', HookRun defaultFlags
        [.allocate {} 0x602000000010 16 1 1 false, .release {} 0x602000000010 1 false] s ∧
      hookStep defaultFlags s (.release {} 0x602000000010 1 false) = some s' ∧
      s'.log = s.log ++ [.lock, .unlock, .lock, .unlock, .reportDoubleFree 0x602000000010, .writeChunkInfo 0,
        .popPtrIfMax 1, .pushPtr 1 0x602000000010, .unlock] ∧
      lockAfter false [.lock, .unlock, .lock, .unlock, .reportDoubleFree 0x602000000010, .writeChunkInfo 0,
        .popPtrIfMax 1, .pushPtr 1 0x602000000010, .unlock] = none := by
  have h : ((exec (hookStep defaultFlags) (fun _ _ => True) .initial
      [.allocate {} 0x602000000010 16 1 1 false, .release {} 0x602000000010 1 false]).bind fun s =>
      (hookStep defaultFlags s (.release {} 0x602000000010 1 false)).map fun s' =>
        decide (s'.log = s.log ++ [.lock, .unlock, .lock, .unlock, .reportDoubleFree 0x602000000010,
          .writeChunkInfo 0, .popPtrIfMax 1, .pushPtr 1 0x602000000010, .unlock])) = some true := by
    decide +kernel
  obtain ⟨s, hs, h⟩ := Option.bind_eq_some_iff.mp h
  obtain ⟨s', hs', h⟩ := Option.map_eq_some_iff.mp h
  exact ⟨s, s', runs_of_exec hs, hs', of_decide_eq_true h, by decide⟩

end Cmasan
