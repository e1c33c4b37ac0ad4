/-
# Runs of hooks

Each hook has a few ways through (`ReleasePath` and the `_path` lemmas), which
the later modules go by. Any hooks with any arguments may come one after the
other: the table and the quarantine stay well formed throughout
(`hookStep_inv`), whatever the calls.

Key definitions: `ReleasePath`, `HookCall`, `hookStep`, `HookReachable`,
`State.Inv`.
Key theorems: `releaseCMAChunk_path`, `allocateCMAChunk_path`,
`reallocateCMAChunkEnd_path`, `hookStep_inv`, `HookReachable.inv`.
-/
import Cmasan.Hooks
import Cmasan.QuarantineQueue
import Cmasan.TltTable

namespace Cmasan

open Lib

namespace State

variable (F : Flags) (s : State) (e : Event) (ptr c : ℕ) (status : Status)

@[simp] theorem emit_tlt : (s.emit e).tlt = s.tlt := rfl
@[simp] theorem emit_shadow : (s.emit e).shadow = s.shadow := rfl
@[simp] theorem emit_qz : (s.emit e).qz = s.qz := rfl
@[simp] theorem emit_alz : (s.emit e).alz = s.alz := rfl
@[simp] theorem emit_log : (s.emit e).log = s.log ++ [e] := rfl

@[simp] theorem lock_tlt : (s.lock F).tlt = s.tlt := by unfold lock; split <;> rfl
@[simp] theorem lock_shadow : (s.lock F).shadow = s.shadow := by unfold lock; split <;> rfl
@[simp] theorem lock_qz : (s.lock F).qz = s.qz := by unfold lock; split <;> rfl
@[simp] theorem lock_alz : (s.lock F).alz = s.alz := by unfold lock; split <;> rfl

@[simp] theorem unlock_tlt : (s.unlock F).tlt = s.tlt := by unfold unlock; split <;> rfl
@[simp] theorem unlock_shadow : (s.unlock F).shadow = s.shadow := by unfold unlock; split <;> rfl
@[simp] theorem unlock_qz : (s.unlock F).qz = s.qz := by unfold unlock; split <;> rfl
@[simp] theorem unlock_alz : (s.unlock F).alz = s.alz := by unfold unlock; split <;> rfl

@[simp] theorem reportDoubleFree_tlt : (s.reportDoubleFree F ptr).tlt = s.tlt := by
  unfold reportDoubleFree; split <;> rfl
@[simp] theorem reportDoubleFree_shadow : (s.reportDoubleFree F ptr).shadow = s.shadow := by
  unfold reportDoubleFree; split <;> rfl
@[simp] theorem reportDoubleFree_qz : (s.reportDoubleFree F ptr).qz = s.qz := by
  unfold reportDoubleFree; split <;> rfl
@[simp] theorem reportDoubleFree_alz : (s.reportDoubleFree F ptr).alz = s.alz := by
  unfold reportDoubleFree; split <;> rfl

@[simp] theorem setStatus_tlt :
    (s.setStatus c status).tlt = s.tlt.setInfo c { s.tlt.info c with status } := rfl
@[simp] theorem setStatus_shadow : (s.setStatus c status).shadow = s.shadow := rfl
@[simp] theorem setStatus_qz : (s.setStatus c status).qz = s.qz := rfl
@[simp] theorem setStatus_alz : (s.setStatus c status).alz = s.alz := rfl
theorem setStatus_log : (s.setStatus c status).log = s.log ++ [.writeChunkInfo c] := rfl

/-- The table and the quarantine are well formed. -/
structure Inv (s : State) : Prop where
  tlt : s.tlt.Inv
  qz : s.qz.Inv

theorem initial_inv : State.initial.Inv := ⟨initializeTlt_inv, Quarantine.initial_inv⟩

variable {F s}

theorem Inv.congr {s' : State} (h : s.Inv) (ht : s'.tlt = s.tlt) (hq : s'.qz = s.qz) : s'.Inv :=
  ⟨ht ▸ h.tlt, hq ▸ h.qz⟩

theorem Inv.lock (h : s.Inv) : (s.lock F).Inv := h.congr (lock_tlt F s) (lock_qz F s)

theorem Inv.unlock (h : s.Inv) : (s.unlock F).Inv := h.congr (unlock_tlt F s) (unlock_qz F s)

theorem Inv.report (h : s.Inv) (ptr : ℕ) : (s.reportDoubleFree F ptr).Inv :=
  h.congr (reportDoubleFree_tlt F s ptr) (reportDoubleFree_qz F s ptr)

theorem Inv.setStatus (h : s.Inv) (c : ℕ) (status : Status) : (s.setStatus c status).Inv :=
  ⟨h.tlt.setInfo rfl rfl rfl rfl, h.qz⟩

/-- **A pop and a push** change the quarantine and the log only. -/
theorem pushAndPop_frame {r : ℕ} {s' : State} (he : s.pushAndPop F ptr = some (r, s')) :
    s'.tlt = s.tlt ∧ s'.shadow = s.shadow ∧ s'.alz = s.alz ∧
      pushAndPopFromQuarantine F s.tlt s.qz ptr = some (r, s'.qz) := by
  unfold pushAndPop at he
  obtain ⟨⟨r', qz⟩, hp, he⟩ := Option.map_eq_some_iff.mp he
  obtain ⟨rfl, rfl⟩ := Prod.mk.inj he
  exact ⟨rfl, rfl, rfl, hp⟩

end State

/-- `pushAndPopFromQuarantine` returns and keeps the queues well linked. -/
theorem pushAndPopFromQuarantine_inv (F : Flags) (t : Tlt) {q : Quarantine} (h : q.Inv) (ptr : ℕ) :
    ∃ r q', pushAndPopFromQuarantine F t q ptr = some (r, q') ∧ q'.Inv := by
  by_cases hon : F.isQuarantineZoneOn = true
  · rcases hget : tltGet t ptr with _ | c
    · refine ⟨ptr, q, ?_, h⟩
      unfold pushAndPopFromQuarantine
      rw [if_pos hon, hget]
    · obtain ⟨q', he, hi, -⟩ := pushAndPop_spec hon h hget
      exact ⟨_, q', he, hi⟩
  · exact ⟨ptr, q, if_neg hon, h⟩

theorem State.Inv.pushAndPop {F : Flags} {s : State} (h : s.Inv) {ptr r : ℕ} {s' : State}
    (he : s.pushAndPop F ptr = some (r, s')) : s'.Inv := by
  obtain ⟨ht, -, -, hp⟩ := State.pushAndPop_frame ptr he
  obtain ⟨r', q', hp', hi⟩ := pushAndPopFromQuarantine_inv F s.tlt h.qz ptr
  obtain ⟨-, rfl⟩ := Prod.mk.inj (Option.some.inj (hp'.symm.trans hp))
  exact ⟨ht ▸ h.tlt, hi⟩

/-! ### Each hook -/

theorem freeChunk_inv {F : Flags} {k : Caller} {s s' : State} (h : s.Inv) {c ptr id : ℕ}
    (he : freeChunk F k s c ptr id = some s') : s'.Inv := by
  unfold freeChunk at he
  obtain ⟨shadow, -, rfl⟩ := Option.map_eq_some_iff.mp he
  exact ⟨h.tlt.setInfo rfl rfl rfl rfl, h.qz⟩

theorem releaseCMAChunkImpl_inv {F : Flags} {k : Caller} {s s' : State} (h : s.Inv) {ptr id : ℕ}
    {b : Bool} (he : releaseCMAChunkImpl F k s ptr id = some (b, s')) : s'.Inv := by
  unfold releaseCMAChunkImpl at he
  split at he
  · obtain ⟨-, rfl⟩ := Prod.mk.inj (Option.some.inj he)
    exact h
  · simp only at he
    split at he
    · obtain ⟨-, rfl⟩ := Prod.mk.inj (Option.some.inj he)
      exact h
    · obtain ⟨s₁, hf, he⟩ := Option.map_eq_some_iff.mp he
      obtain ⟨-, rfl⟩ := Prod.mk.inj he
      refine freeChunk_inv ?_ hf
      split
      · exact h.unlock.report ptr
      · exact h

theorem releaseInRealloc_inv {F : Flags} {s s' : State} (h : s.Inv) {ptr : ℕ} {r : Option ℕ}
    (he : releaseInRealloc F s ptr = some (r, s')) : s'.Inv := by
  unfold releaseInRealloc at he
  split at he
  · simp only at he
    split at he
    · split at he
      · obtain ⟨⟨r', s₁⟩, hp, he⟩ := Option.map_eq_some_iff.mp he
        obtain ⟨-, rfl⟩ := Prod.mk.inj he
        exact ((h.lock.setStatus _ .deallocated).pushAndPop hp).unlock
      · obtain ⟨-, rfl⟩ := Prod.mk.inj (Option.some.inj he)
        exact h.lock.unlock
    · obtain ⟨-, rfl⟩ := Prod.mk.inj (Option.some.inj he)
      exact h.lock.unlock
  · obtain ⟨-, rfl⟩ := Prod.mk.inj (Option.some.inj he)
    exact h

/-- The ways through `__asan_releaseCMAChunk`: a null pointer, the old pointer
of a `realloc`, a release inside an allocator, a pointer without a chunk of its
own, and a release. -/
inductive ReleasePath (F : Flags) (k : Caller) (s : State) (ptr id : ℕ) : Bool → ℕ → State → Prop
  | null {b : Bool} : ptr = 0 → ReleasePath F k s ptr id b ptr s
  | inRealloc {b : Bool} {r : ℕ} {s₁ : State} : releaseInRealloc F s ptr = some (some r, s₁) →
      ReleasePath F k s ptr id b r s₁
  | inCma {s₁ : State} : releaseInRealloc F s ptr = some (none, s₁) → ReleasePath F k s ptr id true ptr s₁
  | noChunk {s₁ s₂ : State} : releaseInRealloc F s ptr = some (none, s₁) →
      releaseCMAChunkImpl F k (s₁.lock F) ptr id = some (false, s₂) → ReleasePath F k s ptr id false ptr (s₂.unlock F)
  | chunk {r : ℕ} {s₁ s₂ s₃ : State} : releaseInRealloc F s ptr = some (none, s₁) →
      releaseCMAChunkImpl F k (s₁.lock F) ptr id = some (true, s₂) → s₂.pushAndPop F ptr = some (r, s₃) →
      ReleasePath F k s ptr id false r (s₃.unlock F)

theorem releaseCMAChunk_path {F : Flags} {k : Caller} {s s' : State} {ptr id r : ℕ} {b : Bool}
    (he : releaseCMAChunk F k s ptr id b = some (r, s')) : ReleasePath F k s ptr id b r s' := by
  unfold releaseCMAChunk at he
  by_cases hp : ptr = 0
  · rw [if_pos hp] at he
    obtain ⟨rfl, rfl⟩ := Prod.mk.inj (Option.some.inj he)
    exact .null hp
  rw [if_neg hp] at he
  obtain ⟨⟨r₁, s₁⟩, h₁, he⟩ := Option.bind_eq_some_iff.mp he
  cases r₁ with
  | some r₁ =>
    obtain ⟨rfl, rfl⟩ := Prod.mk.inj (Option.some.inj he)
    exact .inRealloc h₁
  | none =>
    simp only at he
    cases b with
    | true =>
      rw [if_pos rfl] at he
      obtain ⟨rfl, rfl⟩ := Prod.mk.inj (Option.some.inj he)
      exact .inCma h₁
    | false =>
      rw [if_neg Bool.false_ne_true] at he
      obtain ⟨⟨b₂, s₂⟩, h₂, he⟩ := Option.bind_eq_some_iff.mp he
      cases b₂ with
      | false =>
        obtain ⟨rfl, rfl⟩ := Prod.mk.inj (Option.some.inj he)
        exact .noChunk h₁ h₂
      | true =>
        obtain ⟨⟨r₃, s₃⟩, h₃, he⟩ := Option.map_eq_some_iff.mp he
        obtain ⟨rfl, rfl⟩ := Prod.mk.inj he
        exact .chunk h₁ h₂ h₃

theorem releaseCMAChunk_inv {F : Flags} {k : Caller} {s s' : State} (h : s.Inv) {ptr id r : ℕ}
    {b : Bool} (he : releaseCMAChunk F k s ptr id b = some (r, s')) : s'.Inv := by
  cases releaseCMAChunk_path he with
  | null => exact h
  | inRealloc h₁ => exact releaseInRealloc_inv h h₁
  | inCma h₁ => exact releaseInRealloc_inv h h₁
  | noChunk h₁ h₂ => exact (releaseCMAChunkImpl_inv (releaseInRealloc_inv h h₁).lock h₂).unlock
  | chunk h₁ h₂ h₃ =>
    have hi₂ := releaseCMAChunkImpl_inv (releaseInRealloc_inv h h₁).lock h₂
    exact (hi₂.pushAndPop h₃).unlock

theorem allocateCMAChunkImpl_inv {F : Flags} {k : Caller} {s s' : State} (h : s.Inv)
    {ptr size g id : ℕ} (he : allocateCMAChunkImpl F k s ptr size g id = some s') : s'.Inv := by
  unfold allocateCMAChunkImpl at he
  simp only at he
  split at he
  · split at he
    · exact Option.some.inj he ▸ h
    · obtain ⟨t, ht, he⟩ := Option.bind_eq_some_iff.mp he
      obtain ⟨shadow, -, rfl⟩ := Option.map_eq_some_iff.mp he
      exact ⟨tltInsert_inv h.tlt ht, h.qz⟩
  · obtain ⟨t, ht, he⟩ := Option.bind_eq_some_iff.mp he
    obtain ⟨shadow, -, rfl⟩ := Option.map_eq_some_iff.mp he
    exact ⟨tltInsert_inv h.tlt ht, h.qz⟩

theorem reallocateCMAChunkStart_inv {F : Flags} {s : State} (h : s.Inv) (oldPtr id : ℕ) (b : Bool) :
    (reallocateCMAChunkStart F s oldPtr b id).Inv := by
  unfold reallocateCMAChunkStart
  split
  · exact h
  · simp only
    split
    · exact h.lock.unlock
    · refine State.Inv.congr (s := State.setStatus _ _ _) (State.Inv.setStatus ?_ _ _)
        (State.unlock_tlt F _) (State.unlock_qz F _)
      refine h.congr ?_ ?_
      · show State.tlt (ite _ _ _) = _
        split <;> simp
      · show State.qz (ite _ _ _) = _
        split <;> simp

theorem releaseOldChunk_inv {F : Flags} {k : Caller} {s s' : State} (h : s.Inv) {oldPtr newPtr id : ℕ}
    (he : releaseOldChunk F k s oldPtr newPtr id = some s') : s'.Inv := by
  unfold releaseOldChunk at he
  simp only at he
  split at he
  · split at he
    · exact Option.some.inj he ▸ h
    · obtain ⟨⟨b, s₁⟩, h₁, rfl⟩ := Option.map_eq_some_iff.mp he
      refine releaseCMAChunkImpl_inv ?_ h₁
      split
      · exact h.setStatus _ _
      · exact h
  · split at he
    · split at he
      · exact Option.some.inj he ▸ h
      · exact Option.some.inj he ▸ h.setStatus _ _
    · obtain ⟨⟨b, s₁⟩, h₁, rfl⟩ := Option.map_eq_some_iff.mp he
      refine releaseCMAChunkImpl_inv ?_ h₁
      split
      · exact h
      · exact h.setStatus _ _

theorem clearLoop_inv {F : Flags} {k : Caller} {id : ℕ} : ∀ (ptrs : List ℕ) {s s' : State}, s.Inv →
    clearLoop F k id ptrs s = some s' → s'.Inv
  | [], s, s', h, he => Option.some.inj he ▸ h
  | ptr :: ptrs, s, s', h, he => by
    unfold clearLoop at he
    split at he
    · exact clearLoop_inv ptrs h he
    · obtain ⟨s₁, h₁, he⟩ := Option.bind_eq_some_iff.mp he
      exact clearLoop_inv ptrs (freeChunk_inv h h₁) he

/-- `__asan_allocateCMAChunk` does nothing, or hands out under the lock. -/
theorem allocateCMAChunk_path {F : Flags} {k : Caller} {s s' : State} {ptr size g id : ℕ} {b : Bool}
    (he : allocateCMAChunk F k s ptr size g id b = some s') :
    (b = true ∨ ptr = 0) ∧ s' = s ∨
      ¬ (b = true ∨ ptr = 0) ∧
        ∃ s₁, allocateCMAChunkImpl F k (s.lock F) ptr size g id = some s₁ ∧ s' = s₁.unlock F := by
  unfold allocateCMAChunk at he
  by_cases hn : b = true ∨ ptr = 0
  · rw [if_pos hn] at he
    exact .inl ⟨hn, (Option.some.inj he).symm⟩
  · rw [if_neg hn] at he
    obtain ⟨s₁, h₁, rfl⟩ := Option.map_eq_some_iff.mp he
    exact .inr ⟨hn, s₁, h₁, rfl⟩

theorem allocateCMAChunk_impl {F : Flags} {k : Caller} {s s' : State} {ptr size g id : ℕ} (hp : ptr ≠ 0)
    (he : allocateCMAChunk F k s ptr size g id false = some s') :
    ∃ s₁, allocateCMAChunkImpl F k (s.lock F) ptr size g id = some s₁ ∧ s' = s₁.unlock F := by
  rcases allocateCMAChunk_path he with ⟨hb | h0, -⟩ | ⟨-, h₁⟩
  · cases hb
  · exact absurd h0 hp
  · exact h₁

/-- `__asan_reallocateCMAChunkEnd` does nothing, or releases the old chunk and
then hands out the new one, under the lock. -/
theorem reallocateCMAChunkEnd_path {F : Flags} {k : Caller} {s s' : State} {oldPtr newPtr size g id : ℕ} {b : Bool}
    (he : reallocateCMAChunkEnd F k s oldPtr newPtr size g id b = some s') :
    (b = true ∨ newPtr = 0 ∨ size = 0) ∧ s' = s ∨
      ¬ (b = true ∨ newPtr = 0 ∨ size = 0) ∧
        ∃ s₁ s₂, releaseOldChunk F k (s.lock F) oldPtr newPtr id = some s₁ ∧
          allocateCMAChunkImpl F k s₁ newPtr size g id = some s₂ ∧ s' = s₂.unlock F := by
  unfold reallocateCMAChunkEnd at he
  by_cases hn : b = true ∨ newPtr = 0 ∨ size = 0
  · rw [if_pos hn] at he
    exact .inl ⟨hn, (Option.some.inj he).symm⟩
  · rw [if_neg hn] at he
    obtain ⟨s₁, h₁, he⟩ := Option.bind_eq_some_iff.mp he
    obtain ⟨s₂, h₂, rfl⟩ := Option.map_eq_some_iff.mp he
    exact .inr ⟨hn, s₁, s₂, h₁, h₂, rfl⟩

/-! ### Runs -/

/-- A hook call with its arguments. -/
inductive HookCall
  | allocate (k : Caller) (ptr size granularity id : ℕ) (isInCma : Bool)
  | release (k : Caller) (ptr id : ℕ) (isInCma : Bool)
  | reallocateStart (oldPtr : ℕ) (isInCma : Bool) (id : ℕ)
  | reallocateEnd (k : Caller) (oldPtr newPtr size granularity id : ℕ) (isInCma : Bool)
  | clear (k : Caller) (id : ℕ)
  | gc (id : ℕ)

/-- The state a call leaves. -/
def hookStep (F : Flags) (s : State) : HookCall → Option State
  | .allocate k ptr size granularity id isInCma =>
    allocateCMAChunk F k s ptr size granularity id isInCma
  | .release k ptr id isInCma => (releaseCMAChunk F k s ptr id isInCma).map (·.2)
  | .reallocateStart oldPtr isInCma id => some (reallocateCMAChunkStart F s oldPtr isInCma id)
  | .reallocateEnd k oldPtr newPtr size granularity id isInCma =>
    reallocateCMAChunkEnd F k s oldPtr newPtr size granularity id isInCma
  | .clear k id => clearCMAChunks F k s id
  | .gc id => some (emptyOnGC F s id)

/-- A run of hook calls from the start. -/
def HookRun (F : Flags) (es : List HookCall) (s : State) : Prop :=
  Runs (hookStep F) (fun _ _ => True) .initial es s

/-- A state that some run of hook calls leaves. -/
def HookReachable (F : Flags) (s : State) : Prop := ∃ es, HookRun F es s

/-- **Every hook keeps the table and the quarantine well formed.** -/
theorem hookStep_inv {F : Flags} {s s' : State} {e : HookCall} (h : s.Inv)
    (he : hookStep F s e = some s') : s'.Inv := by
  cases e with
  | allocate k ptr size g id b =>
    rcases allocateCMAChunk_path he with ⟨-, rfl⟩ | ⟨-, s₁, h₁, rfl⟩
    · exact h
    · exact (allocateCMAChunkImpl_inv h.lock h₁).unlock
  | release k ptr id b =>
    obtain ⟨⟨r, s₁⟩, h₁, rfl⟩ := Option.map_eq_some_iff.mp he
    exact releaseCMAChunk_inv h h₁
  | reallocateStart oldPtr b id => exact Option.some.inj he ▸ reallocateCMAChunkStart_inv h oldPtr id b
  | reallocateEnd k oldPtr newPtr size g id b =>
    rcases reallocateCMAChunkEnd_path he with ⟨-, rfl⟩ | ⟨-, s₁, s₂, h₁, h₂, rfl⟩
    · exact h
    · exact (allocateCMAChunkImpl_inv (releaseOldChunk_inv h.lock h₁) h₂).unlock
  | clear k id =>
    simp only [hookStep, clearCMAChunks] at he
    obtain ⟨s₁, h₁, rfl⟩ := Option.map_eq_some_iff.mp he
    refine (clearLoop_inv _ (h.congr ?_ ?_) h₁).congr ?_ ?_ <;> simp
  | gc id =>
    obtain rfl := Option.some.inj he
    exact ⟨h.tlt, (emptyQuarantineOnGC_spec F h.qz s.alz id).1⟩

theorem HookReachable.inv {F : Flags} {s : State} (h : HookReachable F s) : s.Inv :=
  h.elim fun _ hr => Runs.invariant (fun hi _ he => hookStep_inv hi he) State.initial_inv hr

end Cmasan
