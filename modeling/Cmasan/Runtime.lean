/-
# An instrumented program on the runtime

The functions that the pass calls are those of the runtime: `RuntimeEnv.hook`
takes a name, the arguments and what the hook sees of its caller to the hooks
of `Hooks`. `link` puts them into the machine that a module runs on. The
state is the runtime's and the rest of the process; code of other modules may
do to the runtime what ASan's own allocator does (`NativeStep`), and writes
shadow of its own.

Whatever an instrumented program does, its runtime states are a run of hooks
and native steps (`linked_run`), and the table and the quarantine stay well
formed (`Run.inv`). So what is proved of the hooks holds of them wherever the
program calls them.

Key definitions: `RuntimeEnv`, `RuntimeEnv.hook`, `RuntimeEnv.link`,
`NativeStep`, `RuntimeEnv.Run`, `RuntimeEnv.Outside`.
Key theorems: `hook_inv`, `Run.inv`, `linked_run`.
-/
import Cmasan.HookProtocol
import Cmasan.SizeQueries

namespace Cmasan

open Lib Ssa

variable {Op τ : Type}

/-! ### The functions of the runtime -/

/-- The options, and what a hook sees of its caller. -/
structure RuntimeEnv (τ : Type) where
  flags : Flags
  isMunmapFlushOn : Bool
  caller : String → τ → Caller

/-- `__asan_flushMmapRange`. -/
def flushMmapRange (canPoisonMemory isMunmapFlushOn : Bool) (s : State) (addr size : ℕ) : Option State :=
  if ¬ isMunmapFlushOn then some s
  else (poisonShadow canPoisonMemory s.shadow addr size 0).map fun shadow => { s with shadow }

/-- A hook by its name: its value and the state; 0 is the value of a void one.
A flag is a `bool`. -/
def RuntimeEnv.hook (R : RuntimeEnv τ) (f : String) (as : List ℕ) (s : State) (t : τ) : Option (ℕ × State) :=
  let F := R.flags
  let k := R.caller f t
  let arg := argsOf as
  if f = kIsInOtherCMAFName then some (if isCMAInCallStackSkipOneCMA F.cmaPcRange k.trace then 1 else 0, s)
  else if f = kCMAExtendSizeFName then some (extendSize F.rz (arg 0) (arg 1) (arg 2 ≠ 0), s)
  else if f = kAllocateCMAChunkFName then
    (allocateCMAChunk F k s (arg 0) (arg 1) (arg 2) (arg 3) (arg 4 ≠ 0)).map (0, ·)
  else if f = kReallocateCMAChunkStartFName then
    some (0, reallocateCMAChunkStart F s (arg 0) (arg 1 ≠ 0) (arg 2))
  else if f = kReallocateCMAChunkEndFName then
    (reallocateCMAChunkEnd F k s (arg 0) (arg 1) (arg 2) (arg 3) (arg 4) (arg 5 ≠ 0)).map (0, ·)
  else if f = kReleaseCMAChunkFName then releaseCMAChunk F k s (arg 0) (arg 1) (arg 2 ≠ 0)
  else if f = kCMAClearCMAChunksFName then (clearCMAChunks F k s (arg 0)).map (0, ·)
  else if f = kCMAEmptyQuarantineOnGC then some (0, emptyOnGC F s (arg 0))
  else if f = kCMASizeGetterFName then some (getCMAChunkSize F s (arg 0) (arg 1))
  else if f = kCMAFlushMmapRangeFName then
    (flushMmapRange F.canPoisonMemory R.isMunmapFlushOn s (arg 0) (arg 1)).map (0, ·)
  else some (0, s)

/-! ### ASan's own allocator -/

/-- The end of ASan's `Allocate`: what was tracked in the new chunk is gone. -/
def nativeAllocate (F : Flags) (s : State) (res size : ℕ) : Option State :=
  (tltRelease s.tlt res size).map fun tlt => ({ s.lock F with tlt } : State).unlock F

/-- The start of ASan's `Deallocate`: what is tracked in the chunk is released. -/
def nativeDeallocate (F : Flags) (k : Caller) (s : State) (p deleteSize : ℕ) : Option State :=
  if p = 0 then some s
  else
    (tltUpdate s.tlt p deleteSize .deallocated .allocated k.stackId k.tid).map fun tlt =>
      ({ s.lock F with tlt } : State).unlock F

/-- What code that is not instrumented does to the runtime. -/
inductive NativeStep (F : Flags) : State → State → Prop
  | allocate {s s' : State} (res size : ℕ) : nativeAllocate F s res size = some s' → NativeStep F s s'
  | deallocate {s s' : State} (k : Caller) (p deleteSize : ℕ) :
    nativeDeallocate F k s p deleteSize = some s' → NativeStep F s s'
  | shadow (s : State) (shadow : Shadow) : NativeStep F s { s with shadow }

theorem NativeStep.inv {F : Flags} {s s' : State} (h : NativeStep F s s') (hi : s.Inv) : s'.Inv := by
  cases h with
  | allocate res size he =>
    obtain ⟨t, ht, rfl⟩ := Option.map_eq_some_iff.mp he
    have hstep : tltStep s.tlt (.release res size) = some t := ht
    have hinv : ({ s.lock F with tlt := t } : State).Inv := ⟨tltStep_inv hi.tlt hstep, hi.lock.qz⟩
    exact hinv.unlock
  | deallocate k p deleteSize he =>
    unfold nativeDeallocate at he
    split at he
    · exact Option.some.inj he ▸ hi
    · obtain ⟨t, ht, rfl⟩ := Option.map_eq_some_iff.mp he
      have hstep : tltStep s.tlt (.update p deleteSize .deallocated .allocated k.stackId k.tid) = some t := ht
      have hinv : ({ s.lock F with tlt := t } : State).Inv := ⟨tltStep_inv hi.tlt hstep, hi.lock.qz⟩
      exact hinv.unlock
  | shadow shadow => exact hi.congr rfl rfl

/-! ### The hooks by their names -/

namespace RuntimeEnv

variable (R : RuntimeEnv τ) (s : State) (t : τ) (as : List ℕ) (a b c d e f : ℕ)

theorem hook_isInOtherCMA : R.hook kIsInOtherCMAFName as s t =
    some (if isCMAInCallStackSkipOneCMA R.flags.cmaPcRange (R.caller kIsInOtherCMAFName t).trace then 1 else 0, s) := by
  simp [hook]

theorem hook_extendSize : R.hook kCMAExtendSizeFName [a, b, c] s t =
    some (extendSize R.flags.rz a b (c ≠ 0), s) := by
  simp [hook, argsOf, kIsInOtherCMAFName, kCMAExtendSizeFName]

theorem hook_allocateCMAChunk : R.hook kAllocateCMAChunkFName [a, b, c, d, e] s t =
    (allocateCMAChunk R.flags (R.caller kAllocateCMAChunkFName t) s a b c d (e ≠ 0)).map (0, ·) := by
  simp [hook, argsOf, kIsInOtherCMAFName, kCMAExtendSizeFName, kAllocateCMAChunkFName]

theorem hook_reallocateCMAChunkStart : R.hook kReallocateCMAChunkStartFName [a, b, c] s t =
    some (0, reallocateCMAChunkStart R.flags s a (b ≠ 0) c) := by
  simp [hook, argsOf, kIsInOtherCMAFName, kCMAExtendSizeFName, kAllocateCMAChunkFName,
    kReallocateCMAChunkStartFName]

theorem hook_reallocateCMAChunkEnd : R.hook kReallocateCMAChunkEndFName [a, b, c, d, e, f] s t =
    (reallocateCMAChunkEnd R.flags (R.caller kReallocateCMAChunkEndFName t) s a b c d e (f ≠ 0)).map (0, ·) := by
  simp [hook, argsOf, kIsInOtherCMAFName, kCMAExtendSizeFName, kAllocateCMAChunkFName,
    kReallocateCMAChunkStartFName, kReallocateCMAChunkEndFName]

theorem hook_releaseCMAChunk : R.hook kReleaseCMAChunkFName [a, b, c] s t =
    releaseCMAChunk R.flags (R.caller kReleaseCMAChunkFName t) s a b (c ≠ 0) := by
  simp [hook, argsOf, kIsInOtherCMAFName, kCMAExtendSizeFName, kAllocateCMAChunkFName,
    kReallocateCMAChunkStartFName, kReallocateCMAChunkEndFName, kReleaseCMAChunkFName]

/-- Every hook keeps the table and the quarantine well formed. -/
theorem hook_inv {R : RuntimeEnv τ} {f : String} {as : List ℕ} {s s' : State} {t : τ} {v : ℕ} (h : s.Inv)
    (he : R.hook f as s t = some (v, s')) : s'.Inv := by
  have hstep : ∀ {e : HookCall}, (hookStep R.flags s e).map (fun s => (0, s)) = some (v, s') → s'.Inv := by
    intro e he
    obtain ⟨s₁, h₁, h₂⟩ := Option.map_eq_some_iff.mp he
    obtain ⟨-, rfl⟩ := Prod.mk.inj h₂
    exact hookStep_inv h h₁
  have hsame : ∀ {x : ℕ}, some (x, s) = some (v, s') → s'.Inv := by
    intro x he
    obtain ⟨-, rfl⟩ := Prod.mk.inj (Option.some.inj he)
    exact h
  unfold hook at he
  dsimp only at he
  split at he
  · exact hsame he
  split at he
  · exact hsame he
  split at he
  · exact hstep (e := .allocate _ _ _ _ _ _) he
  split at he
  · exact hstep (e := .reallocateStart _ _ _) he
  split at he
  · exact hstep (e := .reallocateEnd _ _ _ _ _ _ _) he
  split at he
  · exact releaseCMAChunk_inv h he
  split at he
  · exact hstep (e := .clear _ _) he
  split at he
  · exact hstep (e := .gc _) he
  split at he
  · obtain ⟨-, rfl⟩ := Prod.mk.inj (Option.some.inj he)
    have hs := getCMAChunkSize_state R.flags s (argsOf as 0) (argsOf as 1)
    exact h.congr hs.tlt hs.qz
  split at he
  · obtain ⟨s₁, h₁, h₂⟩ := Option.map_eq_some_iff.mp he
    obtain ⟨-, rfl⟩ := Prod.mk.inj h₂
    unfold flushMmapRange at h₁
    split at h₁
    · exact Option.some.inj h₁ ▸ h
    · obtain ⟨shadow, -, rfl⟩ := Option.map_eq_some_iff.mp h₁
      exact h.congr rfl rfl
  · exact hsame he

/-! ### A module on the runtime -/

/-- A call of a hook. -/
def callHook (R : RuntimeEnv τ) (f : String) (as : List ℕ) : Comp (State × τ) ℕ := fun p o p' =>
  ∃ v s', R.hook f as p.1 p.2 = some (v, s') ∧ o = .ok v ∧ p' = (s', p.2)

/-- The machine with the runtime in it. -/
def link (R : RuntimeEnv τ) (P : Machine String Op (State × τ)) : Machine String Op (State × τ) :=
  { P with external := fun f as => if f ∈ hookNames then R.callHook f as else P.external f as }

/-- One thing that happens to the runtime. -/
inductive Step (R : RuntimeEnv τ) : State → State → Prop
  | hook {s s' : State} (f : String) (as : List ℕ) (t : τ) (v : ℕ) : R.hook f as s t = some (v, s') → Step R s s'
  | native {s s' : State} : NativeStep R.flags s s' → Step R s s'

/-- What may have happened to the runtime between two states of the process. -/
def Run (R : RuntimeEnv τ) (p p' : State × τ) : Prop := Relation.ReflTransGen R.Step p.1 p'.1

theorem run_stepwise : Comp.Stepwise R.Run := ⟨fun _ => .refl, fun h h' => h.trans h'⟩

theorem Run.inv {R : RuntimeEnv τ} {p p' : State × τ} (h : R.Run p p') (hi : p.1.Inv) : p'.1.Inv := by
  obtain ⟨s, t⟩ := p
  obtain ⟨s', t'⟩ := p'
  change Relation.ReflTransGen R.Step s s' at h
  induction h with
  | refl => exact hi
  | tail _ hstep ih =>
    cases hstep with
    | hook f as t v he => exact hook_inv ih he
    | native hn => exact hn.inv ih

/-- Code outside of the module does to the runtime what `NativeStep` says. -/
def Outside (R : RuntimeEnv τ) (P : Machine String Op (State × τ)) : Prop :=
  P.Moves (fun p p' => Relation.ReflTransGen (NativeStep R.flags) p.1 p'.1) (· ∉ hookNames)

variable {R} {P : Machine String Op (State × τ)}

theorem callHook_moves (f : String) (as : List ℕ) : (R.callHook f as).Moves R.Run := by
  rintro p o p' ⟨v, s', he, -, rfl⟩
  exact .single (.hook f as p.2 v he)

theorem Outside.link (h : R.Outside P) : (R.link P).Moves R.Run fun _ => True := by
  have hnative : ∀ {p p' : State × τ}, Relation.ReflTransGen (NativeStep R.flags) p.1 p'.1 → R.Run p p' :=
    fun h => Relation.ReflTransGen.mono (fun _ _ h => .native h) _ _ h
  refine ⟨fun o as p o' p' he => hnative (h.op o as p o' p' he), fun f as _ => ?_, fun _ _ _ => trivial⟩
  show (if f ∈ hookNames then R.callHook f as else P.external f as).Moves _
  split
  · exact callHook_moves f as
  · rename_i hf
    exact fun p o p' he => hnative (h.external f as hf p o p' he)

end RuntimeEnv

/-- **Whatever a module does** on the runtime, it is a run of hooks and of
native code. -/
theorem linked_run {R : RuntimeEnv τ} {P : Machine String Op (State × τ)} (hP : R.Outside P)
    (M : List (IrFunction Op)) (f : String) (as : List ℕ) :
    (call (R.link P) (moduleFn (R.link P) M) f as).Moves R.Run := by
  refine fun p o p' h => Ssa.call_moves hP.link (fun f run _ hrun c _ hS as => ?_) as trivial p o p' h
  obtain ⟨F, -, hrun⟩ := Option.bind_eq_some_iff.mp hrun
  obtain ⟨body, -, rfl⟩ := Option.map_eq_some_iff.mp hrun
  exact value_moves R.run_stepwise hS _ body.names_true

end Cmasan
