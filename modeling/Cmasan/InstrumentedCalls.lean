/-
# What the pass and the runtime give together

A call of an instrumented function, in a program that runs on the runtime.

An object that an allocator hands out to the program is addressable to the
byte and has a poisoned redzone behind it, inside of the region that the
allocator's own code was asked for; whatever that code did in between
(`instrumented_handOut`). A freed object is poisoned and queued before the
allocator's own code runs, and that code gets a pointer that was freed earlier
or nothing (`instrumented_free`). What one allocator asks of another is not
tracked: the inner one's code runs as it was (`instrumented_nested`).

Key definitions: `OnRuntime`, `Guarded`, `entryState`, `Quarantined`, `AfterRelease`.
Key theorems: `instrumented_le`, `instrumented_handOut`, `instrumented_free`,
`instrumented_nested`.
-/
import Cmasan.Runtime
import Cmasan.TrackedRange
import Cmasan.Nested

namespace Cmasan

open Lib Ssa

variable {Op σ τ : Type}

/-! ### Calls of instrumented functions -/

theorem sem_le (X : Machine String Op σ) {c c' : String → List ℕ → Comp σ ℕ} (h : ∀ f as, c f as ≤ c' f as) :
    (X.sem c).Le (X.sem c') :=
  ⟨fun _ _ => Comp.le_rfl, h, h, rfl⟩

theorem moduleFn_grows (X : Machine String Op σ) (M : List (IrFunction Op)) : Grows (moduleFn X M) := by
  intro f run hrun c c' hc as
  obtain ⟨F, -, hrun⟩ := Option.bind_eq_some_iff.mp hrun
  obtain ⟨body, -, rfl⟩ := Option.map_eq_some_iff.mp hrun
  exact value_mono (sem_le X hc) _ body

/-- **A call of an instrumented function**: its hooks around its body, whose
calls are calls in the instrumented module. -/
theorem instrumented_le {infoMap : String → Option CMAInfo} {M M' : List (IrFunction Op)}
    (h : List.Forall₂ (Instrumented infoMap) M M') (X : Machine String Op σ) {f : String} {F : IrFunction Op}
    {body : Func String Op} (hF : M.find? (·.name = f) = some F) (ht : F.target = some body) (as : List ℕ) :
    call X (moduleFn X M') f as ≤
      hooked (flushing (X.sem (call X (moduleFn X M')))) F body (getCMAInfo infoMap F.name) (argsOf as) := by
  have hrun : moduleFn X M' f = some fun c as => instrumented infoMap F body (X.sem c) (argsOf as) := by
    rw [moduleFn_instrumented h X]
    unfold instrumentedFn
    rw [hF, Option.bind_some, IrFunction.body_of_target ht]
    rfl
  have hle := call_run (X := X) (moduleFn_grows X M') hrun as
  unfold instrumented at hle
  rwa [ht] at hle

theorem flushing_call_of_ne {S : Sem String Op σ} {f : String} (hf : f ≠ "munmap") (as : List ℕ) :
    (flushing S).call f as = S.call f as := by
  unfold flushing
  dsimp only
  split
  · exact if_neg hf
  · rfl

/-! ### The hooks that a call makes -/

/-- Code whose calls of hooks are calls of the runtime, and which is a run of it. -/
structure OnRuntime (R : RuntimeEnv τ) (S : Sem String Op (State × τ)) (body : Func String Op) : Prop where
  hook : ∀ f ∈ hookNames, S.call f = R.callHook f
  body : ∀ args, (body.value S args).Moves R.Run

/-- The code of a module on the runtime, where the module defines no hook. -/
theorem onRuntime_of_link {R : RuntimeEnv τ} {P : Machine String Op (State × τ)} (hP : R.Outside P)
    {M : List (IrFunction Op)} (hM : ∀ f ∈ hookNames, M.find? (·.name = f) = none) (body : Func String Op) :
    OnRuntime R (flushing ((R.link P).sem (call (R.link P) (moduleFn (R.link P) M)))) body where
  hook f hf := by
    funext as
    have hnone : moduleFn (R.link P) M f = none := by
      unfold moduleFn
      rw [hM f hf]
      rfl
    rw [flushing_call_of_ne (by rintro rfl; exact absurd hf (by decide))]
    show call (R.link P) (moduleFn (R.link P) M) f as = _
    rw [call_external hnone]
    exact if_pos hf
  body args := by
    have hS : ((R.link P).sem (call (R.link P) (moduleFn (R.link P) M))).Moves R.Run fun _ => True :=
      ⟨hP.link.op, fun f as _ => linked_run hP M f as, fun f as _ => linked_run hP M f as, hP.link.resolve⟩
    have hflush : (flushing ((R.link P).sem (call (R.link P) (moduleFn (R.link P) M)))).Moves R.Run fun _ => True := by
      refine ⟨hS.op, fun f as _ => ?_, hS.enter, hS.resolve⟩
      unfold flushing
      dsimp only
      split
      · split
        · exact (hS.call _ _ trivial).bind R.run_stepwise fun v =>
            (hS.call _ _ trivial).bind R.run_stepwise fun _ => Comp.moves_pure R.run_stepwise _
        · exact hS.call _ _ trivial
      · exact hS.call _ _ trivial
    exact value_moves R.run_stepwise hflush args body.names_true

namespace RuntimeEnv

variable {R : RuntimeEnv τ}

/-- The call comes from another allocator's code, as its first hook sees it. -/
def isInOtherCMA (R : RuntimeEnv τ) (t : τ) : Bool :=
  isCMAInCallStackSkipOneCMA R.flags.cmaPcRange (R.caller kIsInOtherCMAFName t).trace

theorem callHook_bind {α : Type} {f : String} {as : List ℕ} {k : ℕ → Comp (State × τ) α} {p p' : State × τ}
    {o : Exit α} :
    (R.callHook f as >>= k) p o p' ↔ ∃ v s', R.hook f as p.1 p.2 = some (v, s') ∧ k v (s', p.2) o p' := by
  constructor
  · rintro (⟨v, p₁, ⟨v', s', he, hv, rfl⟩, hk⟩ | ⟨-, v', s', -, hv, -⟩)
    · cases hv
      exact ⟨v, s', he, hk⟩
    · cases hv
  · rintro ⟨v, s', he, hk⟩
    exact .inl ⟨v, _, ⟨v, s', he, rfl, rfl⟩, hk⟩

theorem isInOtherCMA_bind {α : Type} {k : ℕ → Comp (State × τ) α} {p p' : State × τ} {o : Exit α} :
    (R.callHook kIsInOtherCMAFName [] >>= k) p o p' ↔ k (if R.isInOtherCMA p.2 then 1 else 0) p o p' := by
  have he : R.hook kIsInOtherCMAFName [] p.1 p.2 = some (if R.isInOtherCMA p.2 then 1 else 0, p.1) :=
    hook_isInOtherCMA R p.1 p.2 []
  rw [callHook_bind]
  constructor
  · rintro ⟨v, s', h, hk⟩
    obtain ⟨rfl, rfl⟩ := Prod.mk.inj (Option.some.inj (he.symm.trans h))
    exact hk
  · exact fun hk => ⟨_, _, he, hk⟩

theorem callHook_eq_pure {f : String} {as : List ℕ} {v : ℕ}
    (hf : ∀ (s : State) (t : τ), R.hook f as s t = some (v, s)) : R.callHook f as = pure v := by
  apply Comp.ext
  intro p o p'
  constructor
  · rintro ⟨w, s', he, ho, rfl⟩
    rw [hf] at he
    cases he
    exact ⟨ho, rfl⟩
  · rintro ⟨ho, rfl⟩
    exact ⟨v, p'.1, hf _ _, ho, rfl⟩

theorem callHook_extendSize (a b c : ℕ) :
    R.callHook kCMAExtendSizeFName [a, b, c] = pure (extendSize R.flags.rz a b (c ≠ 0)) :=
  callHook_eq_pure fun s t => hook_extendSize R s t a b c

/-- The hooks do nothing for a call from another allocator. -/
theorem callHook_allocateCMAChunk_nested (a b c d : ℕ) :
    R.callHook kAllocateCMAChunkFName [a, b, c, d, 1] = pure 0 := by
  apply callHook_eq_pure
  intro s t
  rw [hook_allocateCMAChunk]
  unfold allocateCMAChunk
  simp

theorem callHook_reallocateCMAChunkStart_nested (a c : ℕ) :
    R.callHook kReallocateCMAChunkStartFName [a, 1, c] = pure 0 := by
  apply callHook_eq_pure
  intro s t
  rw [hook_reallocateCMAChunkStart]
  unfold reallocateCMAChunkStart
  simp

theorem callHook_reallocateCMAChunkEnd_nested (a b c d e : ℕ) :
    R.callHook kReallocateCMAChunkEndFName [a, b, c, d, e, 1] = pure 0 := by
  apply callHook_eq_pure
  intro s t
  rw [hook_reallocateCMAChunkEnd]
  unfold reallocateCMAChunkEnd
  simp

end RuntimeEnv

/-! ### Hand-outs -/

/-- An object that the program got: every byte of it is addressable, and none
behind it up to the end of its tracked range; and the table has it there. -/
structure Guarded (F : Flags) (s : State) (ptr size granularity : ℕ) : Prop where
  addressable : ∀ a, ptr ≤ a → a < ptr + size * granularity → addressIsPoisoned s.shadow a = false
  redzone : ∀ a, ptr + size * granularity ≤ a → a < trackedEnd F.rz ptr size granularity →
    addressIsPoisoned s.shadow a = true
  tracked : ∀ a, a ≠ 0 → roundDownTo ptr 8 ≤ a → a < trackedEnd F.rz ptr size granularity →
    ∃ c, tltGet s.tlt a = some c ∧ (s.tlt.info c).startAddr = ptr ∧
      (s.tlt.info c).chunkSize = size * granularity ∧ (s.tlt.info c).status = .allocated

theorem Guarded.congr {F : Flags} {s s' : State} {ptr size granularity : ℕ} (h : Guarded F s ptr size granularity)
    (ht : s'.tlt = s.tlt) (hs : s'.shadow = s.shadow) : Guarded F s' ptr size granularity := by
  refine ⟨?_, ?_, ?_⟩
  · rw [hs]
    exact h.addressable
  · rw [hs]
    exact h.redzone
  · rw [ht]
    exact h.tracked

theorem guarded_of_impl {F : Flags} (hpoison : F.canPoisonMemory = true) {k : Caller} {s s' : State} (h : s.Inv)
    {ptr size granularity id : ℕ} (hr : ExtendedRequest F.rz ptr size granularity)
    (he : allocateCMAChunkImpl F k s ptr size granularity id = some s') : Guarded F s' ptr size granularity := by
  have hE := hr.end_bounds
  have hreg := hr.region_le
  obtain ⟨s₁, he₁, htr, hend⟩ := allocateCMAChunkImpl_trackedFor h hr k id
  obtain rfl := Option.some.inj (he₁.symm.trans he)
  obtain ⟨t', -, he₂⟩ := allocateCMAChunkImpl_extended h (Nat.one_le_iff_ne_zero.mp hr.size_pos)
    (Nat.one_le_iff_ne_zero.mp hr.granularity_pos) hr.product_lt hr.extended
    (show ptr + extendSize F.rz size granularity false * granularity + 8 < 2 ^ 64 by omega) k id
  have hsh : s₁.shadow = newChunkShadow F.canPoisonMemory s.shadow ptr (size * granularity)
      (trackedEnd F.rz ptr size granularity) := congrArg State.shadow (Option.some.inj (he₁.symm.trans he₂))
  refine ⟨fun a hlo hhi => ?_, fun a hlo hhi => ?_, fun a ha hlo hhi => ?_⟩
  · rw [hsh]
    exact newChunkShadow_addressable _ _ (by omega) hlo hhi
  · rw [hsh, hpoison]
    exact newChunkShadow_redzone _ hE.2.2.2 hlo hhi
  · exact ⟨_, htr.get a ha hlo (hend ▸ hhi), htr.start, htr.chunkSize, htr.status⟩

section HandOut

variable {R : RuntimeEnv τ} {S : Sem String Op (State × τ)} {F : IrFunction Op} {body : Func String Op}
  {info : CMAInfo} {args : ℕ → ℕ} {p p' : State × τ} {ptr : ℕ} (hS : OnRuntime R S body)
  (hsize : info.sizeIdx ≠ -1) (hnum : info.cmaType = .calloc → info.numIdx ≠ -1)
  (hout : R.isInOtherCMA p.2 = false)

/-- The arguments, where the size is the extended one. -/
def extendedArgs (R : RuntimeEnv τ) (F : IrFunction Op) (info : CMAInfo) (args : ℕ → ℕ) : ℕ → ℕ :=
  Function.update args (argIdx info.sizeIdx)
    (extendSize R.flags.rz (args (argIdx info.sizeIdx)) (granularity F info args) false)

/-- The runtime when the body starts: only the start hook of a `REALLOC` changes it. -/
def entryState (R : RuntimeEnv τ) (F : IrFunction Op) (info : CMAInfo) (args : ℕ → ℕ) (s : State) : State :=
  if info.cmaType = .realloc then
    reallocateCMAChunkStart R.flags s (args (argIdx info.ptrIdx)) false (zoneId F info args)
  else s

include hsize hnum in
theorem not_untracked : ¬ (info.sizeIdx = -1 ∨ info.cmaType = .calloc ∧ info.numIdx = -1) := by
  rintro (h | ⟨hc, h⟩)
  · exact hsize h
  · exact hnum hc h

include hS hsize hnum hout

/-- **`ALLOC` and `CALLOC`** of the program: the body with the extended size,
then the hook. -/
theorem hookedAlloc_runs (hre : info.cmaType ≠ .realloc) (h : hookedAlloc S F body info args p (.ok ptr) p') :
    ∃ p₁, body.value S (extendedArgs R F info args) p (.ok ptr) p₁ ∧ p'.2 = p₁.2 ∧
      allocateCMAChunk R.flags (R.caller kAllocateCMAChunkFName p₁.2) p₁.1 ptr (args (argIdx info.sizeIdx))
        (granularity F info args) (zoneId F info args) false = some p'.1 := by
  unfold hookedAlloc at h
  rw [hS.hook _ (by decide), hS.hook _ (by decide), RuntimeEnv.isInOtherCMA_bind, hout,
    if_neg (not_untracked hsize hnum)] at h
  dsimp only at h
  rw [RuntimeEnv.callHook_extendSize, pure_bind, if_neg hre] at h
  obtain ⟨ptr', p₁, hbody, h⟩ := Comp.bind_ok_iff.mp h
  rw [hS.hook _ (by decide)] at h
  obtain ⟨v, s', he, ho, rfl⟩ := RuntimeEnv.callHook_bind.mp h
  cases ho
  rw [RuntimeEnv.hook_allocateCMAChunk] at he
  obtain ⟨s₁, h₁, h₂⟩ := Option.map_eq_some_iff.mp he
  cases h₂
  exact ⟨p₁, by simpa [extendedArgs] using hbody, rfl, by simpa using h₁⟩

/-- **`REALLOC`** of the program: the body between the two hooks, with the
extended size. -/
theorem hookedRealloc_runs (hre : info.cmaType = .realloc) (h : hookedAlloc S F body info args p (.ok ptr) p') :
    ∃ p₁, body.value S (extendedArgs R F info args)
        (reallocateCMAChunkStart R.flags p.1 (args (argIdx info.ptrIdx)) false (zoneId F info args), p.2) (.ok ptr) p₁ ∧
      p'.2 = p₁.2 ∧
      reallocateCMAChunkEnd R.flags (R.caller kReallocateCMAChunkEndFName p₁.2) p₁.1 (args (argIdx info.ptrIdx)) ptr
        (args (argIdx info.sizeIdx)) (granularity F info args) (zoneId F info args) false = some p'.1 := by
  unfold hookedAlloc at h
  rw [hS.hook _ (by decide), hS.hook _ (by decide), RuntimeEnv.isInOtherCMA_bind, hout,
    if_neg (not_untracked hsize hnum)] at h
  dsimp only at h
  rw [RuntimeEnv.callHook_extendSize, pure_bind, if_pos hre, hS.hook _ (by decide), RuntimeEnv.callHook_bind] at h
  obtain ⟨v, s₁, hstart, h⟩ := h
  rw [RuntimeEnv.hook_reallocateCMAChunkStart] at hstart
  cases hstart
  obtain ⟨ptr', p₁, hbody, h⟩ := Comp.bind_ok_iff.mp h
  rw [hS.hook _ (by decide)] at h
  obtain ⟨v, s', he, ho, rfl⟩ := RuntimeEnv.callHook_bind.mp h
  cases ho
  rw [RuntimeEnv.hook_reallocateCMAChunkEnd] at he
  obtain ⟨s₁, h₁, h₂⟩ := Option.map_eq_some_iff.mp he
  cases h₂
  exact ⟨p₁, by simpa [extendedArgs] using hbody, rfl, by simpa using h₁⟩

/-- **What a hand-out leaves**, whichever of the three types it is of. -/
theorem hookedAlloc_handsOut (hpoison : R.flags.canPoisonMemory = true) (hi : p.1.Inv)
    (hr : ExtendedRequest R.flags.rz ptr (args (argIdx info.sizeIdx)) (granularity F info args))
    (h : hookedAlloc S F body info args p (.ok ptr) p') :
    (∃ p₁, body.value S (extendedArgs R F info args) (entryState R F info args p.1, p.2) (.ok ptr) p₁ ∧
      p'.2 = p₁.2) ∧ Guarded R.flags p'.1 ptr (args (argIdx info.sizeIdx)) (granularity F info args) := by
  have hp : ptr ≠ 0 := Nat.pos_iff_ne_zero.mp hr.ptr_pos
  unfold entryState
  by_cases hre : info.cmaType = .realloc
  · obtain ⟨p₁, hbody, hrest, he⟩ := hookedRealloc_runs hS hsize hnum hout hre h
    rw [if_pos hre]
    refine ⟨⟨p₁, hbody, hrest⟩, ?_⟩
    have hstart := reallocateCMAChunkStart_inv (F := R.flags) hi (args (argIdx info.ptrIdx)) (zoneId F info args) false
    have hi₁ : p₁.1.Inv := (hS.body _ _ _ _ hbody).inv hstart
    rcases reallocateCMAChunkEnd_path he with ⟨hb | h0 | h0, -⟩ | ⟨-, s₁, s₂, h₁, h₂, he⟩
    · cases hb
    · exact absurd h0 hp
    · exact absurd h0 (Nat.one_le_iff_ne_zero.mp hr.size_pos)
    · rw [he]
      exact (guarded_of_impl hpoison (releaseOldChunk_inv hi₁.lock h₁) hr h₂).congr (by simp) (by simp)
  · obtain ⟨p₁, hbody, hrest, he⟩ := hookedAlloc_runs hS hsize hnum hout hre h
    rw [if_neg hre]
    refine ⟨⟨p₁, hbody, hrest⟩, ?_⟩
    have hi₁ : p₁.1.Inv := (hS.body _ _ _ _ hbody).inv hi
    obtain ⟨s₁, h₁, he⟩ := allocateCMAChunk_impl hp he
    rw [he]
    exact (guarded_of_impl hpoison hi₁.lock hr h₁).congr (by simp) (by simp)

end HandOut

/-! ### Frees -/

/-- A release of the chunk `c` at `ptr` that gives `r`: the range of the chunk is
poisoned, its pointer is the last of the queue of `id`, and what is given was
in the queue. -/
structure Quarantined (s s' : State) (ptr id r c : ℕ) : Prop where
  poisoned : RangePoisoned (s.tlt.info c) s'.shadow
  status : (s'.tlt.info c).status = .deallocated
  queued : ∃ rest, s'.qz.chunks id = rest ++ [(s.tlt.info c).queued ptr] ∧ rest <:+ s.qz.chunks id
  given : r = 0 ∨ r ∈ (s.qz.chunks id).map (·.ptr)

theorem quarantined_of_release {F : Flags} (hon : F.isQuarantineZoneOn = true) (hpoison : F.canPoisonMemory = true)
    {k : Caller} {s s' : State} (h : s.Inv) {ptr id r c : ℕ} (hget : tltGet s.tlt ptr = some c)
    (hstart : (s.tlt.info c).startAddr = ptr) (hst : (s.tlt.info c).status ≠ .inRealloc)
    (h48 : (s.tlt.info c).endAddr ≤ 2 ^ 48) (he : releaseCMAChunk F k s ptr id false = some (r, s')) :
    Quarantined s s' ptr id r c := by
  obtain ⟨hr, -⟩ := releaseCMAChunk_retires hget hstart (fun _ => hst) he
  have hinfo : s'.tlt.info c = (s.tlt.info c).released k id := hr.info
  have hid : (s'.tlt.info c).cmaId = id := by
    rw [hinfo]
    rfl
  have hget' : tltGet s'.tlt ptr = some c := (hr.tltGet_eq (by simp [ChunkInfo.released]) ptr).trans hget
  obtain ⟨q', hq, -, hchunks, -⟩ := pushAndPop_spec hon h.qz hget'
  rw [hid] at hq hchunks
  obtain ⟨hpop, hqz⟩ := Prod.mk.inj (Option.some.inj (hr.popped.symm.trans hq))
  refine ⟨releaseCMAChunk_poisons hpoison h hget hstart (fun _ => hst) h48 he, ?_, ?_, ?_⟩
  · rw [hinfo]
    rfl
  · refine ⟨_, ?_, popped_suffix F s'.tlt (s.qz.zone id) id (s.qz.chunks id)⟩
    rw [hqz, hchunks, if_pos rfl, hinfo]
    rfl
  · rcases popped_cases F s'.tlt (s.qz.zone id) id (s.qz.chunks id) with h0 | ⟨pre, q, hpre, hptr⟩
    · exact .inl (hpop.trans h0)
    · refine .inr (List.mem_map.mpr ⟨q, ?_, hptr.trans hpop.symm⟩)
      rw [hpre]
      exact List.mem_append_right _ List.mem_cons_self

section Free

variable {R : RuntimeEnv τ} {S : Sem String Op (State × τ)} {F : IrFunction Op} {body : Func String Op}
  {info : CMAInfo} {args : ℕ → ℕ} {p p' : State × τ} {o : Exit ℕ} (hS : OnRuntime R S body)

/-- What comes after the release hook gave `r`. -/
def AfterRelease (S : Sem String Op (State × τ)) (F : IrFunction Op) (body : Func String Op) (info : CMAInfo)
    (args : ℕ → ℕ) (r : ℕ) (p : State × τ) (o : Exit ℕ) (p' : State × τ) : Prop :=
  (r = 0 ∧ earlyReturn F.retTy ≠ none → ∃ v, earlyReturn F.retTy = some v ∧ o = .ok v ∧ p' = p) ∧
    (¬ (r = 0 ∧ earlyReturn F.retTy ≠ none) →
      body.value S (Function.update args (argIdx info.ptrIdx) r) p o p')

include hS

/-- **`FREE`**: the release hook, and then the body on what it gives. -/
theorem hookedFree_runs (hptr : info.ptrIdx ≠ -1) (h : hookedFree S F body info args p o p') :
    ∃ r s, releaseCMAChunk R.flags (R.caller kReleaseCMAChunkFName p.2) p.1 (args (argIdx info.ptrIdx))
        (zoneId F info args) (R.isInOtherCMA p.2) = some (r, s) ∧
      AfterRelease S F body info args r (s, p.2) o p' := by
  unfold hookedFree at h
  rw [hS.hook _ (by decide), hS.hook _ (by decide), RuntimeEnv.isInOtherCMA_bind, if_neg hptr,
    RuntimeEnv.callHook_bind] at h
  obtain ⟨r, s, he, h⟩ := h
  rw [RuntimeEnv.hook_releaseCMAChunk] at he
  refine ⟨r, s, ?_, ?_⟩
  · rw [← he]
    congr 1
    cases R.isInOtherCMA p.2 <;> rfl
  · unfold AfterRelease
    cases hret : earlyReturn F.retTy with
    | none =>
      rw [hret] at h
      exact ⟨fun hn => absurd rfl hn.2, fun _ => h⟩
    | some v =>
      rw [hret] at h
      change (if r = 0 then pure v else body.value S _ : Comp (State × τ) ℕ) (s, p.2) o p' at h
      by_cases h0 : r = 0
      · rw [if_pos h0] at h
        exact ⟨fun _ => ⟨v, rfl, h.1, h.2⟩, fun hn => absurd ⟨h0, by simp⟩ hn⟩
      · rw [if_neg h0] at h
        exact ⟨fun hn => absurd hn.1 h0, fun _ => h⟩

end Free

/-! ### Calls from another allocator -/

section Nested

variable {R : RuntimeEnv τ} {S : Sem String Op (State × τ)} {F : IrFunction Op} {body : Func String Op}
  {info : CMAInfo} {args : ℕ → ℕ} {p p' : State × τ} {o : Exit ℕ} (hS : OnRuntime R S body)
  (hin : R.isInOtherCMA p.2 = true)

include hS hin

/-- **`ALLOC`, `CALLOC` and `REALLOC`** in another allocator do what they did. -/
theorem hookedAlloc_nested : hookedAlloc S F body info args p o p' ↔ body.value S args p o p' := by
  unfold hookedAlloc
  rw [hS.hook _ (by decide), hS.hook _ (by decide), RuntimeEnv.isInOtherCMA_bind, hin, if_pos rfl]
  by_cases hun : info.sizeIdx = -1 ∨ info.cmaType = .calloc ∧ info.numIdx = -1
  · rw [if_pos hun]
  rw [if_neg hun]
  have hsize : extendSize R.flags.rz (args (argIdx info.sizeIdx)) (granularity F info args) (decide (1 ≠ 0)) =
      args (argIdx info.sizeIdx) := by
    unfold extendSize
    simp
  dsimp only
  rw [RuntimeEnv.callHook_extendSize, pure_bind, hsize, Function.update_eq_self]
  by_cases hre : info.cmaType = .realloc
  · simp only [if_pos hre, hS.hook _ (show kReallocateCMAChunkStartFName ∈ hookNames by decide),
      hS.hook _ (show kReallocateCMAChunkEndFName ∈ hookNames by decide),
      RuntimeEnv.callHook_reallocateCMAChunkStart_nested, RuntimeEnv.callHook_reallocateCMAChunkEnd_nested,
      pure_bind, bind_pure]
  · simp only [if_neg hre, hS.hook _ (show kAllocateCMAChunkFName ∈ hookNames by decide),
      RuntimeEnv.callHook_allocateCMAChunk_nested, pure_bind, bind_pure]

/-- **`FREE`** in another allocator does what it did, unless there is nothing to
free or the object is in a `realloc`. -/
theorem hookedFree_nested (hptr : info.ptrIdx ≠ -1) (hp : args (argIdx info.ptrIdx) ≠ 0)
    (hst : R.flags.isQuarantineZoneOn = true → ∀ c, tltGet p.1.tlt (args (argIdx info.ptrIdx)) = some c →
      (p.1.tlt.info c).status ≠ .inRealloc) (h : hookedFree S F body info args p o p') :
    ∃ s, State.Same p.1 s ∧ body.value S args (s, p.2) o p' := by
  obtain ⟨r, s, he, hafter⟩ := hookedFree_runs hS hptr h
  rw [hin] at he
  rcases releaseCMAChunk_cases he with ⟨rfl, hsame, -⟩ | ⟨c, hon, hre, hr, -⟩ | ⟨c, hb, -⟩
  · refine ⟨s, hsame, ?_⟩
    have hrun := hafter.2 fun h0 => hp h0.1
    rwa [Function.update_eq_self] at hrun
  · exact absurd hre (hst hon c hr.get)
  · cases hb

end Nested

/-! ### The pool on the runtime -/

/-- A base allocator that has one block. -/
def poolBase : Machine String Unit (State × Unit) :=
  ⟨fun _ _ => pure 0, fun f _ => pure (if f = "base_alloc" then 0x602000000010 else 0), fun _ => none⟩

/-- The pool's runtime, with the call stack that the hooks see. -/
def poolEnv (trace : List ℕ) : RuntimeEnv Unit :=
  ⟨{ cmaPcRange := [(0x100, 0x1ff), (0x400, 0x4ff)], rz := .default }, false, fun _ _ => { trace }⟩

theorem poolBase_outside (trace : List ℕ) : (poolEnv trace).Outside poolBase := by
  refine ⟨fun o as => ?_, fun f as _ => ?_, fun p f h => by cases h⟩
  · rintro s o s' ⟨-, rfl⟩
    exact .refl
  · rintro s o s' ⟨-, rfl⟩
    exact .refl

theorem pool_run {trace : List ℕ} {f : String} {F : IrFunction Unit} {body : Func String Unit}
    (hF : poolModule.find? (·.name = f) = some F) (ht : F.target = some body) {as : List ℕ} {p p' : State × Unit}
    {o : Exit ℕ}
    (h : ∀ S : Sem String Unit (State × Unit), (∀ f ∈ hookNames, S.call f = (poolEnv trace).callHook f) →
      (∀ as, S.call "base_alloc" as = pure 0x602000000010) → (∀ as, S.call "base_free" as = pure 0) →
        hooked S F body (getCMAInfo poolInfo F.name) (argsOf as) p o p') :
    call ((poolEnv trace).link poolBase) (moduleFn ((poolEnv trace).link poolBase) poolInstrumented) f as p o p' := by
  have hall := instrumentCMA_forall₂ poolModule_verified poolModule_distinct poolModule_instrumented
  rw [moduleFn_instrumented hall]
  generalize hX : (poolEnv trace).link poolBase = X
  have hfn : instrumentedFn X poolInfo (poolModule.map (·.markTarget [])) f =
      some fun c as => instrumented poolInfo F body (X.sem c) (argsOf as) := by
    show (poolModule.find? (·.name = f)).bind _ = _
    rw [hF, Option.bind_some, IrFunction.body_of_target ht]
    rfl
  refine call_of_run hfn 0 as _ _ _ ?_
  have hcall : ∀ g, instrumentedFn X poolInfo (poolModule.map (·.markTarget [])) g = none → g ≠ "munmap" → ∀ as,
      (flushing (X.sem (callN X (instrumentedFn X poolInfo (poolModule.map (·.markTarget []))) 0))).call g as =
        X.external g as := by
    intro g hg hne as
    rw [flushing_call_of_ne hne]
    show callN _ _ 0 g as = _
    rw [callN_external hg]
  unfold instrumented
  rw [ht]
  subst hX
  refine h _ (fun g hg => ?_) (fun as => hcall "base_alloc" rfl (by decide) as)
    fun as => hcall "base_free" rfl (by decide) as
  funext as
  rw [hcall g _ _ as]
  · exact if_pos hg
  · simp only [hookNames, List.mem_cons, List.not_mem_nil, or_false] at hg
    rcases hg with rfl | rfl | rfl | rfl | rfl | rfl | rfl | rfl | rfl | rfl | rfl <;> rfl
  · rintro rfl
    exact absurd hg (by decide)

theorem poolAllocBody_value {S : Sem String Unit (State × Unit)}
    (h : ∀ as, S.call "base_alloc" as = pure 0x602000000010)
    (args : ℕ → ℕ) : poolAllocBody.value S args = pure 0x602000000010 := by
  rw [value_singleton rfl rfl rfl]
  simp only [execInstrs, Instr.exec, Callee.call, h, pure_bind, setDst]
  rfl

/-- `pool_alloc` of 32 bytes, called by the program. -/
theorem pool_alloc_run : ∃ s, call ((poolEnv []).link poolBase) (moduleFn ((poolEnv []).link poolBase) poolInstrumented)
    "pool_alloc" [32] (.initial, ()) (.ok 0x602000000010) (s, ()) := by
  have hret : (allocateCMAChunk (poolEnv []).flags {} .initial 0x602000000010 32 1 1 false).isSome := by decide +kernel
  obtain ⟨s, hs⟩ := Option.isSome_iff_exists.mp hret
  refine ⟨s, pool_run (F := poolAlloc) rfl rfl fun S hhook halloc _ => ?_⟩
  show hookedAlloc S poolAlloc poolAllocBody _ _ _ _ _
  unfold hookedAlloc
  rw [hhook _ (by decide), hhook _ (by decide), RuntimeEnv.isInOtherCMA_bind, if_neg (by decide)]
  dsimp only
  rw [RuntimeEnv.callHook_extendSize, pure_bind, if_neg (by decide), poolAllocBody_value halloc, pure_bind,
    hhook _ (by decide)]
  refine RuntimeEnv.callHook_bind.mpr ⟨0, s, ?_, rfl, rfl⟩
  rw [RuntimeEnv.hook_allocateCMAChunk]
  show (allocateCMAChunk (poolEnv []).flags {} .initial 0x602000000010 32 1 1 false).map _ = _
  rw [hs]
  rfl

theorem pool_alloc_run_nested : call ((poolEnv [0x111, 0x411]).link poolBase)
    (moduleFn ((poolEnv [0x111, 0x411]).link poolBase) poolInstrumented) "pool_alloc" [32] (.initial, ())
      (.ok 0x602000000010) (.initial, ()) := by
  refine pool_run (F := poolAlloc) rfl rfl fun S hhook halloc _ => ?_
  show hookedAlloc S poolAlloc poolAllocBody _ _ _ _ _
  unfold hookedAlloc
  rw [hhook _ (by decide), hhook _ (by decide), RuntimeEnv.isInOtherCMA_bind, if_neg (by decide)]
  dsimp only
  rw [RuntimeEnv.callHook_extendSize, pure_bind, if_neg (by decide), poolAllocBody_value halloc, pure_bind,
    hhook _ (by decide)]
  exact RuntimeEnv.callHook_bind.mpr ⟨0, .initial, RuntimeEnv.hook_allocateCMAChunk _ _ _ _ _ _ _ _, rfl, rfl⟩

theorem pool_free_run {s₁ s₂ : State}
    (h : releaseCMAChunk (poolEnv []).flags {} s₁ 0x602000000010 1 false = some (0, s₂)) :
    call ((poolEnv []).link poolBase) (moduleFn ((poolEnv []).link poolBase) poolInstrumented) "pool_free"
      [0x602000000010] (s₁, ()) (.ok 0) (s₂, ()) := by
  refine pool_run (F := poolFree) rfl rfl fun S hhook _ _ => ?_
  show hookedFree S poolFree poolFreeBody _ _ _ _ _
  unfold hookedFree
  rw [hhook _ (by decide), hhook _ (by decide), RuntimeEnv.isInOtherCMA_bind, if_neg (by decide)]
  refine RuntimeEnv.callHook_bind.mpr ⟨0, s₂, ?_, rfl, rfl⟩
  rw [RuntimeEnv.hook_releaseCMAChunk]
  exact h

/-! ### Modules -/

section Module

variable {infoMap infoMap' : String → Option CMAInfo} {annos : List (String × List Char)}
  {M M' : List (IrFunction Op)} {names : List String} (hv : ∀ F ∈ M, ∀ body, F.body = some body → body.Verified)
  (hd : ∀ F ∈ M, (getCMAInfo infoMap' F.name).Distinct)
  (h : instrumentCMA infoMap annos M = some (M', infoMap', names)) (hM : ∀ F ∈ M, F.name ∉ hookNames)
  {R : RuntimeEnv τ} {P : Machine String Op (State × τ)} (hP : R.Outside P) {F : IrFunction Op}
  {body : Func String Op}

include hv hd h hM hP in
/-- A call of an instrumented function on the runtime. -/
theorem instrumentCMA_linked (ht : F.target = some body)
    (hF : (M.map (·.markTarget annos)).find? (·.name = F.name) = some F)
    (as : List ℕ) :
    let S := flushing ((R.link P).sem (call (R.link P) (moduleFn (R.link P) M')))
    OnRuntime R S body ∧ call (R.link P) (moduleFn (R.link P) M') F.name as ≤
      hooked S F body (getCMAInfo infoMap' F.name) (argsOf as) := by
  have hall := instrumentCMA_forall₂ hv hd h
  refine ⟨onRuntime_of_link hP (fun f hf => ?_) body, instrumented_le hall (R.link P) hF ht as⟩
  rcases find?_instrumented hall f with ⟨-, hnone⟩ | ⟨F₁, -, hfind, -, -⟩
  · exact hnone
  · obtain ⟨F₀, hF₀, rfl⟩ := List.mem_map.mp (List.mem_of_find?_eq_some hfind)
    have hname : (F₀.markTarget annos).name = f := by simpa using List.find?_some hfind
    rw [markTarget_name] at hname
    exact absurd (hname ▸ hf) (hM F₀ hF₀)

include hv hd h hM hP in
/-- **What becomes of a freed object**: it is poisoned and queued before the
allocator's code runs, which then gets a pointer that was freed before, or does
not run. -/
theorem instrumented_free (ht : F.target = some body)
    (hF : (M.map (·.markTarget annos)).find? (·.name = F.name) = some F) {info : CMAInfo}
    (hinfo : getCMAInfo infoMap' F.name = info) (hty : info.cmaType = .free) (hptr : info.ptrIdx ≠ -1)
    (hon : R.flags.isQuarantineZoneOn = true) (hpoison : R.flags.canPoisonMemory = true) {as : List ℕ}
    {p p' : State × τ} {o : Exit ℕ} {c : ℕ} (hi : p.1.Inv) (hout : R.isInOtherCMA p.2 = false)
    (hget : tltGet p.1.tlt (argsOf as (argIdx info.ptrIdx)) = some c)
    (hstart : (p.1.tlt.info c).startAddr = argsOf as (argIdx info.ptrIdx))
    (hst : (p.1.tlt.info c).status ≠ .inRealloc) (h48 : (p.1.tlt.info c).endAddr ≤ 2 ^ 48)
    (hrun : call (R.link P) (moduleFn (R.link P) M') F.name as p o p') :
    ∃ r s, Quarantined p.1 s (argsOf as (argIdx info.ptrIdx)) (zoneId F info (argsOf as)) r c ∧
      AfterRelease (flushing ((R.link P).sem (call (R.link P) (moduleFn (R.link P) M')))) F body info (argsOf as) r
        (s, p.2) o p' := by
  obtain ⟨hS, hle⟩ := instrumentCMA_linked hv hd h hM hP ht hF as
  have hhooked := hle _ _ _ hrun
  rw [hinfo] at hhooked
  unfold hooked at hhooked
  rw [hty] at hhooked
  obtain ⟨r, s, he, hafter⟩ := hookedFree_runs hS hptr hhooked
  rw [hout] at he
  exact ⟨r, s, quarantined_of_release hon hpoison hi hget hstart hst h48 he, hafter⟩

theorem instrumented_free_pool : ∃ s₁ s₂ : State,
    allocateCMAChunk (poolEnv []).flags {} .initial 0x602000000010 32 1 1 false = some s₁ ∧
      call ((poolEnv []).link poolBase) (moduleFn ((poolEnv []).link poolBase) poolInstrumented) "pool_free"
        [0x602000000010] (s₁, ()) (.ok 0) (s₂, ()) ∧ Quarantined s₁ s₂ 0x602000000010 1 0 0 := by
  have h : ((allocateCMAChunk (poolEnv []).flags {} .initial 0x602000000010 32 1 1 false).bind fun s₁ =>
      (releaseCMAChunk (poolEnv []).flags {} s₁ 0x602000000010 1 false).map fun x =>
        decide (x.1 = 0 ∧ tltGet s₁.tlt 0x602000000010 = some 0 ∧ (s₁.tlt.info 0).startAddr = 0x602000000010 ∧
          (s₁.tlt.info 0).status ≠ .inRealloc ∧ (s₁.tlt.info 0).endAddr ≤ 2 ^ 48 ∧ (s₁.qz.chunks 1).map (·.ptr) = [])) =
        some true := by
    decide +kernel
  obtain ⟨s₁, h₁, h⟩ := Option.bind_eq_some_iff.mp h
  obtain ⟨⟨r, s₂⟩, h₂, h⟩ := Option.map_eq_some_iff.mp h
  obtain ⟨hr, hget, hstart, hst, h48, hempty⟩ := of_decide_eq_true h
  dsimp only at hr
  subst hr
  have hrun := pool_free_run h₂
  refine ⟨s₁, s₂, h₁, hrun, ?_⟩
  have hi : s₁.Inv := hookStep_inv (e := .allocate {} 0x602000000010 32 1 1 false) State.initial_inv h₁
  obtain ⟨r, s, hq, hafter⟩ := instrumented_free poolModule_verified poolModule_distinct poolModule_instrumented
    (fun F hF => (poolModule_noHooks F hF).1) (poolBase_outside []) (F := poolFree) rfl rfl rfl rfl (by decide) rfl rfl
    hi rfl hget hstart hst h48 hrun
  have h0 : r = 0 := by
    rcases hq.given with h0 | hm
    · exact h0
    · have hm : r ∈ (s₁.qz.chunks 1).map (·.ptr) := hm
      rw [hempty] at hm
      cases hm
  subst h0
  obtain ⟨v, -, -, he⟩ := hafter.1 ⟨rfl, by decide⟩
  cases he
  exact hq

include hv hd h hM hP in
/-- **What one allocator asks of another** is not tracked: the inner one's code
is run with the arguments as they are. -/
theorem instrumented_nested (ht : F.target = some body)
    (hF : (M.map (·.markTarget annos)).find? (·.name = F.name) = some F) {info : CMAInfo}
    (hinfo : getCMAInfo infoMap' F.name = info) (hty : info.cmaType ∈ [CMAType.alloc, .calloc, .realloc, .free])
    {as : List ℕ} {p p' : State × τ} {o : Exit ℕ} (hin : R.isInOtherCMA p.2 = true)
    (hfree : info.cmaType = .free → info.ptrIdx ≠ -1 ∧ argsOf as (argIdx info.ptrIdx) ≠ 0 ∧
      (R.flags.isQuarantineZoneOn = true → ∀ c, tltGet p.1.tlt (argsOf as (argIdx info.ptrIdx)) = some c →
        (p.1.tlt.info c).status ≠ .inRealloc))
    (hrun : call (R.link P) (moduleFn (R.link P) M') F.name as p o p') :
    ∃ s, State.Same p.1 s ∧
      body.value (flushing ((R.link P).sem (call (R.link P) (moduleFn (R.link P) M')))) (argsOf as) (s, p.2) o p' := by
  obtain ⟨hS, hle⟩ := instrumentCMA_linked hv hd h hM hP ht hF as
  have hhooked := hle _ _ _ hrun
  rw [hinfo] at hhooked
  unfold hooked at hhooked
  simp only [List.mem_cons, List.not_mem_nil, or_false] at hty
  rcases hty with hty | hty | hty | hty
  · rw [hty] at hhooked
    exact ⟨p.1, .refl, (hookedAlloc_nested hS hin).mp hhooked⟩
  · rw [hty] at hhooked
    exact ⟨p.1, .refl, (hookedAlloc_nested hS hin).mp hhooked⟩
  · rw [hty] at hhooked
    exact ⟨p.1, .refl, (hookedAlloc_nested hS hin).mp hhooked⟩
  · rw [hty] at hhooked
    obtain ⟨hptr, hp, hst⟩ := hfree hty
    exact hookedFree_nested hS hin hptr hp hst hhooked

theorem instrumented_nested_pool : ∃ s, State.Same .initial s ∧
    poolAllocBody.value (flushing (((poolEnv [0x111, 0x411]).link poolBase).sem
      (call ((poolEnv [0x111, 0x411]).link poolBase)
        (moduleFn ((poolEnv [0x111, 0x411]).link poolBase) poolInstrumented)))) (argsOf [32]) (s, ())
      (.ok 0x602000000010) (.initial, ()) :=
  instrumented_nested poolModule_verified poolModule_distinct poolModule_instrumented
    (fun F hF => (poolModule_noHooks F hF).1) (poolBase_outside [0x111, 0x411]) (F := poolAlloc) rfl rfl rfl (by decide)
    (by decide) (fun h => absurd h (by decide)) pool_alloc_run_nested

end Module

end Cmasan
