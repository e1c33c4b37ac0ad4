/-
# The order of the hooks

In which order an instrumented program calls the hooks, and with what: the
grammar `Protocol`. A hand-out is told to the runtime with the size, the
granularity and the flag that the size was extended with, and after everything
that the allocator has done in between; a `realloc` ends with the pointer, the
id and the flag that it started with. Where the allocator unwinds, the hooks
at its returns are not called. This holds of every run of an instrumented
module, nested, recursive or through pointers, however it ends
(`instrumentCMA_protocol`).

Key definitions: `HookEvent`, `Protocol`, `Traced`.
Key theorems: `hooked_protocol`, `instrumentCMA_protocol`.
-/
import Cmasan.InstrumentModule
import Cmasan.Lib.SsaRuns

namespace Cmasan

open Lib Ssa

variable {Op σ : Type}

/-- The functions of the runtime that the pass calls. -/
def hookNames : List String :=
  [kIsInOtherCMAFName, kCMAExtendSizeFName, kAllocateCMAChunkFName, kReallocateCMAChunkStartFName,
    kReallocateCMAChunkEndFName, kReleaseCMAChunkFName, kCMAClearCMAChunksFName, kCMAEmptyQuarantineOnGC,
    kCMASizeGetterFName, kLogCMARelatedFName, kCMAFlushMmapRangeFName]

/-- A call of a hook and what it returned. -/
structure HookEvent where
  name : String
  args : List ℕ
  value : ℕ
  deriving DecidableEq, Repr

/-- The orders that hooks are called in. The flag `c` of a hook is what
`__asan_isInOtherCMA` returned in the same call of the function. -/
inductive Protocol : List HookEvent → Prop
  | nil : Protocol []
  | append {t u : List HookEvent} : Protocol t → Protocol u → Protocol (t ++ u)
  | inCMA (c : ℕ) : Protocol [⟨kIsInOtherCMAFName, [], c⟩]
  | extend (c size g e : ℕ) :
    Protocol [⟨kIsInOtherCMAFName, [], c⟩, ⟨kCMAExtendSizeFName, [size, g, c], e⟩]
  | alloc {t : List HookEvent} (c size g e ptr id v : ℕ) : Protocol t →
    Protocol (⟨kIsInOtherCMAFName, [], c⟩ :: ⟨kCMAExtendSizeFName, [size, g, c], e⟩ :: t ++
      [⟨kAllocateCMAChunkFName, [ptr, size, g, id, c], v⟩])
  | start (c size g e oldPtr id v : ℕ) :
    Protocol [⟨kIsInOtherCMAFName, [], c⟩, ⟨kCMAExtendSizeFName, [size, g, c], e⟩,
      ⟨kReallocateCMAChunkStartFName, [oldPtr, c, id], v⟩]
  | realloc {t : List HookEvent} (c size g e oldPtr newPtr id v w : ℕ) : Protocol t →
    Protocol (⟨kIsInOtherCMAFName, [], c⟩ :: ⟨kCMAExtendSizeFName, [size, g, c], e⟩ ::
      ⟨kReallocateCMAChunkStartFName, [oldPtr, c, id], v⟩ :: t ++
        [⟨kReallocateCMAChunkEndFName, [oldPtr, newPtr, size, g, id, c], w⟩])
  | release (c ptr id v : ℕ) :
    Protocol [⟨kIsInOtherCMAFName, [], c⟩, ⟨kReleaseCMAChunkFName, [ptr, id, c], v⟩]
  | clear (c id v : ℕ) : Protocol [⟨kIsInOtherCMAFName, [], c⟩, ⟨kCMAClearCMAChunksFName, [id], v⟩]
  | gc (c id v : ℕ) : Protocol [⟨kIsInOtherCMAFName, [], c⟩, ⟨kCMAEmptyQuarantineOnGC, [id], v⟩]
  | size (ptr original v : ℕ) : Protocol [⟨kCMASizeGetterFName, [ptr, original], v⟩]
  | log (v : ℕ) : Protocol [⟨kLogCMARelatedFName, [], v⟩]
  | flush (ptr size v : ℕ) : Protocol [⟨kCMAFlushMmapRangeFName, [ptr, size], v⟩]

/-- From `s` to `s'` the hooks were called in an order of the protocol. -/
def Obeys (log : σ → List HookEvent) (s s' : σ) : Prop := ∃ t, Protocol t ∧ log s' = log s ++ t

theorem obeys_stepwise (log : σ → List HookEvent) : Comp.Stepwise (Obeys log) where
  refl s := ⟨[], .nil, (List.append_nil _).symm⟩
  trans := by
    rintro s₁ s₂ s₃ ⟨t, ht, h₁⟩ ⟨u, hu, h₂⟩
    exact ⟨t ++ u, ht.append hu, by rw [h₂, h₁, List.append_assoc]⟩

/-- The hooks return, and `log` is what they were called with. Other code does
not call a hook but through the module. -/
structure Traced (log : σ → List HookEvent) (X : Machine String Op σ) : Prop where
  hook : ∀ f ∈ hookNames, ∀ as s o s', X.external f as s o s' → ∃ v, o = .ok v ∧ log s' = log s ++ [⟨f, as, v⟩]
  moves : X.Moves (Obeys log) (· ∉ hookNames)

section Hooked

variable {log : σ → List HookEvent} {S : Sem String Op σ}

theorem hook_bind {α : Type} {f : String} {as : List ℕ}
    (hS : ∀ s o s', S.call f as s o s' → ∃ v, o = .ok v ∧ log s' = log s ++ [⟨f, as, v⟩])
    {k : ℕ → Comp σ α} {s s' : σ} {o : Exit α} (h : (S.call f as >>= k) s o s') :
    ∃ v s₁, log s₁ = log s ++ [⟨f, as, v⟩] ∧ k v s₁ o s' := by
  rcases h with ⟨v, s₁, hc, hk⟩ | ⟨-, hc⟩
  · obtain ⟨w, hv, hl⟩ := hS _ _ _ hc
    cases hv
    exact ⟨v, s₁, hl, hk⟩
  · obtain ⟨w, hv, -⟩ := hS _ _ _ hc
    cases hv

theorem body_bind {α β : Type} {x : Comp σ α} {k : α → Comp σ β} (hx : x.Moves (Obeys log)) {s s' : σ}
    {o : Exit β} (h : (x >>= k) s o s') :
    ∃ t, Protocol t ∧ (log s' = log s ++ t ∨ ∃ a s₁, log s₁ = log s ++ t ∧ k a s₁ o s') := by
  rcases h with ⟨a, s₁, ha, hk⟩ | ⟨-, hu⟩
  · obtain ⟨t, ht, hl⟩ := hx _ _ _ ha
    exact ⟨t, ht, .inr ⟨a, s₁, hl, hk⟩⟩
  · obtain ⟨t, ht, hl⟩ := hx _ _ _ hu
    exact ⟨t, ht, .inl hl⟩

variable {F : IrFunction Op} {body : Func String Op} {info : CMAInfo} {args : ℕ → ℕ}
  (hS : ∀ f ∈ hookNames, ∀ as s o s', S.call f as s o s' → ∃ v, o = .ok v ∧ log s' = log s ++ [⟨f, as, v⟩])
  (hbody : ∀ args, (body.value S args).Moves (Obeys log))

include hS hbody

theorem hookedAlloc_protocol : (hookedAlloc S F body info args).Moves (Obeys log) := by
  intro s o s' h
  unfold hookedAlloc at h
  generalize zoneId F info args = id, granularity F info args = g, args (argIdx info.sizeIdx) = size,
    args (argIdx info.ptrIdx) = oldPtr at h
  obtain ⟨c, s₁, h₁, h⟩ := hook_bind (hS _ (by decide) _) h
  dsimp only at h
  split at h
  · obtain ⟨t, ht, hl⟩ := hbody _ _ _ _ h
    exact ⟨_ ++ t, (Protocol.inCMA c).append ht, by rw [hl, h₁, List.append_assoc]⟩
  obtain ⟨e, s₂, h₂, h⟩ := hook_bind (hS _ (by decide) _) h
  split at h
  · obtain ⟨v, s₃, h₃, h⟩ := hook_bind (hS _ (by decide) _) h
    obtain ⟨t, ht, hl | ⟨newPtr, s₄, h₄, h⟩⟩ := body_bind (hbody _) h
    · refine ⟨_ ++ t, (Protocol.start c size g e oldPtr id v).append ht, ?_⟩
      rw [hl, h₃, h₂, h₁]
      simp only [List.append_assoc, List.cons_append, List.nil_append]
    · obtain ⟨w, s₅, h₅, -, rfl⟩ := hook_bind (hS _ (by decide) _) h
      refine ⟨_, Protocol.realloc c size g e oldPtr newPtr id v w ht, ?_⟩
      rw [h₅, h₄, h₃, h₂, h₁]
      simp only [List.append_assoc, List.cons_append, List.nil_append]
  · obtain ⟨t, ht, hl | ⟨ptr, s₃, h₃, h⟩⟩ := body_bind (hbody _) h
    · refine ⟨_ ++ t, (Protocol.extend c size g e).append ht, ?_⟩
      rw [hl, h₂, h₁]
      simp only [List.append_assoc, List.cons_append, List.nil_append]
    · obtain ⟨v, s₄, h₄, -, rfl⟩ := hook_bind (hS _ (by decide) _) h
      refine ⟨_, Protocol.alloc c size g e ptr id v ht, ?_⟩
      rw [h₄, h₃, h₂, h₁]
      simp only [List.append_assoc, List.cons_append, List.nil_append]

theorem hookedFree_protocol : (hookedFree S F body info args).Moves (Obeys log) := by
  intro s o s' h
  unfold hookedFree at h
  obtain ⟨c, s₁, h₁, h⟩ := hook_bind (hS _ (by decide) _) h
  split at h
  · exact h.elim
  obtain ⟨r, s₂, h₂, h⟩ := hook_bind (hS _ (by decide) _) h
  have hentry : Obeys log s s₂ := ⟨_, Protocol.release c (args (argIdx info.ptrIdx)) (zoneId F info args) r, by
    rw [h₂, h₁]
    simp only [List.append_assoc, List.cons_append, List.nil_append]⟩
  have hrest : Obeys log s₂ s' := by
    dsimp only at h
    cases he : earlyReturn F.retTy with
    | none =>
      rw [he] at h
      exact hbody _ _ _ _ h
    | some v =>
      rw [he] at h
      dsimp only at h
      split at h
      · exact Comp.moves_pure (obeys_stepwise log) _ _ _ _ h
      · exact hbody _ _ _ _ h
  exact (obeys_stepwise log).trans hentry hrest

/-- `CLEAR` and `GC`. -/
theorem hookedScope_protocol {hook : String} (hh : hook = kCMAClearCMAChunksFName ∨ hook = kCMAEmptyQuarantineOnGC) :
    (hookedScope S F body info args hook).Moves (Obeys log) := by
  intro s o s' h
  unfold hookedScope at h
  obtain ⟨c, s₁, h₁, h⟩ := hook_bind (hS _ (by decide) _) h
  have hmem : hook ∈ hookNames := by
    rcases hh with rfl | rfl <;> decide
  obtain ⟨v, s₂, h₂, h⟩ := hook_bind (hS _ hmem _) h
  have hentry : Obeys log s s₂ := by
    rcases hh with rfl | rfl
    · refine ⟨_, Protocol.clear c (zoneId F info args) v, ?_⟩
      rw [h₂, h₁]
      simp only [List.append_assoc, List.cons_append, List.nil_append]
    · refine ⟨_, Protocol.gc c (zoneId F info args) v, ?_⟩
      rw [h₂, h₁]
      simp only [List.append_assoc, List.cons_append, List.nil_append]
  exact (obeys_stepwise log).trans hentry (hbody _ _ _ _ h)

/-- **One function** obeys the protocol when its body does. -/
theorem hooked_protocol : (hooked S F body info args).Moves (Obeys log) := by
  unfold hooked
  split
  · exact hbody args
  · intro s o s' h
    obtain ⟨v, s₁, h₁, h⟩ := hook_bind (hS _ (by decide) _) h
    exact (obeys_stepwise log).trans ⟨_, Protocol.log v, h₁⟩ (hbody _ _ _ _ h)
  · exact hookedAlloc_protocol hS hbody
  · exact hookedAlloc_protocol hS hbody
  · exact hookedAlloc_protocol hS hbody
  · exact hookedFree_protocol hS hbody
  · exact hookedScope_protocol hS hbody (.inl rfl)
  · exact hookedScope_protocol hS hbody (.inr rfl)
  · intro s o s' h
    unfold hookedSize at h
    obtain ⟨t, ht, hl | ⟨size, s₁, h₁, h⟩⟩ := body_bind (hbody _) h
    · exact ⟨t, ht, hl⟩
    · obtain ⟨v, -, h₂⟩ := hS _ (by decide) _ _ _ _ h
      exact (obeys_stepwise log).trans ⟨t, ht, h₁⟩ ⟨_, Protocol.size _ _ v, h₂⟩
  · intro s o s' h
    obtain ⟨c, s₁, h₁, h⟩ := hook_bind (hS _ (by decide) _) h
    exact (obeys_stepwise log).trans ⟨_, Protocol.inCMA c, h₁⟩ (hbody _ _ _ _ h)

end Hooked

/-! ### The module -/

/-- The module does not define a hook, and its code does not name one. -/
def NoHooks (M : List (IrFunction Op)) : Prop :=
  ∀ F ∈ M, F.name ∉ hookNames ∧ ∀ body, F.body = some body → body.Names (· ∉ hookNames)

theorem flushing_moves {log : σ → List HookEvent} {S : Sem String Op σ} (hS : S.Moves (Obeys log) (· ∉ hookNames))
    (hhook : ∀ f ∈ hookNames, ∀ as s o s', S.call f as s o s' → ∃ v, o = .ok v ∧ log s' = log s ++ [⟨f, as, v⟩]) :
    (flushing S).Moves (Obeys log) (· ∉ hookNames) := by
  refine ⟨hS.op, fun f as hf => ?_, hS.enter, hS.resolve⟩
  unfold flushing
  dsimp only
  split
  · split
    · apply Comp.Moves.bind (obeys_stepwise log) (hS.call f _ hf)
      intro v s o s' h
      obtain ⟨w, s₁, h₁, -, rfl⟩ := hook_bind (hhook _ (by decide) _) h
      exact ⟨_, Protocol.flush _ _ w, h₁⟩
    · exact hS.call f _ hf
  · exact hS.call f _ hf

theorem flushing_hook {log : σ → List HookEvent} {S : Sem String Op σ}
    (hhook : ∀ f ∈ hookNames, ∀ as s o s', S.call f as s o s' → ∃ v, o = .ok v ∧ log s' = log s ++ [⟨f, as, v⟩]) :
    ∀ f ∈ hookNames, ∀ as s o s', (flushing S).call f as s o s' → ∃ v, o = .ok v ∧ log s' = log s ++ [⟨f, as, v⟩] := by
  intro f hf as s o s' h
  have hne : f ≠ "munmap" := fun he => absurd (he ▸ hf) (by decide)
  unfold flushing at h
  dsimp only at h
  split at h
  · rw [if_neg hne] at h
    exact hhook f hf _ _ _ _ h
  · exact hhook f hf _ _ _ _ h

/-- **The protocol.** In every run of an instrumented module the hooks are
called in an order of the protocol. -/
theorem instrumentCMA_protocol {infoMap infoMap' : String → Option CMAInfo} {annos : List (String × List Char)}
    {M M' : List (IrFunction Op)} {names : List String}
    (hv : ∀ F ∈ M, ∀ body, F.body = some body → body.Verified)
    (hd : ∀ F ∈ M, (getCMAInfo infoMap' F.name).Distinct) (hM : NoHooks M)
    (h : instrumentCMA infoMap annos M = some (M', infoMap', names)) {log : σ → List HookEvent}
    {X : Machine String Op σ} (hX : Traced log X) {f : String} (hf : f ∉ hookNames) {as : List ℕ} {s s' : σ}
    {o : Exit ℕ} (hrun : call X (moduleFn X M') f as s o s') :
    ∃ t, Protocol t ∧ log s' = log s ++ t := by
  rw [moduleFn_instrumented (instrumentCMA_forall₂ hv hd h) X] at hrun
  have hmark : ∀ F ∈ M.map (·.markTarget annos), F.name ∉ hookNames ∧
      ∀ body, F.body = some body → body.Names (· ∉ hookNames) := by
    intro F hF
    obtain ⟨F₀, hF₀, rfl⟩ := List.mem_map.mp hF
    rw [markTarget_name, markTarget_body]
    exact hM F₀ hF₀
  generalize M.map (·.markTarget annos) = N at hrun hmark
  refine call_moves hX.moves (fun f run hf hrun c hc hS as => ?_) as hf s o s' hrun
  obtain ⟨F, hfind, hrun⟩ := Option.bind_eq_some_iff.mp hrun
  obtain ⟨body, hb, rfl⟩ := Option.map_eq_some_iff.mp hrun
  have hnames := (hmark F (List.mem_of_find?_eq_some hfind)).2 body hb
  -- the hooks are not in the module
  have hhook : ∀ f ∈ hookNames, ∀ as s o s', (X.sem c).call f as s o s' →
      ∃ v, o = .ok v ∧ log s' = log s ++ [⟨f, as, v⟩] := by
    intro g hg as s o s' hcall
    have hnone : instrumentedFn X infoMap' N g = none := by
      unfold instrumentedFn
      have hfind : N.find? (·.name = g) = none := by
        apply List.find?_eq_none.mpr
        intro F hF he
        exact (hmark F hF).1 (of_decide_eq_true he ▸ hg)
      rw [hfind]
      rfl
    refine hX.hook g hg as s o s' ?_
    rw [← hc g hnone]
    exact hcall
  have hflush := flushing_moves hS hhook
  have hvalue : ∀ args, (body.value (flushing (X.sem c)) args).Moves (Obeys log) := fun args =>
    value_moves (obeys_stepwise log) hflush args hnames
  show (instrumented infoMap' F body (X.sem c) (argsOf as)).Moves _
  unfold instrumented
  split
  · exact hvalue _
  · exact hooked_protocol (flushing_hook hhook) hvalue

/-- The hooks that the logging machine wrote down. -/
def hookLog (s : List (String × List ℕ)) : List HookEvent :=
  s.filterMap fun x => if x.1 ∈ hookNames then some ⟨x.1, x.2, 0⟩ else none

theorem loggingMachine_traced : Traced hookLog loggingMachine where
  hook f hf as s o s' h := by
    obtain ⟨rfl, rfl⟩ := h
    exact ⟨0, rfl, by simp [hookLog, hf]⟩
  moves := by
    refine ⟨fun o as => Comp.moves_pure (obeys_stepwise hookLog) 0, fun f as hf => ?_, fun p f h => by cases h⟩
    rintro s o s' ⟨-, rfl⟩
    exact ⟨[], .nil, by simp [hookLog, hf]⟩

theorem loggingMachine_bind {α : Type} {f : String} {as : List ℕ} {k : ℕ → Comp (List (String × List ℕ)) α}
    {s s' : List (String × List ℕ)} {o : Exit α} :
    (loggingMachine.external f as >>= k) s o s' ↔ k 0 (s ++ [(f, as)]) o s' := by
  constructor
  · rintro (⟨v, s₁, ⟨hv, rfl⟩, hk⟩ | ⟨-, hv, -⟩)
    · cases hv
      exact hk
    · cases hv
  · exact fun hk => .inl ⟨0, _, ⟨rfl, rfl⟩, hk⟩

/-- What a call of the pool's `pool_alloc` calls. -/
theorem pool_alloc_logged : call loggingMachine (moduleFn loggingMachine poolInstrumented) "pool_alloc" [32] [] (.ok 0)
    [(kIsInOtherCMAFName, []), (kCMAExtendSizeFName, [32, 1, 0]), ("base_alloc", [0]),
      (kAllocateCMAChunkFName, [0, 32, 1, 1, 0])] := by
  refine call_of_run rfl 0 [32] _ _ _ ?_
  dsimp only
  rw [value_singleton rfl rfl rfl]
  have hext : ∀ f, moduleFn loggingMachine poolInstrumented f = none →
      callN loggingMachine (moduleFn loggingMachine poolInstrumented) 0 f = loggingMachine.external f :=
    fun f hf => callN_external hf 0
  simp only [execInstrs, Instr.exec, Callee.call, Machine.sem, bind_assoc, pure_bind, List.map_cons, List.map_nil,
    hext kIsInOtherCMAFName rfl, hext kCMAExtendSizeFName rfl, hext "base_alloc" rfl, hext kAllocateCMAChunkFName rfl]
  simp only [loggingMachine_bind]
  exact ⟨rfl, rfl⟩

theorem poolModule_noHooks : NoHooks poolModule := by
  intro F hF
  simp only [poolModule, List.mem_cons, List.not_mem_nil, or_false] at hF
  rcases hF with rfl | rfl | rfl
  all_goals
    refine ⟨by decide, fun body hb b hbm => ?_⟩
    obtain rfl := Option.some.inj hb
    obtain rfl := List.mem_singleton.mp hbm
    refine ⟨fun i hi => ?_, trivial⟩
    obtain rfl := List.mem_singleton.mp hi
    show _ ∉ hookNames
    decide

theorem instrumentCMA_protocol_pool :
    ∃ t, Protocol t ∧ hookLog [(kIsInOtherCMAFName, []), (kCMAExtendSizeFName, [32, 1, 0]), ("base_alloc", [0]),
      (kAllocateCMAChunkFName, [0, 32, 1, 1, 0])] = hookLog [] ++ t :=
  instrumentCMA_protocol poolModule_verified poolModule_distinct poolModule_noHooks poolModule_instrumented
    loggingMachine_traced (by decide) pool_alloc_logged

end Cmasan
