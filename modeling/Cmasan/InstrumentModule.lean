/-
# What an instrumented module does

A call in the instrumented module does what a call does in the module as it
was, with every target between its hooks (`hooked`) and with the flush hook
after each call of `munmap`: for every function and every argument, at any
depth of calls, back and forth between instrumented functions and others
(`instrumentCMA_call`). A `munmap` that is called through a pointer or by an
invoke is not flushed, and `flushing` says so. What the pass writes is in SSA
form again, but for targets whose info names no pointer or one argument twice
(`instrumentCMA_verified`).

Key definitions: `moduleFn`, `flushing`, `instrumented`, `instrumentedFn`.
Key theorems: `exec_instrumentMmapFamily`, `instrumentFunctions_forall₂`,
`instrumentCMA_call`, `instrumentCMA_verified`.
-/
import Cmasan.InstrumentWf

namespace Cmasan

open Lib Ssa

variable {Op σ : Type}

/-! ### What is meant -/

/-- What the functions that a module defines do, given what calls do. -/
def moduleFn (X : Machine String Op σ) (M : List (IrFunction Op)) (f : String) :
    Option ((String → List ℕ → Comp σ ℕ) → List ℕ → Comp σ ℕ) :=
  (M.find? (·.name = f)).bind fun F => F.body.map fun body c as => body.value (X.sem c) (argsOf as)

/-- Call instructions, where the flush hook comes after each `munmap`. -/
def flushing (S : Sem String Op σ) : Sem String Op σ :=
  { S with
    call := fun f as =>
      match as with
      | ptr :: size :: _ =>
        if f = "munmap" then do
          let v ← S.call f as
          let _ ← S.call kCMAFlushMmapRangeFName [ptr, size]
          return v
        else S.call f as
      | _ => S.call f as }

/-- What the function `F` does after the pass. -/
def instrumented (infoMap : String → Option CMAInfo) (F : IrFunction Op) (body : Func String Op)
    (S : Sem String Op σ) (args : ℕ → ℕ) : Comp σ ℕ :=
  match F.target with
  | none => body.value (flushing S) args
  | some _ => hooked (flushing S) F body (getCMAInfo infoMap F.name) args

/-- `moduleFn`, where each function does what it is to do after the pass. -/
def instrumentedFn (X : Machine String Op σ) (infoMap : String → Option CMAInfo) (M : List (IrFunction Op))
    (f : String) : Option ((String → List ℕ → Comp σ ℕ) → List ℕ → Comp σ ℕ) :=
  (M.find? (·.name = f)).bind fun F =>
    F.body.map fun body c as => instrumented infoMap F body (X.sem c) (argsOf as)

/-! ### The flush hook -/

section Flush

variable (S : Sem String Op σ) (args : ℕ → ℕ)

theorem exec_singleton (i : Instr String Op) (ρ : ℕ → ℕ) : execInstrs S args [i] ρ = i.exec S args ρ := by
  show i.exec S args ρ >>= (fun ρ => pure ρ) = _
  exact bind_pure _

/-- **The flush hook** after an instruction that is within the bounds. -/
theorem exec_instrumentMmapFamily {i : Instr String Op} {n : ℕ} (hi : i.Wf n) (hargs : munmapArgs i = true)
    (ρ : ℕ → ℕ) : execInstrs S args (i :: instrumentMmapFamily i) ρ = i.exec (flushing S) args ρ := by
  cases i with
  | op dst o as => exact exec_singleton S args _ ρ
  | cast dst v => exact exec_singleton S args _ ρ
  | isNull dst v => exact exec_singleton S args _ ρ
  | call dst f as =>
    cases f with
    | indirect p => exact exec_singleton S args _ ρ
    | direct f =>
      by_cases hf : f = "munmap"
      · subst hf
        obtain ⟨ptr, size, as, rfl⟩ : ∃ ptr size as', as = ptr :: size :: as' := by
          match as, hargs with
          | ptr :: size :: as, _ => exact ⟨ptr, size, as, rfl⟩
          | [_], h => exact absurd h (by simp [munmapArgs])
          | [], h => exact absurd h (by simp [munmapArgs])
        -- the result is not one of the arguments
        have hkeep : ∀ o ∈ [ptr, size], ∀ v, o.eval args (setDst ρ dst v) = o.eval args ρ := by
          intro o ho v
          cases o with
          | reg r =>
            cases dst with
            | none => rfl
            | some d =>
              refine Function.update_of_ne (fun he => hi.fresh d rfl ?_) _ _
              subst he
              rcases List.mem_cons.mp ho with rfl | ho
              · exact List.mem_cons_self
              · exact List.mem_cons_of_mem _ (List.mem_singleton.mp ho ▸ List.mem_cons_self)
          | _ => rfl
        have hptr := hkeep ptr List.mem_cons_self
        have hsize := hkeep size (List.mem_cons_of_mem _ List.mem_cons_self)
        simp only [instrumentMmapFamily, execInstrs, Instr.exec, Callee.call, flushing, List.map_cons, List.map_nil,
          if_true, bind_assoc, pure_bind, hptr, hsize]
        rfl
      · have hnil : instrumentMmapFamily (.call dst (.direct f) as : Instr String Op) = [] := by
          unfold instrumentMmapFamily
          split
          · rename_i h
            cases h
            exact absurd rfl hf
          · rfl
        rw [hnil, exec_singleton]
        have hcall : (flushing S).call f (as.map (·.eval args ρ)) = S.call f (as.map (·.eval args ρ)) := by
          unfold flushing
          dsimp only
          split
          · exact if_neg hf
          · rfl
        show S.call f _ >>= _ = (flushing S).call f _ >>= _
        rw [hcall]

theorem term_exec_flushing (t : Term String) (l : ℕ) (ρ : ℕ → ℕ) :
    t.exec S args l ρ = t.exec (flushing S) args l ρ := by
  cases t with
  | invoke dst f as normal unwind => cases f <;> rfl
  | _ => rfl

/-- **All the calls of `munmap`** in a function. -/
theorem instrumentMunmaps_value {F F' : IrFunction Op} {body : Func String Op} {n : ℕ} (hb : F.body = some body)
    (hwf : ∀ b ∈ body.blocks, ∀ i ∈ b.instrs, i.Wf n) (h : instrumentMunmaps F = some F') :
    F'.name = F.name ∧ F'.body = some (body.insertAfter instrumentMmapFamily) ∧
      ∀ {σ : Type} (S : Sem String Op σ) (args : ℕ → ℕ),
        (body.insertAfter instrumentMmapFamily).value S args = body.value (flushing S) args := by
  unfold instrumentMunmaps at h
  rw [hb] at h
  dsimp only at h
  split at h
  · rename_i hall
    cases h
    refine ⟨rfl, rfl, fun S args => ?_⟩
    have he := exec_insertAfter (S := S) (F := body) (h := instrumentMmapFamily)
      (fun b hb i hi ρ => exec_instrumentMmapFamily S args (hwf b hb i hi)
        (List.all_eq_true.mp (List.all_eq_true.mp hall b hb) i hi) ρ)
      (fun b hb ρ => term_exec_flushing S args b.term b.label ρ) fun _ => 0
    unfold Func.value
    rw [he]
  · cases h

/-- The flush hook reads the arguments of the call before it. -/
theorem instrumentMmapFamily_trails (i : Instr String Op) : Trails i (instrumentMmapFamily i) := by
  intro j hj
  unfold instrumentMmapFamily at hj
  split at hj
  · rename_i dst ptrArg sizeArg as
    obtain rfl := List.mem_singleton.mp hj
    refine ⟨rfl, fun o ho => ?_⟩
    change o ∈ [ptrArg, sizeArg] at ho
    show o ∈ ptrArg :: sizeArg :: as
    rcases List.mem_cons.mp ho with rfl | ho
    · exact List.mem_cons_self
    · obtain rfl := List.mem_singleton.mp ho
      exact List.mem_cons_of_mem _ List.mem_cons_self
  · cases hj

theorem Emitted.insertAfter {ok : Prop} {body : Func String Op} (h : Emitted ok body) :
    (body.insertAfter instrumentMmapFamily).Verified ↔ ok := by
  constructor
  · intro hv
    by_contra hn
    obtain ⟨b, hb, hmissing⟩ := h.missing hn
    exact hv.terminated _ (List.mem_map_of_mem hb) hmissing
  · intro hok
    exact (h.verified hok).insertAfter fun b _ i _ => instrumentMmapFamily_trails i

end Flush

/-! ### The functions of a module -/

theorem withReturns_name {F F' : IrFunction Op} {body : Func String Op} {B : IRBuilder Op}
    {hook : ℕ → Operand → Option (List (Instr String Op) × Operand × ℕ)} (h : F.withReturns body B hook = some F') :
    F'.name = F.name := by
  obtain ⟨_, -, rfl⟩ := Option.map_eq_some_iff.mp h
  rfl

theorem instrumentAlloc_name {F F' : IrFunction Op} {body : Func String Op} {info : CMAInfo} {b : Bool}
    {sizeArg ptrInArg : Option Operand} (h : F.instrumentAlloc body info sizeArg ptrInArg = some (b, F')) :
    F'.name = F.name := by
  obtain ⟨⟨idArg, B⟩, -, h⟩ := Option.bind_eq_some_iff.mp h
  cases sizeArg with
  | none =>
    cases h
    rfl
  | some sizeArg =>
    dsimp only at h
    split at h
    · cases h
      rfl
    · obtain ⟨g, -, h₁⟩ := Option.bind_eq_some_iff.mp h
      split at h₁
      · obtain ⟨ptrIn, -, h₂⟩ := Option.bind_eq_some_iff.mp h₁
        obtain ⟨F₁, hw, h₃⟩ := Option.bind_eq_some_iff.mp h₂
        cases h₃
        exact withReturns_name hw
      · obtain ⟨F₁, hw, h₂⟩ := Option.bind_eq_some_iff.mp h₁
        cases h₂
        exact withReturns_name hw

theorem instrumentFree_name {F F' : IrFunction Op} {body : Func String Op} {info : CMAInfo} {b : Bool}
    {ptrInArg : Option Operand} (h : F.instrumentFree body info ptrInArg = some (b, F')) : F'.name = F.name := by
  obtain ⟨⟨idArg, B⟩, -, h⟩ := Option.bind_eq_some_iff.mp h
  dsimp only at h
  split at h
  · cases h
  · cases h
    rfl
  · obtain ⟨⟨c, B₃⟩, -, h₁⟩ := Option.bind_eq_some_iff.mp h
    split at h₁ <;> (cases h₁; rfl)

theorem instrumentTargetFunction_name {F F' : IrFunction Op} {body : Func String Op} {info : CMAInfo} {b : Bool}
    (h : instrumentTargetFunction F body info = some (b, F')) : F'.name = F.name := by
  unfold instrumentTargetFunction at h
  split at h
  · cases h
    rfl
  dsimp only at h
  split at h
  · cases h
    rfl
  obtain ⟨sizeArg, -, h₁⟩ := Option.bind_eq_some_iff.mp h
  obtain ⟨ptrInArg, -, h₂⟩ := Option.bind_eq_some_iff.mp h₁
  split at h₂
  · exact instrumentAlloc_name (F := F.clearAttrs) h₂
  · exact instrumentAlloc_name (F := F.clearAttrs) h₂
  · exact instrumentAlloc_name (F := F.clearAttrs) h₂
  · exact instrumentFree_name (F := F.clearAttrs) h₂
  · obtain ⟨_, -, h₃⟩ := Option.bind_eq_some_iff.mp h₂
    cases h₃
    rfl
  · obtain ⟨_, -, h₃⟩ := Option.bind_eq_some_iff.mp h₂
    cases h₃
    rfl
  · obtain ⟨F₁, hw, h₃⟩ := Option.bind_eq_some_iff.mp h₂
    cases h₃
    exact withReturns_name (F := F.clearAttrs) hw
  · cases h₂
    rfl

/-- The second function is what the pass makes of the first. -/
structure Instrumented (infoMap : String → Option CMAInfo) (F F' : IrFunction Op) : Prop where
  name : F'.name = F.name
  declaration : F.body = none → F'.body = none
  value : ∀ body, F.body = some body → ∃ body', F'.body = some body' ∧
    ∀ {σ : Type} (S : Sem String Op σ) (args : ℕ → ℕ), body'.value S args = instrumented infoMap F body S args
  verified : ∀ body', F'.body = some body' →
    (body'.Verified ↔ F.target = none ∨ (getCMAInfo infoMap F.name).NamesPointer)

/-- What the loop of `InstrumentCMA` does with one function. -/
theorem instrumented_target {infoMap : String → Option CMAInfo} {F F₁ F' : IrFunction Op} {body : Func String Op}
    {b c : Bool} (hb : F.body = some body) (hv : body.Verified) (ht : F.target = some body)
    (hd : (getCMAInfo infoMap F.name).Distinct)
    (h : instrumentTargetFunction F body (getCMAInfo infoMap F.name) = some (b, F₁))
    (hm : instrumentMunmaps { F₁ with instrumented := c } = some F') : Instrumented infoMap F F' := by
  obtain ⟨body₁, hb₁, hvalue⟩ := instrumentTargetFunction_value hb hv.toWf hd h
  obtain ⟨body₂, hb₂, hemit⟩ := instrumentTargetFunction_emitted hb hv hd h
  obtain rfl := Option.some.inj (hb₁.symm.trans hb₂)
  obtain ⟨hname, hb', hflush⟩ := instrumentMunmaps_value (F := { F₁ with instrumented := c }) hb₁ hemit.instrs hm
  have hname₁ : F₁.name = F.name := instrumentTargetFunction_name h
  refine ⟨hname.trans hname₁, fun hn => ?_, fun body₀ h₀ => ⟨_, hb', fun S args => ?_⟩, fun body' h' => ?_⟩
  · rw [hb] at hn
    cases hn
  · obtain rfl := Option.some.inj (h₀.symm.trans hb)
    unfold instrumented
    rw [ht, hflush, hvalue]
  · obtain rfl := Option.some.inj (hb'.symm.trans h')
    rw [hemit.insertAfter, ht]
    simp

theorem IrFunction.body_of_target {F : IrFunction Op} {body : Func String Op} (ht : F.target = some body) :
    F.body = some body := by
  unfold IrFunction.target at ht
  split at ht
  · exact ht
  · cases ht

theorem instrumented_step {infoMap : String → Option CMAInfo} {F F₁ F' : IrFunction Op} {names : List String}
    (hv : ∀ body, F.body = some body → body.Verified)
    (hd : ∀ body, F.target = some body → (getCMAInfo infoMap F.name).Distinct)
    (h : instrumentTarget infoMap F = some (F₁, names)) (hm : instrumentMunmaps F₁ = some F') :
    Instrumented infoMap F F' := by
  unfold instrumentTarget at h
  split at h
  · rename_i ht
    cases h
    cases hb : F.body with
    | none =>
      have he : some F = some F' := by
        rw [← hm]
        unfold instrumentMunmaps
        rw [hb]
      cases he
      exact ⟨rfl, fun h => h, fun body h => absurd (hb.symm.trans h) nofun,
        fun body' h => absurd (hb.symm.trans h) nofun⟩
    | some body =>
      obtain ⟨hname, hb', hflush⟩ :=
        instrumentMunmaps_value hb (fun b hbm => ((hv body hb).blocks b hbm).instrs) hm
      refine ⟨hname, fun hn => absurd (hb.symm.trans hn) nofun, fun body₀ h₀ => ⟨_, hb', fun S args => ?_⟩,
        fun body' h' => ?_⟩
      · obtain rfl := Option.some.inj (h₀.symm.trans hb)
        unfold instrumented
        rw [ht, hflush]
      · obtain rfl := Option.some.inj (hb'.symm.trans h')
        rw [(Emitted.of_verified trivial (hv body hb)).insertAfter, ht]
        simp
  · rename_i body ht
    have hb := IrFunction.body_of_target ht
    obtain ⟨⟨b, F₃⟩, hi, he⟩ := Option.map_eq_some_iff.mp h
    cases b with
    | true =>
      cases he
      exact instrumented_target hb (hv body hb) ht (hd body ht) hi hm
    | false =>
      cases he
      exact instrumented_target hb (hv body hb) ht (hd body ht) hi (c := F₁.instrumented) hm

/-- The loop of `InstrumentCMA` takes the functions one by one. -/
theorem instrumentFunctions_steps {infoMap : String → Option CMAInfo} : ∀ {M M' : List (IrFunction Op)}
    {names : List String}, instrumentFunctions infoMap M = some (M', names) →
      List.Forall₂ (fun F F' => F ∈ M ∧ ∃ F₁ names₁, instrumentTarget infoMap F = some (F₁, names₁) ∧
        instrumentMunmaps F₁ = some F') M M'
  | [], M', names, h => by
    cases h
    exact .nil
  | F :: M, M', names, h => by
    unfold instrumentFunctions at h
    obtain ⟨⟨F₁, names₁⟩, h₁, h₂⟩ := Option.bind_eq_some_iff.mp h
    obtain ⟨F₂, hm, h₃⟩ := Option.bind_eq_some_iff.mp h₂
    obtain ⟨⟨M₁, names₂⟩, hrest, h₄⟩ := Option.bind_eq_some_iff.mp h₃
    cases h₄
    exact .cons ⟨List.mem_cons_self, F₁, names₁, h₁, hm⟩
      ((instrumentFunctions_steps hrest).imp fun _ _ hF => ⟨List.mem_cons_of_mem F hF.1, hF.2⟩)

/-- **Function by function.** -/
theorem instrumentFunctions_forall₂ {infoMap : String → Option CMAInfo} {M M' : List (IrFunction Op)}
    {names : List String} (hv : ∀ F ∈ M, ∀ body, F.body = some body → body.Verified)
    (hd : ∀ F ∈ M, ∀ body, F.target = some body → (getCMAInfo infoMap F.name).Distinct)
    (h : instrumentFunctions infoMap M = some (M', names)) : List.Forall₂ (Instrumented infoMap) M M' :=
  (instrumentFunctions_steps h).imp fun F _ ⟨hF, _, _, h₁, hm⟩ => instrumented_step (hv F hF) (hd F hF) h₁ hm

theorem IrFunction.EntryReadsAhead.not_verified {F F' : IrFunction Op} (h : F.EntryReadsAhead)
    (hm : instrumentMunmaps F = some F') : ∀ body', F'.body = some body' → ¬ body'.Verified := by
  obtain ⟨body, b, hb, hhead, hreads⟩ := h
  unfold instrumentMunmaps at hm
  rw [hb] at hm
  dsimp only at hm
  split at hm
  · cases hm
    intro body' hb' hv
    obtain rfl := Option.some.inj hb'
    have hhead' : (body.insertAfter instrumentMmapFamily).blocks.head? = some (b.insertAfter instrumentMmapFamily) := by
      show (body.blocks.map _).head? = _
      rw [List.head?_map, hhead]
      rfl
    exact hv.not_readsAhead hhead' (hreads.flatMap instrumentMmapFamily)
  · cases hm

/-- **What a verifier says of a function** that the pass has been over. -/
theorem verified_step {infoMap : String → Option CMAInfo} {F F₁ F' : IrFunction Op} {names : List String}
    (hv : ∀ body, F.body = some body → body.Verified) (h : instrumentTarget infoMap F = some (F₁, names))
    (hm : instrumentMunmaps F₁ = some F') : ∀ body', F'.body = some body' → (body'.Verified ↔
      F.target = none ∨ ((getCMAInfo infoMap F.name).NamesPointer ∧ (getCMAInfo infoMap F.name).Distinct)) := by
  intro body' hb'
  by_cases hd : ∀ body, F.target = some body → (getCMAInfo infoMap F.name).Distinct
  · rw [(instrumented_step hv hd h hm).verified body' hb']
    cases ht : F.target with
    | none => simp
    | some body => simp [hd body ht]
  · obtain ⟨body, hd⟩ := not_forall.mp hd
    obtain ⟨ht, hd⟩ := Classical.not_imp.mp hd
    have hb := IrFunction.body_of_target ht
    obtain ⟨b, bs, hbs, -⟩ := (hv body hb).entry.blocks_eq
    have hne : body.blocks ≠ [] := hbs ▸ List.cons_ne_nil b bs
    have hreads : F₁.EntryReadsAhead := by
      unfold instrumentTarget at h
      rw [ht] at h
      obtain ⟨⟨c, F₃⟩, hi, he⟩ := Option.map_eq_some_iff.mp h
      have hF₃ := instrumentTargetFunction_readsAhead hne hd hi
      cases c <;> cases he <;> exact hF₃
    refine iff_of_false (hreads.not_verified hm body' hb') ?_
    rintro (hn | hn)
    · rw [ht] at hn
      cases hn
    · exact hd hn.2

/-! ### Calls -/

theorem find?_instrumented {infoMap : String → Option CMAInfo} {M M' : List (IrFunction Op)}
    (h : List.Forall₂ (Instrumented infoMap) M M') (f : String) :
    (M.find? (·.name = f) = none ∧ M'.find? (·.name = f) = none) ∨
      ∃ F F', M.find? (·.name = f) = some F ∧ M'.find? (·.name = f) = some F' ∧ Instrumented infoMap F F' := by
  induction h with
  | nil => exact .inl ⟨rfl, rfl⟩
  | @cons F F' M M' hF _ ih =>
    by_cases hf : F.name = f
    · exact .inr ⟨F, F', List.find?_cons_of_pos (by simpa using hf),
        List.find?_cons_of_pos (by simpa using hF.name.trans hf), hF⟩
    · rw [List.find?_cons_of_neg (by simpa using hf),
        List.find?_cons_of_neg (by simpa using fun he => hf (hF.name.symm.trans he))]
      exact ih

theorem moduleFn_instrumented {infoMap : String → Option CMAInfo} {M M' : List (IrFunction Op)}
    (h : List.Forall₂ (Instrumented infoMap) M M') (X : Machine String Op σ) :
    moduleFn X M' = instrumentedFn X infoMap M := by
  funext f
  unfold moduleFn instrumentedFn
  rcases find?_instrumented h f with ⟨h₁, h₂⟩ | ⟨F, F', h₁, h₂, hF⟩
  · rw [h₁, h₂]
    rfl
  · rw [h₁, h₂]
    show F'.body.map _ = F.body.map _
    cases hb : F.body with
    | none => rw [hF.declaration hb]; rfl
    | some body =>
      obtain ⟨body', hb', hvalue⟩ := hF.value body hb
      rw [hb']
      show some _ = some _
      congr 1
      funext c as
      exact hvalue (X.sem c) (argsOf as)

theorem markTarget_body (annos : List (String × List Char)) (F : IrFunction Op) :
    (F.markTarget annos).body = F.body := by
  unfold IrFunction.markTarget
  split <;> rfl

theorem markTarget_name (annos : List (String × List Char)) (F : IrFunction Op) :
    (F.markTarget annos).name = F.name := by
  unfold IrFunction.markTarget
  split <;> rfl

/-! ### A pool -/

/-- What the user says of a pool: an `ALLOC` with its size, a `FREE` with its pointer. -/
def poolInfo (f : String) : Option CMAInfo :=
  if f = "pool_alloc" then some ⟨1, 1, -1, 0, -1, -1⟩
  else if f = "pool_free" then some ⟨2, 1, -1, -1, 0, -1⟩
  else none

def poolAllocBody : Func String Unit :=
  ⟨[⟨0, [], [.call (some 0) (.direct "base_alloc") [.arg 0]], .ret (some (.reg 0))⟩], 1, 1⟩

def poolFreeBody : Func String Unit := ⟨[⟨0, [], [.call none (.direct "base_free") [.arg 0]], .ret none⟩], 0, 1⟩

def poolUnmapBody : Func String Unit :=
  ⟨[⟨0, [], [.call none (.direct "munmap") [.arg 0, .arg 1]], .ret none⟩], 0, 1⟩

def poolAlloc : IrFunction Unit :=
  ⟨"pool_alloc", [.int 64], .ptr (.scalar 8), [.cmaTarget], false, some poolAllocBody⟩

def poolFree : IrFunction Unit := ⟨"pool_free", [.ptr (.scalar 8)], .void, [.cmaTarget], false, some poolFreeBody⟩

def poolUnmap : IrFunction Unit :=
  ⟨"pool_unmap", [.ptr (.scalar 8), .int 64], .void, [], false, some poolUnmapBody⟩

/-- A pool over a base allocator. -/
def poolModule : List (IrFunction Unit) := [poolAlloc, poolFree, poolUnmap]

/-- The pool after the pass. -/
def poolInstrumented : List (IrFunction Unit) :=
  [⟨"pool_alloc", [.int 64], .ptr (.scalar 8), [.cmaTarget], true,
      some ⟨[⟨0, [], [.call (some 1) (.direct kIsInOtherCMAFName) [],
        .call (some 2) (.direct kCMAExtendSizeFName) [.arg 0, .const 1, .reg 1],
        .call (some 0) (.direct "base_alloc") [.reg 2],
        .call none (.direct kAllocateCMAChunkFName) [.reg 0, .arg 0, .const 1, .const 1, .reg 1]],
          .ret (some (.reg 0))⟩], 3, 1⟩⟩,
    ⟨"pool_free", [.ptr (.scalar 8)], .void, [.cmaTarget], true,
      some ⟨[⟨1, [], [.call (some 0) (.direct kIsInOtherCMAFName) [],
        .call (some 1) (.direct kReleaseCMAChunkFName) [.arg 0, .const 1, .reg 0], .cast 2 (.reg 1),
        .isNull 3 (.reg 2)], .condBr (.reg 3) 2 0⟩, ⟨2, [], [], .ret none⟩,
        ⟨0, [], [.call none (.direct "base_free") [.reg 2]], .ret none⟩], 4, 3⟩⟩,
    ⟨"pool_unmap", [.ptr (.scalar 8), .int 64], .void, [], false,
      some ⟨[⟨0, [], [.call none (.direct "munmap") [.arg 0, .arg 1],
        .call none (.direct kCMAFlushMmapRangeFName) [.arg 0, .arg 1]], .ret none⟩], 0, 1⟩⟩]

theorem poolModule_instrumented :
    instrumentCMA poolInfo [] poolModule = some (poolInstrumented, poolInfo, ["pool_alloc", "pool_free"]) := rfl

theorem poolModule_verified : ∀ F ∈ poolModule, ∀ body, F.body = some body → body.Verified := by
  have hnil : EntryCode 0 0 ([] : List (Instr String Unit)) := IRBuilder.entryCode_nil 0
  intro F hF body hb
  simp only [poolModule, List.mem_cons, List.not_mem_nil, or_false] at hF
  rcases hF with rfl | rfl | rfl
  · obtain rfl := Option.some.inj hb
    refine Func.verified_singleton rfl rfl (by decide)
      (IRBuilder.entryCode_createCall (B := ⟨[], 0⟩) "base_alloc" hnil fun o ho => ?_) rfl fun o ho => ?_
    · obtain rfl := List.mem_singleton.mp ho
      trivial
    · obtain rfl := Option.some.inj ho
      exact List.mem_singleton_self _
  · obtain rfl := Option.some.inj hb
    refine Func.verified_singleton rfl rfl (by decide)
      (IRBuilder.entryCode_createVoidCall (B := ⟨[], 0⟩) "base_free" hnil fun o ho => ?_) rfl fun o ho => by cases ho
    obtain rfl := List.mem_singleton.mp ho
    trivial
  · obtain rfl := Option.some.inj hb
    refine Func.verified_singleton rfl rfl (by decide)
      (IRBuilder.entryCode_createVoidCall (B := ⟨[], 0⟩) "munmap" hnil fun o ho => ?_) rfl fun o ho => by cases ho
    simp only [List.mem_cons, List.not_mem_nil, or_false] at ho
    rcases ho with rfl | rfl <;> trivial

theorem poolModule_distinct : ∀ F ∈ poolModule, (getCMAInfo poolInfo F.name).Distinct := by
  intro F hF
  simp only [poolModule, List.mem_cons, List.not_mem_nil, or_false] at hF
  rcases hF with rfl | rfl | rfl
  · exact ⟨fun h => absurd h (by decide), fun h => absurd h (by decide)⟩
  · exact ⟨fun h => absurd h (by decide), fun _ h => absurd h (by decide)⟩
  · exact ⟨fun h => absurd h (by decide), fun h => absurd h (by decide)⟩

/-- A machine that writes down what is called outside of the module; all returns 0. -/
def loggingMachine : Machine String Unit (List (String × List ℕ)) :=
  ⟨fun _ _ => pure 0, fun f as s o s' => o = .ok 0 ∧ s' = s ++ [(f, as)], fun _ => none⟩

/-! ### The whole pass -/

section InstrumentCMA

variable {infoMap infoMap' : String → Option CMAInfo} {annos : List (String × List Char)}
  {M M' : List (IrFunction Op)} {names : List String} (hv : ∀ F ∈ M, ∀ body, F.body = some body → body.Verified)
  (hd : ∀ F ∈ M, (getCMAInfo infoMap' F.name).Distinct)
  (h : instrumentCMA infoMap annos M = some (M', infoMap', names))

include h in
theorem instrumentCMA_functions :
    instrumentFunctions infoMap' (M.map (·.markTarget annos)) = some (M', names) := by
  unfold instrumentCMA at h
  split at h
  · cases h
  · obtain ⟨⟨M₁, names₁⟩, hi, he⟩ := Option.map_eq_some_iff.mp h
    cases he
    exact hi

include hv hd h in
theorem instrumentCMA_forall₂ : List.Forall₂ (Instrumented infoMap') (M.map (·.markTarget annos)) M' := by
  refine instrumentFunctions_forall₂ (fun F hF body hb => ?_) (fun F hF body _ => ?_) (instrumentCMA_functions h)
  · obtain ⟨F₀, hF₀, rfl⟩ := List.mem_map.mp hF
    exact hv F₀ hF₀ body ((markTarget_body annos F₀).symm.trans hb)
  · obtain ⟨F₀, hF₀, rfl⟩ := List.mem_map.mp hF
    rw [markTarget_name]
    exact hd F₀ hF₀

include hv hd h in
/-- **The instrumented module** does what it is to do, whatever the hooks and
the functions outside of it do. -/
theorem instrumentCMA_call (X : Machine String Op σ) (f : String) (as : List ℕ) :
    call X (moduleFn X M') f as = call X (instrumentedFn X infoMap' (M.map (·.markTarget annos))) f as := by
  rw [moduleFn_instrumented (instrumentCMA_forall₂ hv hd h) X]

/-- A call of the pool's `pool_alloc`. -/
theorem instrumentCMA_call_pool :
    call loggingMachine (moduleFn loggingMachine poolInstrumented) "pool_alloc" [32] =
      call loggingMachine (instrumentedFn loggingMachine poolInfo poolModule) "pool_alloc" [32] :=
  instrumentCMA_call poolModule_verified poolModule_distinct poolModule_instrumented loggingMachine "pool_alloc" [32]

include hv h in
/-- **The instrumented module** is one that a verifier passes, but for a target
whose hook would read its own value, and a `FREE` whose info names no pointer. -/
theorem instrumentCMA_verified :
    List.Forall₂ (fun F F' => ∀ body', F'.body = some body' → (body'.Verified ↔ F.target = none ∨
      ((getCMAInfo infoMap' F.name).NamesPointer ∧ (getCMAInfo infoMap' F.name).Distinct)))
      (M.map (·.markTarget annos)) M' := by
  refine (instrumentFunctions_steps (instrumentCMA_functions h)).imp fun F _ ⟨hF, _, _, h₁, hm⟩ => ?_
  obtain ⟨F₀, hF₀, rfl⟩ := List.mem_map.mp hF
  exact verified_step (fun body hb => hv F₀ hF₀ body ((markTarget_body annos F₀).symm.trans hb)) h₁ hm

/-- A pool whose `pool_calloc` names one argument for the size and for the number. -/
def sharedInfo (f : String) : Option CMAInfo :=
  if f = "pool_calloc" then some ⟨4, 1, -1, 0, -1, 0⟩ else poolInfo f

def poolCalloc : IrFunction Unit :=
  ⟨"pool_calloc", [.int 64], .ptr (.scalar 8), [.cmaTarget], false, some poolAllocBody⟩

/-- `pool_calloc` is refused, `pool_free` is not. -/
theorem instrumentCMA_verified_shared : ∃ M' names,
    instrumentCMA sharedInfo [] [poolCalloc, poolFree] = some (M', sharedInfo, names) ∧
      List.Forall₂ (fun F F' => ∀ body', F'.body = some body' → (body'.Verified ↔ F.name = "pool_free"))
        [poolCalloc, poolFree] M' := by
  have hv : ∀ F ∈ [poolCalloc, poolFree], ∀ body, F.body = some body → body.Verified := by
    intro F hF body hb
    rcases List.mem_cons.mp hF with rfl | hF
    · exact poolModule_verified poolAlloc List.mem_cons_self body hb
    · obtain rfl := List.mem_singleton.mp hF
      exact poolModule_verified poolFree (List.mem_cons_of_mem _ List.mem_cons_self) body hb
  obtain ⟨M', names, hpass⟩ : ∃ M' names,
      instrumentCMA sharedInfo [] [poolCalloc, poolFree] = some (M', sharedInfo, names) := ⟨_, _, rfl⟩
  refine ⟨M', names, hpass, ?_⟩
  have hall := instrumentCMA_verified hv hpass
  cases hall with
  | cons hcalloc hrest =>
    cases hrest with
    | cons hfree hnil =>
      cases hnil
      refine .cons (fun body' hb => (hcalloc body' hb).trans ?_)
        (.cons (fun body' hb => (hfree body' hb).trans ?_) .nil)
      · refine iff_of_false ?_ (by decide)
        rintro (hn | hn)
        · cases hn
        · exact absurd (hn.2.num rfl rfl) (by decide)
      · refine iff_of_true (.inr ⟨fun _ => by decide, ?_⟩) rfl
        exact ⟨fun h => absurd h (by decide), fun _ h => absurd h (by decide)⟩

end InstrumentCMA

end Cmasan
