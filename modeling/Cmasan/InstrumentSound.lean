/-
# What an instrumented function does

`hooked` says what the pass is for: the function as it was, between the calls
of the hooks. An allocation asks for the extended size and then tells the
runtime the size it was asked for; a free passes on what the release hook
returns, or does nothing if there is nothing to free. `hooked` is written in
terms of what the function as it was returns; the pass rewrites blocks,
operands and returns. They agree for every function that a verifier passes,
with loops and exceptions, and whatever the hooks do
(`instrumentTargetFunction_value`).

Key definitions: `zoneId`, `hooked`, `CMAInfo.Distinct`.
Key theorems: `getCMAQuarantineZoneID_spec`, `replace_restore`,
`instrumentTargetFunction_value`.
-/
import Cmasan.Instrument

namespace Cmasan

open Lib Ssa

variable {Op σ : Type}

/-! ### The purpose of the pass -/

/-- The argument of an index. -/
def argIdx (i : Int32) : ℕ := i.toInt.toNat

/-- The id of the CMA instance that a call is for. -/
def zoneId (F : IrFunction Op) (info : CMAInfo) (args : ℕ → ℕ) : ℕ :=
  if info.idIdx ≠ -1 then args (argIdx info.idIdx)
  else if info.id ≠ -1 then (BitVec.ofInt 64 info.id.toInt).toNat
  else if info.ptrIdx = 0 ∨ info.sizeIdx = 0 then 1
  else
    match F.params with
    | .ptr _ :: _ | .int _ :: _ => args 0
    | _ => 1

/-- The granularity of a call. -/
def granularity (F : IrFunction Op) (info : CMAInfo) (args : ℕ → ℕ) : ℕ :=
  if info.cmaType = .calloc then args (argIdx info.numIdx) else (granularityOf F.retTy).getD 0

/-- What a `FREE` of nothing returns, if it returns at once. -/
def earlyReturn (retTy : Ty) : Option ℕ :=
  match retTy with
  | .void => some 0
  | .int 8 => some 1
  | .ptr _ => some 0
  | _ => none

section Hooked

variable (S : Sem String Op σ) (F : IrFunction Op) (body : Func String Op) (info : CMAInfo) (args : ℕ → ℕ)

/-- `ALLOC`, `CALLOC` and `REALLOC`. -/
def hookedAlloc : Comp σ ℕ := do
  let isInCMA ← S.call kIsInOtherCMAFName []
  if info.sizeIdx = -1 ∨ info.cmaType = .calloc ∧ info.numIdx = -1 then body.value S args
  else
    let size := args (argIdx info.sizeIdx)
    let granularity := granularity F info args
    let id := zoneId F info args
    let extended ← S.call kCMAExtendSizeFName [size, granularity, isInCMA]
    let args' := Function.update args (argIdx info.sizeIdx) extended
    if info.cmaType = .realloc then
      let oldPtr := args (argIdx info.ptrIdx)
      let _ ← S.call kReallocateCMAChunkStartFName [oldPtr, isInCMA, id]
      let newPtr ← body.value S args'
      let _ ← S.call kReallocateCMAChunkEndFName [oldPtr, newPtr, size, granularity, id, isInCMA]
      return newPtr
    else
      let ptr ← body.value S args'
      let _ ← S.call kAllocateCMAChunkFName [ptr, size, granularity, id, isInCMA]
      return ptr

/-- `FREE`. -/
def hookedFree : Comp σ ℕ := do
  let isInCMA ← S.call kIsInOtherCMAFName []
  if info.ptrIdx = -1 then .stuck
  else
    let released ← S.call kReleaseCMAChunkFName [args (argIdx info.ptrIdx), zoneId F info args, isInCMA]
    let rest := body.value S (Function.update args (argIdx info.ptrIdx) released)
    match earlyReturn F.retTy with
    | some v => if released = 0 then return v else rest
    | none => rest

/-- `CLEAR` and `GC`. -/
def hookedScope (hook : String) : Comp σ ℕ := do
  let _ ← S.call kIsInOtherCMAFName []
  let _ ← S.call hook [zoneId F info args]
  body.value S args

/-- `SIZE`. -/
def hookedSize : Comp σ ℕ := do
  let size ← body.value S args
  S.call kCMASizeGetterFName [args (argIdx info.ptrIdx), size]

/-- The function between its hooks. -/
def hooked : Comp σ ℕ :=
  match info.cmaType with
  | .none => body.value S args
  | .logTarget => S.call kLogCMARelatedFName [] >>= fun _ => body.value S args
  | .alloc | .calloc | .realloc => hookedAlloc S F body info args
  | .free => hookedFree S F body info args
  | .clear => hookedScope S F body info args kCMAClearCMAChunksFName
  | .gc => hookedScope S F body info args kCMAEmptyQuarantineOnGC
  | .size => hookedSize S body info args
  | .undefined => S.call kIsInOtherCMAFName [] >>= fun _ => body.value S args

end Hooked

/-- The indexes that may not be the same argument: a hook's own argument is
then replaced by what the hook gives. -/
structure CMAInfo.Distinct (info : CMAInfo) : Prop where
  num : info.cmaType = .calloc → info.numIdx = info.sizeIdx → info.sizeIdx = -1
  id : info.cmaType = .free → info.idIdx = info.ptrIdx → info.ptrIdx = -1

/-! ### Builders -/

section Builder

variable (S : Sem String Op σ) (args ρ : ℕ → ℕ) (B : IRBuilder Op) (f : String) (as : List Operand)

theorem exec_createCall : execInstrs S args (B.createCall f as).2.instrs ρ =
    execInstrs S args B.instrs ρ >>= fun ρ => S.call f (as.map (·.eval args ρ)) >>= fun v =>
      pure (Function.update ρ B.nextReg v) := by
  unfold IRBuilder.createCall
  rw [execInstrs_append]
  congr 1
  funext ρ₁
  simp only [execInstrs, Instr.exec, Callee.call, setDst, bind_assoc, pure_bind]

theorem exec_createVoidCall : execInstrs S args (B.createVoidCall f as).instrs ρ =
    execInstrs S args B.instrs ρ >>= fun ρ => S.call f (as.map (·.eval args ρ)) >>= fun _ => pure ρ := by
  unfold IRBuilder.createVoidCall
  rw [execInstrs_append]
  congr 1
  funext ρ₁
  simp only [execInstrs, Instr.exec, Callee.call, setDst, bind_assoc, pure_bind]

theorem exec_createIsNull (v : Operand) : execInstrs S args (B.createIsNull v).2.instrs ρ =
    execInstrs S args B.instrs ρ >>= fun ρ =>
      pure (Function.update ρ B.nextReg (if v.eval args ρ = 0 then 1 else 0)) := by
  unfold IRBuilder.createIsNull
  rw [execInstrs_append]
  congr 1
  funext ρ₁
  simp only [execInstrs, Instr.exec, pure_bind]

end Builder

/-- **The hook keeps its own argument.** Replacing all uses of the argument
`a` and then putting it back in the call that took it first leaves what was
inserted as it was, if nothing else there takes `a`. -/
theorem replace_restore (is js : List (Instr String Op)) {a r m : ℕ} {f : String} {as : List Operand}
    (v : Operand) (h : ∀ i ∈ is ++ js, .arg a ∉ i.operands ∧ i.dst ≠ some r) (has : .arg a ∉ as) :
    ((⟨is ++ .call (some r) (.direct f) (.arg a :: as) :: js, m⟩ : IRBuilder Op).replaceAllUsesWith a
      v).setArgOperand0 (.reg r) (.arg a) = ⟨is ++ .call (some r) (.direct f) (.arg a :: as) :: js, m⟩ := by
  have hkeep : ∀ l : List (Instr String Op), (∀ i ∈ l, .arg a ∉ i.operands ∧ i.dst ≠ some r) →
      ((⟨l, m⟩ : IRBuilder Op).replaceAllUsesWith a v).setArgOperand0 (.reg r) (.arg a) = ⟨l, m⟩ := by
    intro l hl
    unfold IRBuilder.replaceAllUsesWith IRBuilder.setArgOperand0
    congr 1
    rw [List.map_map]
    conv_rhs => rw [← List.map_id l]
    apply List.map_congr_left
    intro i hi
    obtain ⟨ho, hd⟩ := hl i hi
    show _ = i
    rw [Function.comp_apply, Instr.mapOperands_replaceArg v ho]
    split
    · rename_i dst f o os
      rw [if_neg]
      intro he
      cases he
      exact hd rfl
    · rfl
  have hcall : (Instr.call (some r) (.direct f) (.arg a :: as) : Instr String Op).mapOperands (replaceArg a v) =
      .call (some r) (.direct f) (v :: as) := by
    show Instr.call (some r) (.direct f) ((Operand.arg a :: as).map (replaceArg a v)) = _
    rw [List.map_cons, map_replaceArg v has, replaceArg, if_pos rfl]
  have his := hkeep is fun i hi => h i (List.mem_append_left _ hi)
  have hjs := hkeep js fun i hi => h i (List.mem_append_right _ hi)
  unfold IRBuilder.replaceAllUsesWith IRBuilder.setArgOperand0 at his hjs ⊢
  simp only [IRBuilder.mk.injEq, and_true] at his hjs
  simp only [List.map_append, List.map_cons, his, hjs, hcall, if_pos]

/-! ### The id -/

theorem argIdx_inj {i j : Int32} (hi : 0 ≤ i.toInt) (hj : 0 ≤ j.toInt) (h : argIdx i = argIdx j) : i = j := by
  apply Int32.toInt_inj.mp
  unfold argIdx at h
  omega

theorem argIdx_ne_zero {i : Int32} (hi : 0 ≤ i.toInt) (h : i ≠ 0) : argIdx i ≠ 0 :=
  fun h0 => h (argIdx_inj hi (by decide) (h0.trans (by decide)))

theorem getArg_eq {F : IrFunction Op} {i : Int32} {o : Operand} (h : F.getArg i = some o) :
    0 ≤ i.toInt ∧ o = .arg (argIdx i) := by
  unfold IrFunction.getArg at h
  split at h
  · rename_i hi
    exact ⟨hi.1, (Option.some.inj h).symm⟩
  · cases h

/-- The operand `o` is the id of the instance, after the instructions of `B`;
they write only registers from `n` on, and take neither the pointer nor the
size. -/
structure ZoneIdSpec (F : IrFunction Op) (info : CMAInfo) (n : ℕ) (o : Operand) (B : IRBuilder Op) : Prop where
  le : n ≤ B.nextReg
  dst : ∀ i ∈ B.instrs, ∀ r, i.dst = some r → r < B.nextReg
  operands : ∀ i ∈ B.instrs, ∀ j : Int32, 0 ≤ j.toInt → j = info.ptrIdx ∨ j = info.sizeIdx →
    .arg (argIdx j) ∉ i.operands
  notPtr : 0 ≤ info.ptrIdx.toInt → info.idIdx ≠ info.ptrIdx → o ≠ .arg (argIdx info.ptrIdx)
  exec : ∀ {σ : Type} (S : Sem String Op σ) (args ρ : ℕ → ℕ), ∃ ρ₁, execInstrs S args B.instrs ρ = pure ρ₁ ∧
    (∀ r < n, ρ₁ r = ρ r) ∧
    ∀ ρ₂ : ℕ → ℕ, (∀ r, n ≤ r → r < B.nextReg → ρ₂ r = ρ₁ r) → o.eval args ρ₂ = zoneId F info args

theorem ZoneIdSpec.of_value {F : IrFunction Op} {info : CMAInfo} {n : ℕ} {o : Operand}
    (hp : 0 ≤ info.ptrIdx.toInt → info.idIdx ≠ info.ptrIdx → o ≠ .arg (argIdx info.ptrIdx))
    (hv : ∀ args ρ : ℕ → ℕ, o.eval args ρ = zoneId F info args) : ZoneIdSpec F info n o ⟨[], n⟩ where
  le := Nat.le_refl n
  dst i hi := by cases hi
  operands i hi := by cases hi
  notPtr := hp
  exec S args ρ := ⟨ρ, rfl, fun _ _ => rfl, fun ρ₂ _ => hv args ρ₂⟩

/-- **The id operand** has the value of the id. -/
theorem getCMAQuarantineZoneID_spec {F : IrFunction Op} {info : CMAInfo} {n : ℕ} {o : Operand} {B : IRBuilder Op}
    (h : getCMAQuarantineZoneID ⟨[], n⟩ F info = some (o, B)) : ZoneIdSpec F info n o B := by
  unfold getCMAQuarantineZoneID at h
  by_cases hidx : info.idIdx ≠ -1
  · rw [if_pos hidx] at h
    obtain ⟨o', ho, he⟩ := Option.map_eq_some_iff.mp h
    obtain ⟨rfl, rfl⟩ := Prod.mk.inj he
    obtain ⟨hnn, rfl⟩ := getArg_eq ho
    refine .of_value (fun hp hne he => hne (argIdx_inj hnn hp (Operand.arg.inj he))) fun args ρ => ?_
    unfold zoneId
    rw [if_pos hidx]
    rfl
  rw [if_neg hidx] at h
  by_cases hid : info.id ≠ -1
  · rw [if_pos hid] at h
    obtain ⟨rfl, rfl⟩ := Prod.mk.inj (Option.some.inj h)
    refine .of_value (fun _ _ => by simp) fun args ρ => ?_
    unfold zoneId
    rw [if_neg hidx, if_pos hid]
    rfl
  rw [if_neg hid] at h
  by_cases hfirst : info.ptrIdx = 0 ∨ info.sizeIdx = 0
  · rw [if_pos hfirst] at h
    obtain ⟨rfl, rfl⟩ := Prod.mk.inj (Option.some.inj h)
    refine .of_value (fun _ _ => by simp) fun args ρ => ?_
    unfold zoneId
    rw [if_neg hidx, if_neg hid, if_pos hfirst]
    rfl
  rw [if_neg hfirst] at h
  have hz : ∀ args, zoneId F info args = match F.params with
      | .ptr _ :: _ | .int _ :: _ => args 0
      | _ => 1 := by
    intro args
    unfold zoneId
    rw [if_neg hidx, if_neg hid, if_neg hfirst]
  have hnp : 0 ≤ info.ptrIdx.toInt → Operand.arg 0 ≠ .arg (argIdx info.ptrIdx) := fun hp he =>
    argIdx_ne_zero hp (fun h0 => hfirst (.inl h0)) (Operand.arg.inj he).symm
  rcases hps : F.params with _ | ⟨t, ps⟩
  · rw [hps] at h
    obtain ⟨rfl, rfl⟩ := Prod.mk.inj (Option.some.inj h)
    exact .of_value (fun _ _ => by simp) fun args ρ => by rw [hz, hps]; rfl
  rw [hps] at h
  cases t with
  | ptr e =>
    obtain ⟨rfl, rfl⟩ := Prod.mk.inj (Option.some.inj h)
    refine ⟨Nat.le_succ n, ?_, ?_, fun _ _ => by simp, fun S args ρ => ?_⟩
    · intro i hi r hr
      obtain rfl := List.mem_singleton.mp hi
      cases hr
      exact Nat.lt_succ_self n
    · intro i hi j hj hji hmem
      obtain rfl := List.mem_singleton.mp hi
      have h0 := Operand.arg.inj (List.mem_singleton.mp hmem)
      refine argIdx_ne_zero hj (fun h0 => hfirst ?_) h0
      rcases hji with rfl | rfl
      · exact .inl h0
      · exact .inr h0
    · refine ⟨Function.update ρ n (args 0), by simp [execInstrs, Instr.exec, Operand.eval],
        fun r hr => Function.update_of_ne (by omega) _ _, fun ρ₂ h₂ => ?_⟩
      rw [hz, hps]
      show ρ₂ n = args 0
      rw [h₂ n (Nat.le_refl n) (Nat.lt_succ_self n), Function.update_self]
  | int bits =>
    by_cases hb : Ty.int bits = intTy
    · obtain ⟨rfl, rfl⟩ := Prod.mk.inj (Option.some.inj ((if_pos hb).symm.trans h))
      exact .of_value (fun hp _ => hnp hp) fun args ρ => by rw [hz, hps]; rfl
    · have := (if_neg hb).symm.trans h
      cases this
  | void =>
    obtain ⟨rfl, rfl⟩ := Prod.mk.inj (Option.some.inj h)
    exact .of_value (fun _ _ => by simp) fun args ρ => by rw [hz, hps]; rfl
  | other =>
    obtain ⟨rfl, rfl⟩ := Prod.mk.inj (Option.some.inj h)
    exact .of_value (fun _ _ => by simp) fun args ρ => by rw [hz, hps]; rfl

/-! ### The returns -/

theorem instrumentReturns_follows {S : Sem String Op σ} {args : ℕ → ℕ}
    {hook : ℕ → Operand → Option (List (Instr String Op) × Operand × ℕ)} {tail : ℕ → (ℕ → ℕ) → Comp σ ℕ}
    (hhook : ∀ n v is v' n', hook n v = some (is, v', n') → ∀ ρ,
      (execInstrs S args is ρ >>= fun ρ' => pure (v'.eval args ρ')) = tail (v.eval args ρ) ρ) :
    ∀ {bs bs' : List (BasicBlock String Op)} {n n' : ℕ}, instrumentReturns hook n bs = some (bs', n') →
      List.Forall₂ (Follows S S args args id Left.val fun l => tail l.val l.regs) bs bs'
  | [], bs', n, n', h => by
    obtain ⟨rfl, -⟩ := Prod.mk.inj (Option.some.inj h)
    exact .nil
  | b :: bs, bs', n, n', h => by
    unfold instrumentReturns at h
    split at h
    · cases h
    · rename_i v hb
      split at h
      · cases h
      · rename_i is v' n₁ hv
        obtain ⟨⟨bs₁, n₂⟩, hr, he⟩ := Option.map_eq_some_iff.mp h
        obtain ⟨rfl, -⟩ := Prod.mk.inj he
        exact .cons (follows_insertBeforeRet hb (hhook n v is v' n₁ hv)) (instrumentReturns_follows hhook hr)
    · rename_i hno hsome
      obtain ⟨⟨bs₁, n₂⟩, hr, he⟩ := Option.map_eq_some_iff.mp h
      obtain ⟨rfl, -⟩ := Prod.mk.inj he
      refine .cons (follows_of_no_ret fun v hv => ?_) (instrumentReturns_follows hhook hr)
      cases v with
      | none => exact hno hv
      | some v => exact hsome v hv

/-- **A function with hooks at its entry and its returns** runs the first, then
the body, then the last on what the body returns. -/
theorem withReturns_value {F F' : IrFunction Op} {body : Func String Op} {B : IRBuilder Op}
    {hook : ℕ → Operand → Option (List (Instr String Op) × Operand × ℕ)} (hentry : body.EntryWf)
    (h : F.withReturns body B hook = some F') : ∃ body', F'.body = some body' ∧
      ∀ {σ : Type} (S : Sem String Op σ) (args : ℕ → ℕ) (tail : ℕ → (ℕ → ℕ) → Comp σ ℕ),
        (∀ n v is v' n', hook n v = some (is, v', n') → ∀ ρ,
          (execInstrs S args is ρ >>= fun ρ' => pure (v'.eval args ρ')) = tail (v.eval args ρ) ρ) →
        body'.value S args = execInstrs S args B.instrs (fun _ => 0) >>= fun ρ =>
          body.exec S args ρ >>= fun r => tail r.val r.regs := by
  obtain ⟨⟨blocks, n⟩, hr, rfl⟩ := Option.map_eq_some_iff.mp h
  refine ⟨_, rfl, fun S args tail hhook => ?_⟩
  have hall : List.Forall₂ (Follows S S args args id Left.val fun l => tail l.val l.regs)
      (body.insertEntry B.instrs).blocks blocks := instrumentReturns_follows hhook hr
  have he := exec_forall₂ (G := { body with blocks := blocks, nextReg := n }) hall fun _ => 0
  rw [exec_insertEntry S args hentry, bind_assoc] at he
  exact he

/-- **A function with hooks at its entry** runs them and then the body. -/
theorem withEntry_value (F : IrFunction Op) {body : Func String Op} (B : IRBuilder Op) (hentry : body.EntryWf) :
    ∃ body', (F.withEntry body B).body = some body' ∧ ∀ {σ : Type} (S : Sem String Op σ) (args : ℕ → ℕ),
      body'.value S args = execInstrs S args B.instrs (fun _ => 0) >>= fun ρ =>
        body.exec S args ρ >>= fun r => pure r.val := by
  refine ⟨_, rfl, fun S args => ?_⟩
  have he := exec_insertEntry S args hentry B.instrs fun _ => 0
  show (body.insertEntry B.instrs).exec S args (fun _ => 0) >>= _ = _
  rw [he, bind_assoc]

/-! ### One type at a time -/

theorem argAt_none {F : IrFunction Op} {i : Int32} (h : F.argAt i = some none) : i = -1 := by
  unfold IrFunction.argAt at h
  split at h
  · assumption
  · obtain ⟨_, -, he⟩ := Option.map_eq_some_iff.mp h
    cases he

theorem argAt_some {F : IrFunction Op} {i : Int32} {o : Operand} (h : F.argAt i = some (some o)) :
    i ≠ -1 ∧ 0 ≤ i.toInt ∧ o = .arg (argIdx i) := by
  unfold IrFunction.argAt at h
  split at h
  · cases h
  · rename_i hi
    obtain ⟨o', ho, he⟩ := Option.map_eq_some_iff.mp h
    cases he
    exact ⟨hi, getArg_eq ho⟩

section Types

variable {F F' : IrFunction Op} {body : Func String Op} {info : CMAInfo} {b : Bool}

/-- What the instructions of `getCMAQuarantineZoneID` and the call of
`__asan_isInOtherCMA` leave. -/
theorem ZoneIdSpec.inCMA {o : Operand} {B : IRBuilder Op} {n : ℕ} (h : ZoneIdSpec F info n o B)
    (S : Sem String Op σ) (args : ℕ → ℕ) : ∃ ρ₁ : ℕ → ℕ, (∀ r < n, ρ₁ r = 0) ∧
      (∀ ρ₂ : ℕ → ℕ, (∀ r, n ≤ r → r < B.nextReg → ρ₂ r = ρ₁ r) → o.eval args ρ₂ = zoneId F info args) ∧
      execInstrs S args (B.createCall kIsInOtherCMAFName []).2.instrs (fun _ => 0) =
        S.call kIsInOtherCMAFName [] >>= fun v => pure (Function.update ρ₁ B.nextReg v) := by
  obtain ⟨ρ₁, he, hlow, hval⟩ := h.exec S args fun _ => 0
  refine ⟨ρ₁, hlow, hval, ?_⟩
  rw [exec_createCall, he, pure_bind]
  rfl

/-- `CLEAR` and `GC`. -/
theorem instrumentScope_value {hook : String} (hwf : body.Wf)
    (h : F.instrumentScope body info hook = some (b, F')) : ∃ body', F'.body = some body' ∧
      ∀ {σ : Type} (S : Sem String Op σ) (args : ℕ → ℕ),
        body'.value S args = hookedScope S F body info args hook := by
  obtain ⟨⟨idArg, B⟩, hz, h⟩ := Option.bind_eq_some_iff.mp h
  obtain ⟨-, rfl⟩ := Prod.mk.inj (Option.some.inj h)
  have hspec := getCMAQuarantineZoneID_spec hz
  obtain ⟨body', hb, hv⟩ := withEntry_value F
    ((B.createCall kIsInOtherCMAFName []).2.createVoidCall hook [idArg]) hwf.entry
  refine ⟨body', hb, fun S args => ?_⟩
  obtain ⟨ρ₁, hlow, hid, hpre⟩ := hspec.inCMA S args
  rw [hv, exec_createVoidCall, hpre]
  unfold hookedScope
  simp only [bind_assoc, pure_bind]
  congr 1
  funext v
  have hval : idArg.eval args (Function.update ρ₁ B.nextReg v) = zoneId F info args :=
    hid _ fun r _ hr => Function.update_of_ne (by omega) _ _
  simp only [List.map_cons, List.map_nil, hval]
  congr 1
  funext _
  have hbody := exec_bind S hwf.blocks args (ρ := Function.update ρ₁ B.nextReg v)
    (fun r hr => by
      have := hspec.le
      rw [Function.update_of_ne (by omega), hlow r hr])
    (k := fun r => pure r.val) (m := pure) fun _ _ _ => rfl
  rw [hbody, bind_pure]

theorem instrumentSize_value {ptrInArg : Option Operand} (hwf : body.Wf) (hp : F.argAt info.ptrIdx = some ptrInArg)
    (h : F.instrumentSize body ptrInArg = some (b, F')) : ∃ body', F'.body = some body' ∧
      ∀ {σ : Type} (S : Sem String Op σ) (args : ℕ → ℕ), body'.value S args = hookedSize S body info args := by
  obtain ⟨F₁, hw, he⟩ := Option.bind_eq_some_iff.mp h
  obtain ⟨-, rfl⟩ := Prod.mk.inj (Option.some.inj he)
  obtain ⟨body', hb, hv⟩ := withReturns_value hwf.entry hw
  refine ⟨body', hb, fun S args => ?_⟩
  rw [hv S args fun v _ => S.call kCMASizeGetterFName [args (argIdx info.ptrIdx), v]]
  · show (pure _ : Comp _ _) >>= _ = _
    rw [pure_bind]
    unfold hookedSize Func.value
    simp only [bind_assoc, pure_bind]
  · intro n v is v' n' hhook ρ
    obtain ⟨ptrIn, rfl, hsome⟩ := Option.bind_eq_some_iff.mp hhook
    obtain ⟨rfl, hrest⟩ := Prod.mk.inj (Option.some.inj hsome)
    obtain ⟨rfl, -⟩ := Prod.mk.inj hrest
    obtain ⟨-, -, rfl⟩ := argAt_some hp
    simp only [execInstrs, Instr.exec, Callee.call, setDst, bind_assoc, pure_bind, List.map_cons,
      List.map_nil, Operand.eval, Function.update_self, bind_pure]

theorem createBitCast_spec {B B' : IRBuilder Op} {y : ℕ} {t t' : Ty} {c : Operand} (hy : y < B.nextReg)
    (h : B.createBitCastOnTypeMismatch (.reg y) t t' = some (c, B')) : ∃ x js, c = .reg x ∧ y ≤ x ∧
      x < B'.nextReg ∧ B'.instrs = B.instrs ++ js ∧ (∀ i ∈ js, (∀ a, .arg a ∉ i.operands) ∧ i.dst ≠ some y) ∧
      ∀ {σ : Type} (S : Sem String Op σ) (args ρ : ℕ → ℕ), ∃ ρ', execInstrs S args js ρ = pure ρ' ∧
        ρ' x = ρ y ∧ ∀ r < B.nextReg, ρ' r = ρ r := by
  unfold IRBuilder.createBitCastOnTypeMismatch at h
  split at h
  · obtain ⟨rfl, rfl⟩ := Prod.mk.inj (Option.some.inj h)
    exact ⟨y, [], rfl, Nat.le_refl y, hy, (List.append_nil _).symm, fun i hi => absurd hi List.not_mem_nil,
      fun S args ρ => ⟨ρ, rfl, rfl, fun _ _ => rfl⟩⟩
  · split at h
    · obtain ⟨rfl, rfl⟩ := Prod.mk.inj (Option.some.inj h)
      refine ⟨B.nextReg, [.cast B.nextReg (.reg y)], rfl, by omega, Nat.lt_succ_self _, rfl, fun i hi => ?_,
        fun S args ρ =>
        ⟨Function.update ρ B.nextReg (ρ y), by simp [execInstrs, Instr.exec, Operand.eval],
          Function.update_self .., fun r hr => Function.update_of_ne (by omega) _ _⟩⟩
      obtain rfl := List.mem_singleton.mp hi
      refine ⟨fun a ha => Operand.noConfusion (List.mem_singleton.mp ha), fun hd => ?_⟩
      have := Option.some.inj hd
      omega
    · cases h

/-- The value of a function whose entry is a new block. -/
theorem value_prepend (S : Sem String Op σ) (args : ℕ → ℕ) (body : Func String Op) (n m l : ℕ)
    (is : List (Instr String Op)) (t : Term String) (new : List (BasicBlock String Op)) :
    Func.value S args ({ body with nextReg := n, nextLabel := m }.prepend (⟨l, [], is, t⟩ :: new)) =
      execInstrs S args is (fun _ => 0) >>= fun ρ => t.exec S args l ρ >>= fun r =>
        (r.elim ((body.prepend (⟨l, [], is, t⟩ :: new)).execFrom S args) pure) >>= fun r => pure r.val := by
  have h := exec_prepend S args body ⟨l, [], is, t⟩ new fun _ => 0
  have hblock : (⟨l, [], is, t⟩ : BasicBlock String Op).exec S args none (fun _ => 0) =
      execInstrs S args is (fun _ => 0) >>= fun ρ => t.exec S args l ρ := rfl
  show (body.prepend (⟨l, [], is, t⟩ :: new)).exec S args (fun _ => 0) >>= _ = _
  rw [h, hblock, bind_assoc, bind_assoc]

theorem execFrom_retBlock (S : Sem String Op σ) (args : ℕ → ℕ) (body : Func String Op) {e : BasicBlock String Op}
    {l : ℕ} (he : e.label ≠ l) (v : Option Operand) (new : List (BasicBlock String Op)) (prev : Option ℕ)
    (ρ : ℕ → ℕ) : (body.prepend (e :: ⟨l, [], [], .ret v⟩ :: new)).execFrom S args ⟨prev, l, ρ⟩ =
      pure ⟨(v.map (·.eval args ρ)).getD 0, ρ⟩ := by
  have hstep : (body.prepend (e :: ⟨l, [], [], .ret v⟩ :: new)).step S args ⟨prev, l, ρ⟩ =
      pure (.inr ⟨(v.map (·.eval args ρ)).getD 0, ρ⟩) := by
    unfold Func.step Func.block Func.prepend
    dsimp only
    rw [List.cons_append, List.find?_cons_of_neg (by simpa using he), List.cons_append,
      List.find?_cons_of_pos (by simp)]
    exact pure_bind ρ fun ρ => (Term.ret v : Term String).exec S args l ρ
  rw [Func.execFrom_eq, hstep, pure_bind]
  rfl

/-- What the new entry of a `FREE` has done when it ends: the register `x` has
what the release hook returned, and the body's registers are untouched. -/
theorem free_prelude {o : Operand} {B B' : IRBuilder Op} {n x : ℕ} {js : List (Instr String Op)}
    (hspec : ZoneIdSpec F info n o B)
    (hB' : B'.instrs = ((B.createCall kIsInOtherCMAFName []).2.createCall kReleaseCMAChunkFName
      [.arg (argIdx info.ptrIdx), o, .reg B.nextReg]).2.instrs ++ js) {S : Sem String Op σ} {args : ℕ → ℕ}
    (hjs : ∀ ρ, ∃ ρ', execInstrs S args js ρ = pure ρ' ∧ ρ' x = ρ (B.nextReg + 1) ∧
      ∀ r < B.nextReg + 2, ρ' r = ρ r) :
    ∃ R : ℕ → ℕ → ℕ → ℕ, (∀ c v, ∀ r < n, R c v r = 0) ∧ (∀ c v, R c v x = v) ∧
      execInstrs S args B'.instrs (fun _ => 0) = S.call kIsInOtherCMAFName [] >>= fun c =>
        S.call kReleaseCMAChunkFName [args (argIdx info.ptrIdx), zoneId F info args, c] >>= fun v =>
          pure (R c v) := by
  obtain ⟨ρ₁, hlow, hid, hpre⟩ := hspec.inCMA S args
  have hle := hspec.le
  choose ρ' hexec hxv hkeep using hjs
  refine ⟨fun c v => ρ' (Function.update (Function.update ρ₁ B.nextReg c) (B.nextReg + 1) v), ?_, ?_, ?_⟩
  · intro c v r hr
    show ρ' _ r = 0
    rw [hkeep _ r (by omega), Function.update_of_ne (by omega), Function.update_of_ne (by omega), hlow r hr]
  · intro c v
    show ρ' _ x = v
    rw [hxv, Function.update_self]
  · rw [hB', execInstrs_append, exec_createCall, hpre]
    simp only [bind_assoc, pure_bind]
    congr 1
    funext c
    have hval : o.eval args (Function.update ρ₁ B.nextReg c) = zoneId F info args :=
      hid _ fun r _ hr => Function.update_of_ne (by omega) _ _
    simp only [List.map_cons, List.map_nil, hval, Operand.eval_arg, Operand.eval_reg, Function.update_self,
      hexec]
    rfl

theorem earlyReturn_eq (t : Ty) (args ρ : ℕ → ℕ) :
    earlyReturn t = (earlyReturnOperand t).map fun v => (v.map (·.eval args ρ)).getD 0 := by
  unfold earlyReturn earlyReturnOperand
  split <;> simp

theorem free_restore {o : Operand} {B B₃ : IRBuilder Op} {n : ℕ} {js : List (Instr String Op)}
    (hspec : ZoneIdSpec F info n o B) (hd : info.Distinct) (ht : info.cmaType = .free)
    (hnn : 0 ≤ info.ptrIdx.toInt) (hptr : info.ptrIdx ≠ -1)
    (hB₃ : B₃.instrs = ((B.createCall kIsInOtherCMAFName []).2.createCall kReleaseCMAChunkFName
      [.arg (argIdx info.ptrIdx), o, .reg B.nextReg]).2.instrs ++ js)
    (hjs : ∀ i ∈ js, (∀ a, .arg a ∉ i.operands) ∧ i.dst ≠ some (B.nextReg + 1)) (v : Operand) :
    (B₃.replaceAllUsesWith (argIdx info.ptrIdx) v).setArgOperand0 (.reg (B.nextReg + 1))
      (.arg (argIdx info.ptrIdx)) = B₃ := by
  have hB₃' : B₃ = ⟨(B.instrs ++ [.call (some B.nextReg) (.direct kIsInOtherCMAFName) []]) ++
      .call (some (B.nextReg + 1)) (.direct kReleaseCMAChunkFName)
        (.arg (argIdx info.ptrIdx) :: [o, .reg B.nextReg]) :: js, B₃.nextReg⟩ := by
    obtain ⟨is, m⟩ := B₃
    dsimp only at hB₃
    rw [hB₃]
    simp [IRBuilder.createCall]
  rw [hB₃']
  refine replace_restore _ _ _ ?_ ?_
  · intro i hi
    rcases List.mem_append.mp hi with hi | hi
    · rcases List.mem_append.mp hi with hi | hi
      · refine ⟨hspec.operands i hi _ hnn (.inl rfl), fun hd => ?_⟩
        have := hspec.dst i hi _ hd
        omega
      · obtain rfl := List.mem_singleton.mp hi
        refine ⟨List.not_mem_nil, fun hd => ?_⟩
        have := Option.some.inj hd
        omega
    · exact ⟨(hjs i hi).1 _, (hjs i hi).2⟩
  · intro hm
    rcases List.mem_cons.mp hm with he | hm
    · exact hspec.notPtr hnn (fun he => hptr (hd.id ht he)) he.symm
    · cases List.mem_singleton.mp hm

/-- The body of a `FREE` runs on what was released, behind the new blocks. -/
theorem free_body {entry : BasicBlock String Op} {rest : List (BasicBlock String Op)} (hwf : body.Wf)
    (hblocks : body.blocks = entry :: rest) (a : ℕ) {x : ℕ} (hx : body.nextReg ≤ x) (new : List (BasicBlock String Op))
    (hnew : ∀ e ∈ new, body.nextLabel ≤ e.label) (S : Sem String Op σ) (args : ℕ → ℕ) {ρ : ℕ → ℕ}
    (hρ : ∀ r < body.nextReg, ρ r = 0) (prev : Option ℕ) :
    (((body.mapOperands (replaceArg a (.reg x))).prepend new).execFrom S args ⟨prev, entry.label, ρ⟩ >>=
      fun r => pure r.val) = body.value S (Function.update args a (ρ x)) := by
  have hmap : (body.mapOperands (replaceArg a (.reg x))).blocks =
      entry.mapOperands (replaceArg a (.reg x)) :: rest.map (·.mapOperands (replaceArg a (.reg x))) := by
    unfold Func.mapOperands
    rw [hblocks, List.map_cons]
  have htargets : ∀ b ∈ (body.mapOperands (replaceArg a (.reg x))).blocks,
      ∀ l ∈ b.term.targets, l < body.nextLabel := by
    intro b hb l hl
    obtain ⟨b₁, hb₁, rfl⟩ := List.mem_map.mp hb
    exact (hwf.blocks b₁ hb₁).targets l (by simpa [BasicBlock.mapOperands] using hl)
  have hentry : (body.mapOperands (replaceArg a (.reg x))).execFrom S args ⟨prev, entry.label, ρ⟩ =
      (body.mapOperands (replaceArg a (.reg x))).exec S args ρ :=
    execFrom_entry S args (hwf.entry.mapOperands _) hmap prev ρ
  have hlabel : entry.label < body.nextLabel := (hwf.blocks entry (hblocks ▸ List.mem_cons_self)).label
  rw [execFrom_prepend S args htargets hnew hlabel, hentry,
    exec_replaceArg_bind S hwf.blocks hx _ args hρ (m := pure) fun _ _ _ => rfl, bind_pure]

theorem instrumentFree_value {ptrInArg : Option Operand} (hwf : body.Wf) (hd : info.Distinct)
    (ht : info.cmaType = .free) (hp : F.argAt info.ptrIdx = some ptrInArg)
    (h : F.instrumentFree body info ptrInArg = some (b, F')) : ∃ body', F'.body = some body' ∧
      ∀ {σ : Type} (S : Sem String Op σ) (args : ℕ → ℕ), body'.value S args = hookedFree S F body info args := by
  obtain ⟨⟨idArg, B⟩, hz, h⟩ := Option.bind_eq_some_iff.mp h
  have hspec := getCMAQuarantineZoneID_spec hz
  have hle := hspec.le
  obtain ⟨entry, rest, hblocks⟩ : ∃ entry rest, body.blocks = entry :: rest := by
    have hentry := hwf.entry
    unfold Func.EntryWf at hentry
    split at hentry
    · exact hentry.elim
    · exact ⟨_, _, ‹_›⟩
  have hhead : body.blocks.head? = some entry := by rw [hblocks, List.head?_cons]
  rw [hhead] at h
  cases ptrInArg with
  | none =>
    have hptr := argAt_none hp
    obtain ⟨-, rfl⟩ := Prod.mk.inj (Option.some.inj h)
    refine ⟨_, rfl, fun S args => ?_⟩
    obtain ⟨ρ₁, -, -, hpre⟩ := hspec.inCMA S args
    rw [value_prepend]
    change execInstrs S args (B.createCall kIsInOtherCMAFName []).2.instrs (fun _ => 0) >>= _ = _
    rw [hpre]
    unfold hookedFree
    simp only [hptr, if_true, bind_assoc, pure_bind, Term.exec, Comp.stuck_bind]
  | some ptrIn =>
    obtain ⟨hptr, hnn, rfl⟩ := argAt_some hp
    obtain ⟨⟨c, B₃⟩, hcast, h⟩ := Option.bind_eq_some_iff.mp h
    obtain ⟨x, js, rfl, hx, hxlt, hB₃, hjs, hexec⟩ := createBitCast_spec (Nat.lt_succ_self _) hcast
    change B.nextReg + 1 ≤ x at hx
    have hrestore : (B₃.replaceAllUsesWith info.ptrIdx.toInt.toNat (.reg x)).setArgOperand0
        (.reg (B.nextReg + 1)) (.arg (argIdx info.ptrIdx)) = B₃ := free_restore hspec hd ht hnn hptr hB₃ hjs (.reg x)
    dsimp only at h
    rw [hrestore] at h
    cases hearly : earlyReturnOperand F.retTy with
    | none =>
      rw [hearly] at h
      obtain ⟨-, rfl⟩ := Prod.mk.inj (Option.some.inj h)
      refine ⟨_, rfl, fun S args => ?_⟩
      obtain ⟨R, hlow, hval, hpre⟩ := free_prelude hspec hB₃ (hexec S args)
      rw [value_prepend, hpre]
      unfold hookedFree
      rw [earlyReturn_eq F.retTy args fun _ => 0, hearly]
      simp only [bind_assoc, pure_bind, hptr, if_false, Term.exec, Sum.elim_inl, Option.map_none]
      congr 1
      funext c
      congr 1
      funext v
      have hbody := free_body hwf hblocks (argIdx info.ptrIdx) (show body.nextReg ≤ x by omega)
        [⟨body.nextLabel, [], B₃.instrs, .br entry.label⟩] (by simp) S args (hlow c v) (some body.nextLabel)
      rw [hval] at hbody
      exact hbody
    | some v =>
      rw [hearly] at h
      obtain ⟨-, rfl⟩ := Prod.mk.inj (Option.some.inj h)
      refine ⟨_, rfl, fun S args => ?_⟩
      obtain ⟨R, hlow, hval, hpre⟩ := free_prelude hspec hB₃ (hexec S args)
      rw [value_prepend, exec_createIsNull, hpre]
      unfold hookedFree
      rw [earlyReturn_eq F.retTy args fun _ => 0, hearly]
      simp only [bind_assoc, pure_bind, hptr, if_false, Term.exec, Sum.elim_inl, Option.map_some]
      congr 1
      funext c
      congr 1
      funext r
      have hx' : Function.update (R c r) B₃.nextReg (if r = 0 then 1 else 0) x = r := by
        rw [Function.update_of_ne (by omega), hval]
      have hlow' : ∀ r' < body.nextReg, Function.update (R c r) B₃.nextReg (if r = 0 then 1 else 0) r' = 0 := by
        intro r' hr'
        rw [Function.update_of_ne (by omega), hlow c r r' hr']
      have hv : ∀ ρ : ℕ → ℕ, (v.map (·.eval args ρ)).getD 0 = (v.map (·.eval args fun _ => 0)).getD 0 := by
        intro ρ
        have h₁ := earlyReturn_eq F.retTy args ρ
        have h₂ := earlyReturn_eq F.retTy args fun _ => 0
        rw [hearly] at h₁ h₂
        exact Option.some.inj (h₁.symm.trans h₂)
      have hnull : (B₃.createIsNull (.reg x)).1 = .reg B₃.nextReg := rfl
      simp only [hnull, Operand.eval_reg, hval, Function.update_self]
      by_cases hr : r = 0
      · simp only [hr, if_true]
        have hret := execFrom_retBlock S args (body.mapOperands (replaceArg (argIdx info.ptrIdx) (.reg x)))
          (e := ⟨body.nextLabel, [], (B₃.createIsNull (.reg x)).2.instrs,
            .condBr (.reg B₃.nextReg) (body.nextLabel + 1) entry.label⟩) (Nat.succ_ne_self body.nextLabel).symm
          v [] (some body.nextLabel) (Function.update (R c 0) B₃.nextReg 1)
        rw [hv] at hret
        simp only [ne_eq, Nat.one_ne_zero, not_false_eq_true, if_true]
        change (Func.execFrom S args _ _ >>= _) = _
        rw [← pure_bind (⟨(v.map (·.eval args fun _ => 0)).getD 0, Function.update (R c 0) B₃.nextReg 1⟩ : Left)
          fun r => (pure r.val : Comp _ ℕ), ← hret]
        rfl
      · have hbody := free_body hwf hblocks (argIdx info.ptrIdx) (show body.nextReg ≤ x by omega)
          [⟨body.nextLabel, [], (B₃.createIsNull (.reg x)).2.instrs,
              .condBr (.reg B₃.nextReg) (body.nextLabel + 1) entry.label⟩,
            ⟨body.nextLabel + 1, [], [], .ret v⟩] (by simp) S args hlow' (some body.nextLabel)
        rw [hx'] at hbody
        simp only [hr, if_false, ne_eq, not_true_eq_false] at hbody ⊢
        exact hbody

theorem granularityArg_spec {g : Operand} (hd : info.Distinct) (hnn : 0 ≤ info.sizeIdx.toInt)
    (hs : info.sizeIdx ≠ -1)
    (h : F.granularityArg info = some g) :
    (∀ args ρ : ℕ → ℕ, g.eval args ρ = granularity F info args) ∧ g ≠ .arg (argIdx info.sizeIdx) := by
  unfold IrFunction.granularityArg at h
  unfold granularity
  by_cases hc : info.cmaType = .calloc
  · rw [if_pos hc] at h
    obtain ⟨hn, rfl⟩ := getArg_eq h
    refine ⟨fun args ρ => by rw [if_pos hc]; rfl, fun he => ?_⟩
    exact hs (hd.num hc (argIdx_inj hn hnn (Operand.arg.inj he)))
  · rw [if_neg hc] at h
    obtain ⟨n, hn, rfl⟩ := Option.map_eq_some_iff.mp h
    exact ⟨fun args ρ => by rw [if_neg hc, hn]; rfl, by simp⟩

/-- What the entry of an allocation has done up to the extended size. -/
theorem alloc_prelude {o g : Operand} {B : IRBuilder Op} {n : ℕ} (hspec : ZoneIdSpec F info n o B)
    (S : Sem String Op σ) {args : ℕ → ℕ} (hg : ∀ ρ : ℕ → ℕ, g.eval args ρ = granularity F info args) :
    ∃ R : ℕ → ℕ → ℕ → ℕ, (∀ c e, ∀ r < n, R c e r = 0) ∧ (∀ c e, R c e B.nextReg = c) ∧
      (∀ c e, R c e (B.nextReg + 1) = e) ∧
      (∀ c e, ∀ ρ₂ : ℕ → ℕ, (∀ r, n ≤ r → ρ₂ r = R c e r) → o.eval args ρ₂ = zoneId F info args) ∧
      execInstrs S args ((B.createCall kIsInOtherCMAFName []).2.createCall kCMAExtendSizeFName
          [.arg (argIdx info.sizeIdx), g, .reg B.nextReg]).2.instrs (fun _ => 0) =
        S.call kIsInOtherCMAFName [] >>= fun c =>
          S.call kCMAExtendSizeFName [args (argIdx info.sizeIdx), granularity F info args, c] >>= fun e =>
            pure (R c e) := by
  obtain ⟨ρ₁, hlow, hid, hpre⟩ := hspec.inCMA S args
  have hle := hspec.le
  refine ⟨fun c e => Function.update (Function.update ρ₁ B.nextReg c) (B.nextReg + 1) e, ?_, ?_, ?_, ?_, ?_⟩
  · intro c e r hr
    show Function.update _ _ _ r = 0
    rw [Function.update_of_ne (by omega), Function.update_of_ne (by omega), hlow r hr]
  · intro c e
    show Function.update (Function.update ρ₁ B.nextReg c) (B.nextReg + 1) e B.nextReg = c
    rw [Function.update_of_ne (by omega), Function.update_self]
  · intro c e
    exact Function.update_self ..
  · intro c e ρ₂ h₂
    refine hid ρ₂ fun r hr hlt => ?_
    rw [h₂ r hr]
    show Function.update (Function.update ρ₁ B.nextReg c) (B.nextReg + 1) e r = ρ₁ r
    rw [Function.update_of_ne (by omega), Function.update_of_ne (by omega)]
  · rw [exec_createCall, hpre]
    simp only [bind_assoc, pure_bind]
    congr 1
    funext c
    simp only [List.map_cons, List.map_nil, hg, Operand.eval_arg, Operand.eval_reg, Function.update_self]
    rfl

theorem alloc_restore {o g : Operand} {B : IRBuilder Op} {n : ℕ} (hspec : ZoneIdSpec F info n o B)
    (hnn : 0 ≤ info.sizeIdx.toInt) (hg : g ≠ .arg (argIdx info.sizeIdx)) (v : Operand) :
    ((((B.createCall kIsInOtherCMAFName []).2.createCall kCMAExtendSizeFName
        [.arg (argIdx info.sizeIdx), g, .reg B.nextReg]).2.replaceAllUsesWith (argIdx info.sizeIdx) v).setArgOperand0
      (.reg (B.nextReg + 1)) (.arg (argIdx info.sizeIdx))) =
    ((B.createCall kIsInOtherCMAFName []).2.createCall kCMAExtendSizeFName
        [.arg (argIdx info.sizeIdx), g, .reg B.nextReg]).2 := by
  refine replace_restore (B.instrs ++ [.call (some B.nextReg) (.direct kIsInOtherCMAFName) []]) []
    (r := B.nextReg + 1) v ?_ ?_
  · intro i hi
    rw [List.append_nil] at hi
    rcases List.mem_append.mp hi with hi | hi
    · refine ⟨hspec.operands i hi _ hnn (.inr rfl), fun hd => ?_⟩
      have := hspec.dst i hi _ hd
      omega
    · obtain rfl := List.mem_singleton.mp hi
      refine ⟨List.not_mem_nil, fun hd => ?_⟩
      have := Option.some.inj hd
      omega
  · intro hm
    rcases List.mem_cons.mp hm with he | hm
    · exact hg he.symm
    · cases List.mem_singleton.mp hm

theorem instrumentAlloc_value {sizeArg ptrInArg : Option Operand} (hwf : body.Wf) (hd : info.Distinct)
    (hs : F.argAt info.sizeIdx = some sizeArg) (hp : F.argAt info.ptrIdx = some ptrInArg)
    (h : F.instrumentAlloc body info sizeArg ptrInArg = some (b, F')) : ∃ body', F'.body = some body' ∧
      ∀ {σ : Type} (S : Sem String Op σ) (args : ℕ → ℕ), body'.value S args = hookedAlloc S F body info args := by
  obtain ⟨⟨idArg, B⟩, hz, h⟩ := Option.bind_eq_some_iff.mp h
  have hspec := getCMAQuarantineZoneID_spec hz
  have hle := hspec.le
  -- without an index that it needs, the function keeps the call it has got
  have hfail : ∀ {b : Bool} {F' : IrFunction Op}, info.sizeIdx = -1 ∨ info.cmaType = .calloc ∧ info.numIdx = -1 →
      some (false, F.withEntry body (B.createCall kIsInOtherCMAFName []).2) = some (b, F') →
      ∃ body', F'.body = some body' ∧ ∀ {σ : Type} (S : Sem String Op σ) (args : ℕ → ℕ),
        body'.value S args = hookedAlloc S F body info args := by
    intro b F' hno he
    obtain ⟨-, rfl⟩ := Prod.mk.inj (Option.some.inj he)
    obtain ⟨body', hb, hv⟩ := withEntry_value F (B.createCall kIsInOtherCMAFName []).2 hwf.entry
    refine ⟨body', hb, fun S args => ?_⟩
    obtain ⟨ρ₁, hlow, -, hpre⟩ := hspec.inCMA S args
    rw [hv, hpre]
    unfold hookedAlloc
    simp only [hno, if_true, bind_assoc, pure_bind]
    congr 1
    funext c
    rw [exec_bind S hwf.blocks args (m := pure) (fun r hr => ?_) fun _ _ _ => rfl, bind_pure]
    rw [Function.update_of_ne (by omega), hlow r hr]
  cases sizeArg with
  | none => exact hfail (.inl (argAt_none hs)) h
  | some sizeArg =>
    obtain ⟨hne, hnn, rfl⟩ := argAt_some hs
    dsimp only at h
    by_cases hnum : info.cmaType = .calloc ∧ info.numIdx = -1
    · rw [if_pos hnum] at h
      exact hfail (.inr hnum) h
    rw [if_neg hnum] at h
    obtain ⟨g, hg, h⟩ := Option.bind_eq_some_iff.mp h
    obtain ⟨hgv, hgne⟩ := granularityArg_spec hd hnn hne hg
    have hrestore := alloc_restore hspec hnn hgne (.reg (B.nextReg + 1))
    by_cases hre : info.cmaType = .realloc
    · rw [if_pos hre] at h
      obtain ⟨ptrIn, hptr, h₁⟩ := Option.bind_eq_some_iff.mp h
      obtain ⟨F₁, hw, h₂⟩ := Option.bind_eq_some_iff.mp h₁
      obtain ⟨-, rfl⟩ := Prod.mk.inj (Option.some.inj h₂)
      rw [hptr] at hp
      obtain ⟨-, -, rfl⟩ := argAt_some hp
      have hw' : F.withReturns (body.mapOperands (replaceArg (argIdx info.sizeIdx) (.reg (B.nextReg + 1))))
          (((B.createCall kIsInOtherCMAFName []).2.createCall kCMAExtendSizeFName
            [.arg (argIdx info.sizeIdx), g, .reg B.nextReg]).2.createVoidCall kReallocateCMAChunkStartFName
              [.arg (argIdx info.ptrIdx), .reg B.nextReg, idArg])
          (fun n v => some ([.call none (.direct kReallocateCMAChunkEndFName) [.arg (argIdx info.ptrIdx), v,
            .arg (argIdx info.sizeIdx), g, idArg, .reg B.nextReg]], v, n)) = some F₁ := by
        rw [← hrestore]
        exact hw
      obtain ⟨body', hb, hv⟩ := withReturns_value (hwf.entry.mapOperands _) hw'
      refine ⟨body', hb, fun S args => ?_⟩
      obtain ⟨R, hlow, hc, he, hid, hpre⟩ := alloc_prelude hspec S (hgv args)
      rw [hv S args fun v ρ => S.call kReallocateCMAChunkEndFName
        [args (argIdx info.ptrIdx), v, args (argIdx info.sizeIdx), g.eval args ρ, idArg.eval args ρ, ρ B.nextReg]
          >>= fun _ => pure v]
      · rw [exec_createVoidCall, hpre]
        unfold hookedAlloc
        simp only [hne, hre, if_true, bind_assoc, pure_bind]
        congr 1
        funext c
        congr 1
        funext e
        simp only [List.map_cons, List.map_nil, Operand.eval_arg, Operand.eval_reg, hc, hid c e (R c e) fun _ _ => rfl]
        congr 1
        funext _
        rw [exec_replaceArg_bind S hwf.blocks (by omega) _ args (hlow c e), he]
        intro v ρ hρ
        simp only [hgv, hid c e ρ hρ, hρ _ hle, hc]
      · intro n v is v' n' hhook ρ
        obtain ⟨rfl, hrest⟩ := Prod.mk.inj (Option.some.inj hhook)
        obtain ⟨rfl, -⟩ := Prod.mk.inj hrest
        simp only [execInstrs, Instr.exec, Callee.call, setDst, bind_assoc, pure_bind, List.map_cons, List.map_nil,
          Operand.eval_arg, Operand.eval_reg]
    · rw [if_neg hre] at h
      obtain ⟨F₁, hw, h₁⟩ := Option.bind_eq_some_iff.mp h
      obtain ⟨-, rfl⟩ := Prod.mk.inj (Option.some.inj h₁)
      have hw' : F.withReturns (body.mapOperands (replaceArg (argIdx info.sizeIdx) (.reg (B.nextReg + 1))))
          ((B.createCall kIsInOtherCMAFName []).2.createCall kCMAExtendSizeFName
            [.arg (argIdx info.sizeIdx), g, .reg B.nextReg]).2
          (fun n v => some ([.call none (.direct kAllocateCMAChunkFName)
            [v, .arg (argIdx info.sizeIdx), g, idArg, .reg B.nextReg]], v, n)) = some F₁ := by
        rw [← hrestore]
        exact hw
      obtain ⟨body', hb, hv⟩ := withReturns_value (hwf.entry.mapOperands _) hw'
      refine ⟨body', hb, fun S args => ?_⟩
      obtain ⟨R, hlow, hc, he, hid, hpre⟩ := alloc_prelude hspec S (hgv args)
      rw [hv S args fun v ρ => S.call kAllocateCMAChunkFName
        [v, args (argIdx info.sizeIdx), g.eval args ρ, idArg.eval args ρ, ρ B.nextReg] >>= fun _ => pure v]
      · rw [hpre]
        unfold hookedAlloc
        simp only [hne, hnum, hre, or_self, if_false, bind_assoc, pure_bind]
        congr 1
        funext c
        congr 1
        funext e
        rw [exec_replaceArg_bind S hwf.blocks (by omega) _ args (hlow c e), he]
        intro v ρ hρ
        simp only [hgv, hid c e ρ hρ, hρ _ hle, hc]
      · intro n v is v' n' hhook ρ
        obtain ⟨rfl, hrest⟩ := Prod.mk.inj (Option.some.inj hhook)
        obtain ⟨rfl, -⟩ := Prod.mk.inj hrest
        simp only [execInstrs, Instr.exec, Callee.call, setDst, bind_assoc, pure_bind, List.map_cons, List.map_nil,
          Operand.eval_arg, Operand.eval_reg]

end Types

/-! ### Every type -/

/-- **The pass does what it is for.** An instrumented function that is called
does what `hooked` says, whatever the hooks and the rest of the program do. -/
theorem instrumentTargetFunction_value {F F' : IrFunction Op} {body : Func String Op} {info : CMAInfo} {b : Bool}
    (hb : F.body = some body) (hwf : body.Wf) (hd : info.Distinct)
    (h : instrumentTargetFunction F body info = some (b, F')) : ∃ body', F'.body = some body' ∧
      ∀ {σ : Type} (S : Sem String Op σ) (args : ℕ → ℕ), body'.value S args = hooked S F body info args := by
  unfold instrumentTargetFunction at h
  by_cases hnone : info.cmaType = .none
  · rw [if_pos hnone] at h
    obtain ⟨-, rfl⟩ := Prod.mk.inj (Option.some.inj h)
    refine ⟨body, hb, fun S args => ?_⟩
    unfold hooked
    rw [hnone]
  rw [if_neg hnone] at h
  by_cases hlog : info.cmaType = .logTarget
  · rw [if_pos hlog] at h
    obtain ⟨-, rfl⟩ := Prod.mk.inj (Option.some.inj h)
    obtain ⟨body', hb', hv⟩ := withEntry_value F.clearAttrs
      (IRBuilder.createVoidCall ⟨[], body.nextReg⟩ kLogCMARelatedFName []) hwf.entry
    refine ⟨body', hb', fun S args => ?_⟩
    rw [hv, exec_createVoidCall]
    unfold hooked Func.value
    rw [hlog]
    simp only [execInstrs, bind_assoc, pure_bind, List.map_nil]
  rw [if_neg hlog] at h
  obtain ⟨sizeArg, hs, h₁⟩ := Option.bind_eq_some_iff.mp h
  obtain ⟨ptrInArg, hp, h₂⟩ := Option.bind_eq_some_iff.mp h₁
  unfold hooked
  cases ht : info.cmaType with
  | none => exact absurd ht hnone
  | logTarget => exact absurd ht hlog
  | alloc | calloc | realloc =>
    rw [ht] at h₂
    exact instrumentAlloc_value (F := F.clearAttrs) hwf hd hs hp h₂
  | free =>
    rw [ht] at h₂
    exact instrumentFree_value (F := F.clearAttrs) hwf hd ht hp h₂
  | clear | gc =>
    rw [ht] at h₂
    exact instrumentScope_value (F := F.clearAttrs) hwf h₂
  | size =>
    rw [ht] at h₂
    exact instrumentSize_value (F := F.clearAttrs) hwf hp h₂
  | undefined =>
    rw [ht] at h₂
    obtain ⟨-, rfl⟩ := Prod.mk.inj (Option.some.inj h₂)
    obtain ⟨body', hb', hv⟩ := withEntry_value F.clearAttrs
      (IRBuilder.createCall ⟨[], body.nextReg⟩ kIsInOtherCMAFName []).2 hwf.entry
    refine ⟨body', hb', fun S args => ?_⟩
    rw [hv, exec_createCall]
    simp only [execInstrs, bind_assoc, pure_bind, List.map_nil]
    congr 1
    funext c
    rw [exec_bind S hwf.blocks args (m := pure) (fun r hr => ?_) fun _ _ _ => rfl, bind_pure]
    exact Function.update_of_ne (by omega) _ _

end Cmasan
