/-
# An instrumented function is in SSA form

What the pass makes of a function that a verifier passes, a verifier passes
again: each register is defined once, and what is inserted reads registers that
are there (`instrumentTargetFunction_emitted`). There are two exceptions. A
`FREE` whose info names no pointer gets an entry without a terminator. And the
uses of the size and of the pointer are replaced in the whole function, the
inserted call included, whose operand is then put back: where another operand
of the call is the same argument, the call reads its own value, and no
verifier passes that (`instrumentTargetFunction_readsAhead`).

Key definitions: `ReturnHook`, `Emitted`, `IrFunction.EntryReadsAhead`.
Key theorems: `instrumentReturns_extends`, `instrumentTargetFunction_emitted`,
`instrumentTargetFunction_readsAhead`.
-/
import Cmasan.InstrumentSound
import Cmasan.Lib.SsaWf

namespace Cmasan

open Lib Ssa

variable {Op : Type}

/-! ### Builders -/

namespace IRBuilder

/-- The registers that a builder's instructions write. -/
def defs (B : IRBuilder Op) : Set ℕ := {r | r ∈ instrDefs B.instrs}

variable {B : IRBuilder Op} {n : ℕ}

theorem below_of_in (h : EntryCode n B.nextReg B.instrs) {o : Operand} (ho : o.In B.defs) : o.Below B.nextReg := by
  cases o with
  | reg r =>
    obtain ⟨i, hi, hd⟩ := List.mem_filterMap.mp ho
    exact (h.wf i hi).dst r hd
  | _ => trivial

theorem entryCode_emit (h : EntryCode n B.nextReg B.instrs) {i : Instr String Op} (hd : i.dst = some B.nextReg)
    (hi : ∀ o ∈ i.operands, o.In B.defs) : EntryCode n (B.nextReg + 1) (B.instrs ++ [i]) := by
  have hdefs : instrDefs [i] = [B.nextReg] := by simp [instrDefs, hd]
  refine ⟨by have := h.le; omega, fun j hj => ?_, h.reads.append ⟨fun o ho => ?_, trivial⟩, ?_, fun r hr => ?_⟩
  · rcases List.mem_append.mp hj with hj | hj
    · exact (h.wf j hj).mono (Nat.le_succ _)
    · obtain rfl := List.mem_singleton.mp hj
      refine ⟨fun o ho => (below_of_in h (hi o ho)).mono (Nat.le_succ _), fun r hr => ?_, fun r hr hmem => ?_⟩
      · rw [hd] at hr
        cases hr
        exact Nat.lt_succ_self _
      · rw [hd] at hr
        cases hr
        exact Nat.lt_irrefl _ (below_of_in h (hi _ hmem))
  · rw [Set.empty_union]
    exact hi o ho
  · rw [instrDefs_append, hdefs]
    refine List.nodup_append.mpr ⟨h.nodup, List.pairwise_singleton _ _, fun r hr r' hr' => ?_⟩
    obtain rfl := List.mem_singleton.mp hr'
    obtain ⟨j, hj, hdj⟩ := List.mem_filterMap.mp hr
    have := (h.wf j hj).dst r hdj
    omega
  · rw [instrDefs_append, hdefs] at hr
    rcases List.mem_append.mp hr with hr | hr
    · exact h.ge r hr
    · obtain rfl := List.mem_singleton.mp hr
      exact h.le

theorem entryCode_emitVoid (h : EntryCode n B.nextReg B.instrs) {i : Instr String Op} (hd : i.dst = none)
    (hi : ∀ o ∈ i.operands, o.In B.defs) : EntryCode n B.nextReg (B.instrs ++ [i]) := by
  have hdefs : instrDefs [i] = [] := by simp [instrDefs, hd]
  refine ⟨h.le, fun j hj => ?_, h.reads.append ⟨fun o ho => ?_, trivial⟩, ?_, fun r hr => ?_⟩
  · rcases List.mem_append.mp hj with hj | hj
    · exact h.wf j hj
    · obtain rfl := List.mem_singleton.mp hj
      refine ⟨fun o ho => below_of_in h (hi o ho), fun r hr => ?_, fun r hr => ?_⟩
      · rw [hd] at hr
        cases hr
      · rw [hd] at hr
        cases hr
  · rw [Set.empty_union]
    exact hi o ho
  · rw [instrDefs_append, hdefs, List.append_nil]
    exact h.nodup
  · rw [instrDefs_append, hdefs, List.append_nil] at hr
    exact h.ge r hr

theorem entryCode_nil (n : ℕ) : EntryCode n n ([] : List (Instr String Op)) :=
  ⟨Nat.le_refl n, fun _ hi => absurd hi List.not_mem_nil, trivial, List.nodup_nil,
    fun _ hr => absurd hr List.not_mem_nil⟩

variable (f : String) {as : List Operand} {v : Operand}

theorem entryCode_createCall (h : EntryCode n B.nextReg B.instrs) (has : ∀ o ∈ as, o.In B.defs) :
    EntryCode n (B.createCall f as).2.nextReg (B.createCall f as).2.instrs :=
  entryCode_emit h rfl has

theorem entryCode_createVoidCall (h : EntryCode n B.nextReg B.instrs) (has : ∀ o ∈ as, o.In B.defs) :
    EntryCode n (B.createVoidCall f as).nextReg (B.createVoidCall f as).instrs :=
  entryCode_emitVoid h rfl has

theorem entryCode_createCast (h : EntryCode n B.nextReg B.instrs) (hv : v.In B.defs) :
    EntryCode n (B.createCast v).2.nextReg (B.createCast v).2.instrs :=
  entryCode_emit h rfl fun _ ho => List.mem_singleton.mp ho ▸ hv

theorem entryCode_createIsNull (h : EntryCode n B.nextReg B.instrs) (hv : v.In B.defs) :
    EntryCode n (B.createIsNull v).2.nextReg (B.createIsNull v).2.instrs :=
  entryCode_emit h rfl fun _ ho => List.mem_singleton.mp ho ▸ hv

theorem defs_createCall (B : IRBuilder Op) (f : String) (as : List Operand) :
    B.defs ⊆ (B.createCall f as).2.defs ∧ B.nextReg ∈ (B.createCall f as).2.defs := by
  unfold defs createCall
  simp only [instrDefs_append]
  exact ⟨fun r hr => List.mem_append_left _ hr, List.mem_append_right _ (List.mem_singleton_self _)⟩

theorem defs_createVoidCall (B : IRBuilder Op) (f : String) (as : List Operand) :
    (B.createVoidCall f as).defs = B.defs := by
  unfold defs createVoidCall
  rw [instrDefs_append]
  simp [instrDefs, Instr.dst]

theorem defs_createCast (B : IRBuilder Op) (v : Operand) :
    B.defs ⊆ (B.createCast v).2.defs ∧ B.nextReg ∈ (B.createCast v).2.defs := by
  unfold defs createCast
  simp only [instrDefs_append]
  exact ⟨fun r hr => List.mem_append_left _ hr, List.mem_append_right _ (List.mem_singleton_self _)⟩

theorem defs_createIsNull (B : IRBuilder Op) (v : Operand) :
    B.defs ⊆ (B.createIsNull v).2.defs ∧ B.nextReg ∈ (B.createIsNull v).2.defs := by
  unfold defs createIsNull
  simp only [instrDefs_append]
  exact ⟨fun r hr => List.mem_append_left _ hr, List.mem_append_right _ (List.mem_singleton_self _)⟩

end IRBuilder

theorem getCMAQuarantineZoneID_entryCode {F : IrFunction Op} {info : CMAInfo} {n : ℕ} {o : Operand}
    {B : IRBuilder Op} (h : getCMAQuarantineZoneID ⟨[], n⟩ F info = some (o, B)) :
    EntryCode n B.nextReg B.instrs ∧ o.In B.defs := by
  have hnil : EntryCode n n ([] : List (Instr String Op)) := IRBuilder.entryCode_nil n
  unfold getCMAQuarantineZoneID at h
  split at h
  · obtain ⟨o', ho, he⟩ := Option.map_eq_some_iff.mp h
    obtain ⟨rfl, rfl⟩ := Prod.mk.inj he
    obtain ⟨-, rfl⟩ := getArg_eq ho
    exact ⟨hnil, trivial⟩
  split at h
  · obtain ⟨rfl, rfl⟩ := Prod.mk.inj (Option.some.inj h)
    exact ⟨hnil, trivial⟩
  split at h
  · obtain ⟨rfl, rfl⟩ := Prod.mk.inj (Option.some.inj h)
    exact ⟨hnil, trivial⟩
  split at h
  · obtain ⟨rfl, rfl⟩ := Prod.mk.inj (Option.some.inj h)
    exact ⟨hnil, trivial⟩
  · obtain ⟨rfl, rfl⟩ := Prod.mk.inj (Option.some.inj h)
    exact ⟨IRBuilder.entryCode_createCast (B := ⟨[], n⟩) hnil trivial, (IRBuilder.defs_createCast _ _).2⟩
  · split at h
    · obtain ⟨rfl, rfl⟩ := Prod.mk.inj (Option.some.inj h)
      exact ⟨hnil, trivial⟩
    · cases h
  · obtain ⟨rfl, rfl⟩ := Prod.mk.inj (Option.some.inj h)
    exact ⟨hnil, trivial⟩

/-! ### The returns -/

/-- What the instructions before a return read and write, where the registers
`X`, all below `n₀`, are there. -/
structure ReturnHook (X : Set ℕ) (n₀ : ℕ) (hook : ℕ → Operand → Option (List (Instr String Op) × Operand × ℕ)) :
    Prop where
  le : ∀ {n v is v' n'}, hook n v = some (is, v', n') → n ≤ n'
  wf : ∀ {n v is v' n'}, hook n v = some (is, v', n') → n₀ ≤ n → v.Below n → v'.Below n' ∧ ∀ i ∈ is, i.Wf n'
  reads : ∀ {n v is v' n'} {s : Set ℕ}, hook n v = some (is, v', n') → X ⊆ s → v.In s →
    InScope s is ∧ v'.In (s ∪ {r | r ∈ instrDefs is})
  nodup : ∀ {n v is v' n'}, hook n v = some (is, v', n') → (instrDefs is).Nodup
  ge : ∀ {n v is v' n'}, hook n v = some (is, v', n') → ∀ r ∈ instrDefs is, n ≤ r

/-- **The returns instrumented**: the blocks have more instructions at their
ends, which write new registers. -/
theorem instrumentReturns_extends {X : Set ℕ} {n₀ m : ℕ} {A : ℕ → Set ℕ}
    {hook : ℕ → Operand → Option (List (Instr String Op) × Operand × ℕ)} (hhook : ReturnHook X n₀ hook)
    {bs bs' : List (BasicBlock String Op)} {n n' : ℕ} (h : instrumentReturns hook n bs = some (bs', n'))
    (hn : n₀ ≤ n) (hbs : ∀ b ∈ bs, b.Wf n m ∧ X ⊆ b.scopeEnd A ∧ ∀ o ∈ b.term.operands, o.In (b.scopeEnd A)) :
    n ≤ n' ∧ List.Forall₂ (BasicBlock.Extends A) bs bs' ∧ (∀ b' ∈ bs', b'.Wf n' m) ∧
      ∃ ds : List ℕ, (bs'.flatMap (·.defs)).Perm (bs.flatMap (·.defs) ++ ds) ∧ ds.Nodup ∧ ∀ r ∈ ds, n ≤ r := by
  induction bs generalizing bs' n with
  | nil =>
    obtain ⟨rfl, rfl⟩ := Prod.mk.inj (Option.some.inj h)
    exact ⟨Nat.le_refl n, .nil, fun b hb => absurd hb List.not_mem_nil, [], .refl _, List.nodup_nil,
      fun r hr => absurd hr List.not_mem_nil⟩
  | cons b bs ih =>
    obtain ⟨hw, hX, hterm⟩ := hbs b List.mem_cons_self
    unfold instrumentReturns at h
    split at h
    · cases h
    · rename_i v hb
      split at h
      · cases h
      · rename_i is v' n₁ hv
        obtain ⟨⟨bs₁, n₂⟩, hr, he⟩ := Option.map_eq_some_iff.mp h
        obtain ⟨rfl, rfl⟩ := Prod.mk.inj he
        have hle₁ := hhook.le hv
        obtain ⟨hle, hall, hwf, ds, hperm, hnodup, hge⟩ := ih hr (by omega) fun b hb =>
           ⟨(hbs b (List.mem_cons_of_mem _ hb)).1.mono hle₁ (Nat.le_refl m),
            (hbs b (List.mem_cons_of_mem _ hb)).2⟩
        have hvb : v.Below n := hw.operands v (by rw [hb]; exact List.mem_singleton_self v)
        have hvs : v.In (b.scopeEnd A) := hterm v (by rw [hb]; exact List.mem_singleton_self v)
        obtain ⟨hv'b, hiwf⟩ := hhook.wf hv hn hvb
        obtain ⟨hin, hv's⟩ := hhook.reads hv hX hvs
        have hends : BasicBlock.Extends A b { b with instrs := b.instrs ++ is, term := .ret (some v') } := by
          refine ⟨rfl, rfl, ⟨is, rfl, hin⟩, by rw [hb]; rfl, fun l => by rw [hb]; rfl, fun o ho => ?_,
            fun _ => by simp⟩
          obtain rfl := List.mem_singleton.mp ho
          refine hv's.mono fun r hr => ?_
          show r ∈ _ ∪ {r | r ∈ instrDefs (b.instrs ++ is)}
          rw [instrDefs_append]
          rcases hr with (hr | hr) | hr
          · exact .inl hr
          · exact .inr (List.mem_append_left _ hr)
          · exact .inr (List.mem_append_right _ hr)
        refine ⟨by omega, .cons hends hall, fun b' hb' => ?_, instrDefs is ++ ds, ?_, ?_, fun r hr => ?_⟩
        · rcases List.mem_cons.mp hb' with rfl | hb'
          · refine ⟨hw.label, fun φ hφ => ⟨?_, fun x hx => ?_⟩, fun i hi => ?_, fun o ho => ?_,
              fun r hr => absurd hr (Option.not_mem_none r), fun l hl => absurd hl List.not_mem_nil⟩
            · have := (hw.phis φ hφ).1
              omega
            · exact ((hw.phis φ hφ).2 x hx).mono (by omega)
            · rcases List.mem_append.mp hi with hi | hi
              · exact (hw.instrs i hi).mono (by omega)
              · exact (hiwf i hi).mono hle
            · obtain rfl := List.mem_singleton.mp ho
              exact hv'b.mono hle
          · exact hwf b' hb'
        · have hdefs : BasicBlock.defs { b with instrs := b.instrs ++ is, term := .ret (some v') } =
              b.defs ++ instrDefs is := by
            unfold BasicBlock.defs
            rw [hb, instrDefs_append]
            simp [Term.dst]
          rw [List.flatMap_cons, List.flatMap_cons, hdefs]
          calc (b.defs ++ instrDefs is ++ bs₁.flatMap (·.defs)).Perm
                (b.defs ++ instrDefs is ++ (bs.flatMap (·.defs) ++ ds)) := hperm.append_left _
            _ |>.Perm (b.defs ++ bs.flatMap (·.defs) ++ (instrDefs is ++ ds)) := by
                rw [List.append_assoc, List.append_assoc]
                apply List.Perm.append_left
                rw [← List.append_assoc, ← List.append_assoc]
                exact List.perm_append_comm.append_right _
        · refine List.nodup_append.mpr ⟨hhook.nodup hv, hnodup, fun r hr r' hr' => ?_⟩
          obtain ⟨i, hi, hd⟩ := List.mem_filterMap.mp hr
          have := (hiwf i hi).dst r hd
          have := hge r' hr'
          omega
        · rcases List.mem_append.mp hr with hr | hr
          · exact hhook.ge hv r hr
          · have := hge r hr
            omega
    · rename_i hno hsome
      obtain ⟨⟨bs₁, n₂⟩, hr, he⟩ := Option.map_eq_some_iff.mp h
      obtain ⟨rfl, rfl⟩ := Prod.mk.inj he
      obtain ⟨hle, hall, hwf, ds, hperm, hnodup, hge⟩ := ih hr hn fun b hb =>
         hbs b (List.mem_cons_of_mem _ hb)
      refine ⟨hle, .cons ⟨rfl, rfl, ⟨[], (List.append_nil _).symm, trivial⟩, rfl, fun _ => rfl, hterm, id⟩ hall,
        fun b' hb' => ?_, ds, ?_, hnodup, hge⟩
      · rcases List.mem_cons.mp hb' with rfl | hb'
        · exact hw.mono hle (Nat.le_refl m)
        · exact hwf b' hb'
      · rw [List.flatMap_cons, List.flatMap_cons, List.append_assoc]
        exact hperm.append_left _

/-! ### One type at a time -/

section Types

variable {F F' : IrFunction Op} {body : Func String Op} {info : CMAInfo}

theorem verified_withEntry (F : IrFunction Op) {B : IRBuilder Op} (hv : body.Verified)
    (hB : EntryCode body.nextReg B.nextReg B.instrs) :
    ∃ body', (F.withEntry body B).body = some body' ∧ body'.Verified :=
  ⟨_, rfl, ((hv.after hB).insertEntry hB).1⟩

theorem verified_withReturns {B : IRBuilder Op} {n : ℕ}
    {hook : ℕ → Operand → Option (List (Instr String Op) × Operand × ℕ)}
    (hbody : body.VerifiedAfter B.instrs B.nextReg) (hB : EntryCode n B.nextReg B.instrs)
    (hhook : ReturnHook B.defs B.nextReg hook) (h : F.withReturns body B hook = some F') :
    ∃ body', F'.body = some body' ∧ body'.Verified := by
  obtain ⟨⟨blocks, n'⟩, hr, rfl⟩ := Option.map_eq_some_iff.mp h
  obtain ⟨hG, A, hA, hX⟩ := hbody.insertEntry hB
  obtain ⟨-, hall, hwf, ds, hperm, hnodup, hge⟩ := instrumentReturns_extends hhook hr (Nat.le_refl _)
    fun b hb => ⟨hG.blocks b hb, hX b hb, (hA.blocks b hb).term⟩
  refine ⟨_, rfl, Func.Verified.extend hG ⟨hA.entry, fun b hb => ?_⟩ hall hwf ?_⟩
  · have hs := hA.blocks b hb
    exact ⟨hs.instrs, hs.term, hs.targets, hs.phis⟩
  · refine hperm.nodup_iff.mpr (List.nodup_append.mpr ⟨hG.defs, hnodup, fun r hr r' hr' => ?_⟩)
    have : r < B.nextReg := hG.toWf.defs hr
    have := hge r' hr'
    omega

/-- A return hook that is one call, of what is returned and of what is there;
what it gives is returned, or the same as without it. -/
theorem returnHook_call {X : Set ℕ} {n₀ : ℕ} (hX : ∀ r ∈ X, r < n₀)
    {hook : ℕ → Operand → Option (List (Instr String Op) × Operand × ℕ)}
    (hhook : ∀ {n v is v' n'}, hook n v = some (is, v', n') → ∃ dst f as, is = [.call dst (.direct f) as] ∧
      (∀ o ∈ as, o = v ∨ o.In X) ∧ (dst = none ∧ v' = v ∧ n' = n ∨ dst = some n ∧ v' = .reg n ∧ n' = n + 1)) :
    ReturnHook X n₀ hook := by
  have hbelow : ∀ {n : ℕ} {v o : Operand}, n₀ ≤ n → v.Below n → o = v ∨ o.In X → o.Below n := by
    rintro n v o hn hv (rfl | ho)
    · exact hv
    · cases o with
      | reg r => exact Nat.lt_of_lt_of_le (hX r ho) hn
      | _ => trivial
  refine ⟨fun h => ?_, fun {n v is v' n'} h hn hv => ?_, fun {n v is v' n' s} h hs hv => ?_, fun h => ?_, fun h => ?_⟩
  · obtain ⟨dst, f, as, -, -, ⟨-, -, rfl⟩ | ⟨-, -, rfl⟩⟩ := hhook h
    · exact Nat.le_refl _
    · exact Nat.le_succ _
  · obtain ⟨dst, f, as, rfl, has, ⟨rfl, rfl, rfl⟩ | ⟨rfl, rfl, rfl⟩⟩ := hhook h
    · refine ⟨hv, fun i hi => ?_⟩
      obtain rfl := List.mem_singleton.mp hi
      exact ⟨fun o ho => hbelow hn hv (has o ho), fun r hr => absurd hr (Option.not_mem_none r),
        fun r hr => absurd hr (Option.not_mem_none r)⟩
    · refine ⟨Nat.lt_succ_self n, fun i hi => ?_⟩
      obtain rfl := List.mem_singleton.mp hi
      refine ⟨fun o ho => (hbelow hn hv (has o ho)).mono (Nat.le_succ n), fun r hr => ?_, fun r hr hmem => ?_⟩
      · cases hr
        exact Nat.lt_succ_self n
      · cases hr
        exact Nat.lt_irrefl n (hbelow hn hv (has _ hmem))
  · obtain ⟨dst, f, as, rfl, has, hor⟩ := hhook h
    refine ⟨⟨fun o ho => ?_, trivial⟩, ?_⟩
    · rcases has o ho with rfl | ho
      · exact hv
      · exact ho.mono hs
    · rcases hor with ⟨-, rfl, -⟩ | ⟨rfl, rfl, -⟩
      · exact hv.mono Set.subset_union_left
      · exact .inr (List.mem_singleton_self n)
  · obtain ⟨dst, f, as, rfl, -, ⟨rfl, -⟩ | ⟨rfl, -⟩⟩ := hhook h
    · exact List.nodup_nil
    · exact List.pairwise_singleton _ _
  · obtain ⟨dst, f, as, rfl, -, ⟨rfl, -⟩ | ⟨rfl, -⟩⟩ := hhook h
    · exact fun r hr => absurd hr List.not_mem_nil
    · exact fun r hr => (List.mem_singleton.mp hr).ge

theorem EntryCode.defs_lt {B : IRBuilder Op} {n : ℕ} (h : EntryCode n B.nextReg B.instrs) :
    ∀ r ∈ B.defs, r < B.nextReg := by
  intro r hr
  obtain ⟨i, hi, hd⟩ := List.mem_filterMap.mp hr
  exact (h.wf i hi).dst r hd

/-- `CLEAR` and `GC`. -/
theorem instrumentScope_verified {b : Bool} {hook : String} (hv : body.Verified)
    (h : F.instrumentScope body info hook = some (b, F')) : ∃ body', F'.body = some body' ∧ body'.Verified := by
  obtain ⟨⟨idArg, B⟩, hz, h⟩ := Option.bind_eq_some_iff.mp h
  obtain ⟨-, rfl⟩ := Prod.mk.inj (Option.some.inj h)
  obtain ⟨hB, hid⟩ := getCMAQuarantineZoneID_entryCode hz
  have hcall := IRBuilder.entryCode_createCall kIsInOtherCMAFName hB
    fun o ho => absurd ho (List.not_mem_nil : o ∉ [])
  refine verified_withEntry F hv (IRBuilder.entryCode_createVoidCall _ hcall fun o ho => ?_)
  obtain rfl := List.mem_singleton.mp ho
  exact hid.mono (IRBuilder.defs_createCall B _ _).1

theorem instrumentSize_verified {b : Bool} {ptrInArg : Option Operand} (hv : body.Verified)
    (hp : F.argAt info.ptrIdx = some ptrInArg) (h : F.instrumentSize body ptrInArg = some (b, F')) :
    ∃ body', F'.body = some body' ∧ body'.Verified := by
  obtain ⟨F₁, hw, he⟩ := Option.bind_eq_some_iff.mp h
  obtain ⟨-, rfl⟩ := Prod.mk.inj (Option.some.inj he)
  have hnil : EntryCode body.nextReg body.nextReg ([] : List (Instr String Op)) := IRBuilder.entryCode_nil _
  apply verified_withReturns (hv.after hnil) hnil _ hw
  refine returnHook_call (fun r hr => absurd hr List.not_mem_nil) fun {n v is v' n'} h₁ => ?_
  obtain ⟨ptrIn, rfl, hsome⟩ := Option.bind_eq_some_iff.mp h₁
  obtain ⟨rfl, hrest⟩ := Prod.mk.inj (Option.some.inj hsome)
  obtain ⟨rfl, rfl⟩ := Prod.mk.inj hrest
  obtain ⟨-, -, rfl⟩ := argAt_some hp
  refine ⟨_, _, _, rfl, fun o ho => ?_, .inr ⟨rfl, rfl, rfl⟩⟩
  rcases List.mem_cons.mp ho with rfl | ho
  · exact .inr trivial
  · exact .inl (List.mem_singleton.mp ho)

theorem instrumentAlloc_verified {b : Bool} {sizeArg ptrInArg : Option Operand} (hv : body.Verified)
    (hd : info.Distinct) (hs : F.argAt info.sizeIdx = some sizeArg) (hp : F.argAt info.ptrIdx = some ptrInArg)
    (h : F.instrumentAlloc body info sizeArg ptrInArg = some (b, F')) :
    ∃ body', F'.body = some body' ∧ body'.Verified := by
  obtain ⟨⟨idArg, B⟩, hz, h⟩ := Option.bind_eq_some_iff.mp h
  have hspec := getCMAQuarantineZoneID_spec hz
  obtain ⟨hB, hid⟩ := getCMAQuarantineZoneID_entryCode hz
  have hcall := IRBuilder.entryCode_createCall kIsInOtherCMAFName hB
    fun o ho => absurd ho (List.not_mem_nil : o ∉ [])
  have hdefs := IRBuilder.defs_createCall B kIsInOtherCMAFName []
  have hfail : ∀ {b : Bool} {F' : IrFunction Op},
      some (false, F.withEntry body (B.createCall kIsInOtherCMAFName []).2) = some (b, F') →
      ∃ body', F'.body = some body' ∧ body'.Verified := by
    intro b F' he
    obtain ⟨-, rfl⟩ := Prod.mk.inj (Option.some.inj he)
    exact verified_withEntry F hv hcall
  cases sizeArg with
  | none => exact hfail h
  | some sizeArg =>
    obtain ⟨hne, hnn, rfl⟩ := argAt_some hs
    dsimp only at h
    by_cases hnum : info.cmaType = .calloc ∧ info.numIdx = -1
    · rw [if_pos hnum] at h
      exact hfail h
    rw [if_neg hnum] at h
    obtain ⟨g, hg, h⟩ := Option.bind_eq_some_iff.mp h
    have hgin : ∀ s : Set ℕ, g.In s := by
      intro s
      unfold IrFunction.granularityArg at hg
      split at hg
      · obtain ⟨-, rfl⟩ := getArg_eq hg
        trivial
      · obtain ⟨_, -, rfl⟩ := Option.map_eq_some_iff.mp hg
        trivial
    obtain ⟨-, hgne⟩ := granularityArg_spec hd hnn hne hg
    have hrestore := alloc_restore hspec hnn hgne (.reg (B.nextReg + 1))
    obtain ⟨B₂, hB₂⟩ : ∃ B₂, B₂ = ((B.createCall kIsInOtherCMAFName []).2.createCall kCMAExtendSizeFName
        [.arg (argIdx info.sizeIdx), g, .reg B.nextReg]).2 := ⟨_, rfl⟩
    have hcode : EntryCode body.nextReg B₂.nextReg B₂.instrs := by
      rw [hB₂]
      refine IRBuilder.entryCode_createCall _ hcall fun o ho => ?_
      simp only [List.mem_cons, List.not_mem_nil, or_false] at ho
      rcases ho with rfl | rfl | rfl
      · trivial
      · exact hgin _
      · exact hdefs.2
    have hB₂defs : (B.createCall kIsInOtherCMAFName []).2.defs ⊆ B₂.defs ∧ B.nextReg + 1 ∈ B₂.defs := by
      rw [hB₂]
      exact IRBuilder.defs_createCall _ _ _
    have hid₂ : idArg.In B₂.defs := hid.mono (hdefs.1.trans hB₂defs.1)
    have hin₂ : (Operand.reg B.nextReg).In B₂.defs := hB₂defs.1 hdefs.2
    have hbody := hv.replaceArg hcode hB₂defs.2 (argIdx info.sizeIdx)
    rw [← hB₂] at hrestore
    by_cases hre : info.cmaType = .realloc
    · rw [if_pos hre] at h
      obtain ⟨ptrIn, hptr, h₁⟩ := Option.bind_eq_some_iff.mp h
      obtain ⟨F₁, hw, h₂⟩ := Option.bind_eq_some_iff.mp h₁
      obtain ⟨-, rfl⟩ := Prod.mk.inj (Option.some.inj h₂)
      rw [hptr] at hp
      obtain ⟨-, -, rfl⟩ := argAt_some hp
      have hw' : F.withReturns (body.mapOperands (replaceArg (argIdx info.sizeIdx) (.reg (B.nextReg + 1))))
          (B₂.createVoidCall kReallocateCMAChunkStartFName [.arg (argIdx info.ptrIdx), .reg B.nextReg, idArg])
          (fun n v => some ([.call none (.direct kReallocateCMAChunkEndFName) [.arg (argIdx info.ptrIdx), v,
            .arg (argIdx info.sizeIdx), g, idArg, .reg B.nextReg]], v, n)) = some F₁ := by
        rw [← hrestore, hB₂]
        exact hw
      have hargs : ∀ o ∈ [Operand.arg (argIdx info.ptrIdx), .reg B.nextReg, idArg], o.In B₂.defs := by
        intro o ho
        simp only [List.mem_cons, List.not_mem_nil, or_false] at ho
        rcases ho with rfl | rfl | rfl
        · trivial
        · exact hin₂
        · exact hid₂
      have hstart := IRBuilder.entryCode_createVoidCall kReallocateCMAChunkStartFName hcode hargs
      have hx : B.nextReg + 1 ∈ (B₂.createVoidCall kReallocateCMAChunkStartFName
          [.arg (argIdx info.ptrIdx), .reg B.nextReg, idArg]).defs := by
        rw [IRBuilder.defs_createVoidCall]
        exact hB₂defs.2
      refine verified_withReturns (hv.replaceArg hstart hx (argIdx info.sizeIdx)) hstart ?_ hw'
      refine returnHook_call (EntryCode.defs_lt hstart) fun {n v is v' n'} h₁ => ?_
      obtain ⟨rfl, hrest⟩ := Prod.mk.inj (Option.some.inj h₁)
      obtain ⟨rfl, rfl⟩ := Prod.mk.inj hrest
      refine ⟨_, _, _, rfl, fun o ho => ?_, .inl ⟨rfl, rfl, rfl⟩⟩
      rw [IRBuilder.defs_createVoidCall]
      simp only [List.mem_cons, List.not_mem_nil, or_false] at ho
      rcases ho with rfl | rfl | rfl | rfl | rfl | rfl
      · exact .inr trivial
      · exact .inl rfl
      · exact .inr trivial
      · exact .inr (hgin _)
      · exact .inr hid₂
      · exact .inr hin₂
    · rw [if_neg hre] at h
      obtain ⟨F₁, hw, h₁⟩ := Option.bind_eq_some_iff.mp h
      obtain ⟨-, rfl⟩ := Prod.mk.inj (Option.some.inj h₁)
      have hw' : F.withReturns (body.mapOperands (replaceArg (argIdx info.sizeIdx) (.reg (B.nextReg + 1)))) B₂
          (fun n v => some ([.call none (.direct kAllocateCMAChunkFName)
            [v, .arg (argIdx info.sizeIdx), g, idArg, .reg B.nextReg]], v, n)) = some F₁ := by
        rw [← hrestore, hB₂]
        exact hw
      refine verified_withReturns hbody hcode ?_ hw'
      refine returnHook_call (EntryCode.defs_lt hcode) fun {n v is v' n'} h₁ => ?_
      obtain ⟨rfl, hrest⟩ := Prod.mk.inj (Option.some.inj h₁)
      obtain ⟨rfl, rfl⟩ := Prod.mk.inj hrest
      refine ⟨_, _, _, rfl, fun o ho => ?_, .inl ⟨rfl, rfl, rfl⟩⟩
      simp only [List.mem_cons, List.not_mem_nil, or_false] at ho
      rcases ho with rfl | rfl | rfl | rfl | rfl
      · exact .inl rfl
      · exact .inr trivial
      · exact .inr (hgin _)
      · exact .inr hid₂
      · exact .inr hin₂

theorem createBitCast_entryCode {B B' : IRBuilder Op} {n y : ℕ} {t t' : Ty} {c : Operand}
    (hB : EntryCode n B.nextReg B.instrs) (hy : y ∈ B.defs)
    (h : B.createBitCastOnTypeMismatch (.reg y) t t' = some (c, B')) :
    EntryCode n B'.nextReg B'.instrs ∧ ∃ x, c = .reg x ∧ x ∈ B'.defs := by
  unfold IRBuilder.createBitCastOnTypeMismatch at h
  split at h
  · obtain ⟨rfl, rfl⟩ := Prod.mk.inj (Option.some.inj h)
    exact ⟨hB, y, rfl, hy⟩
  · split at h
    · obtain ⟨rfl, rfl⟩ := Prod.mk.inj (Option.some.inj h)
      exact ⟨IRBuilder.entryCode_createCast hB hy, _, rfl, (IRBuilder.defs_createCast _ _).2⟩
    · cases h

/-- What the pass makes of a verified function: a verified one if `ok`, and else
one with a block that has no terminator. -/
structure Emitted (ok : Prop) (body : Func String Op) : Prop where
  verified : ok → body.Verified
  missing : ¬ ok → ∃ b ∈ body.blocks, b.term = .missing
  instrs : ∀ b ∈ body.blocks, ∀ i ∈ b.instrs, i.Wf body.nextReg

theorem Emitted.of_verified {ok : Prop} (hok : ok) (hv : body.Verified) : Emitted ok body :=
  ⟨fun _ => hv, fun h => absurd hok h, fun b hb => (hv.blocks b hb).instrs⟩

theorem instrumentFree_verified {b : Bool} {ptrInArg : Option Operand} (hv : body.Verified) (hd : info.Distinct)
    (ht : info.cmaType = .free) (hp : F.argAt info.ptrIdx = some ptrInArg)
    (h : F.instrumentFree body info ptrInArg = some (b, F')) :
    ∃ body', F'.body = some body' ∧ Emitted (info.ptrIdx ≠ -1) body' := by
  obtain ⟨⟨idArg, B⟩, hz, h⟩ := Option.bind_eq_some_iff.mp h
  have hspec := getCMAQuarantineZoneID_spec hz
  obtain ⟨hB, hid⟩ := getCMAQuarantineZoneID_entryCode hz
  have hcall := IRBuilder.entryCode_createCall kIsInOtherCMAFName hB
    fun o ho => absurd ho (List.not_mem_nil : o ∉ [])
  have hdefs := IRBuilder.defs_createCall B kIsInOtherCMAFName []
  obtain ⟨entry, rest, hblocks, -⟩ := hv.entry.blocks_eq
  have hhead : body.blocks.head? = some entry := by rw [hblocks, List.head?_cons]
  rw [hhead] at h
  cases ptrInArg with
  | none =>
    obtain ⟨rfl, rfl⟩ := Prod.mk.inj (Option.some.inj h)
    refine ⟨_, rfl, fun hn => absurd (argAt_none hp) hn, fun _ => ⟨_, List.mem_cons_self, rfl⟩, fun b hb i hi => ?_⟩
    rcases List.mem_append.mp hb with hb | hb
    · obtain rfl := List.mem_singleton.mp hb
      exact hcall.wf i hi
    · exact ((hv.blocks b hb).instrs i hi).mono hcall.le
  | some ptrIn =>
    obtain ⟨hptr, hnn, rfl⟩ := argAt_some hp
    obtain ⟨⟨c, B₃⟩, hcast, h⟩ := Option.bind_eq_some_iff.mp h
    obtain ⟨x, js, rfl, -, -, hB₃, hjs, -⟩ := createBitCast_spec (Nat.lt_succ_self _) hcast
    have hrestore : (B₃.replaceAllUsesWith info.ptrIdx.toInt.toNat (.reg x)).setArgOperand0
        (.reg (B.nextReg + 1)) (.arg (argIdx info.ptrIdx)) = B₃ := free_restore hspec hd ht hnn hptr hB₃ hjs (.reg x)
    dsimp only at h
    rw [hrestore] at h
    have hargs : ∀ o ∈ [Operand.arg (argIdx info.ptrIdx), idArg, .reg B.nextReg],
        o.In (B.createCall kIsInOtherCMAFName []).2.defs := by
      intro o ho
      simp only [List.mem_cons, List.not_mem_nil, or_false] at ho
      rcases ho with rfl | rfl | rfl
      · trivial
      · exact hid.mono hdefs.1
      · exact hdefs.2
    have hrelease := IRBuilder.entryCode_createCall kReleaseCMAChunkFName hcall hargs
    obtain ⟨hcode, x', he, hx⟩ := createBitCast_entryCode hrelease (IRBuilder.defs_createCall _ _ _).2 hcast
    cases he
    have hhead' : (body.mapOperands (replaceArg (argIdx info.ptrIdx) (.reg x))).blocks.head? =
        some (entry.mapOperands (replaceArg (argIdx info.ptrIdx) (.reg x))) := by
      show (body.blocks.map _).head? = _
      rw [List.head?_map, hhead]
      rfl
    cases hearly : earlyReturnOperand F.retTy with
    | none =>
      rw [hearly] at h
      obtain ⟨-, rfl⟩ := Prod.mk.inj (Option.some.inj h)
      refine ⟨_, rfl, .of_verified hptr
        ((hv.replaceArg hcode hx (argIdx info.ptrIdx)).prepend hcode hhead' ?_ rfl nofun ?_
        (Nat.lt_succ_self _) ?_ List.nodup_nil)⟩
      · exact fun o ho => absurd ho List.not_mem_nil
      · exact fun l hl => .inl (List.mem_singleton.mp hl)
      · exact fun b hb => absurd hb List.not_mem_nil
    | some v =>
      rw [hearly] at h
      obtain ⟨-, rfl⟩ := Prod.mk.inj (Option.some.inj h)
      have hnull := IRBuilder.entryCode_createIsNull (v := .reg x) hcode hx
      have hdefs₃ := IRBuilder.defs_createIsNull B₃ (.reg x)
      refine ⟨_, rfl, .of_verified hptr
        ((hv.replaceArg hnull (hdefs₃.1 hx) (argIdx info.ptrIdx)).prepend hnull hhead' ?_
        rfl nofun ?_ (Nat.lt_succ_of_lt (Nat.lt_succ_self _)) ?_ (List.pairwise_singleton _ _))⟩
      · intro o ho
        obtain rfl := List.mem_singleton.mp ho
        exact hdefs₃.2
      · intro l hl
        rcases List.mem_cons.mp hl with rfl | hl
        · exact .inr (List.mem_singleton_self _)
        · exact .inl (List.mem_singleton.mp hl)
      · intro b hb
        obtain rfl := List.mem_singleton.mp hb
        refine ⟨⟨rfl, rfl, fun o ho r he => ?_, rfl, rfl, nofun⟩, Nat.lt_succ_self _, Nat.lt_succ_self _⟩
        -- a constant or nothing is returned
        unfold earlyReturnOperand at hearly
        change o ∈ v.toList at ho
        split at hearly <;> cases hearly <;> simp at ho
        all_goals
          subst ho
          cases he

end Types

/-- The info of a `FREE` names its pointer. -/
def CMAInfo.NamesPointer (info : CMAInfo) : Prop := info.cmaType = .free → info.ptrIdx ≠ -1

/-- **What a function is after the pass.** -/
theorem instrumentTargetFunction_emitted {F F' : IrFunction Op} {body : Func String Op} {info : CMAInfo} {b : Bool}
    (hb : F.body = some body) (hv : body.Verified) (hd : info.Distinct)
    (h : instrumentTargetFunction F body info = some (b, F')) :
    ∃ body', F'.body = some body' ∧ Emitted info.NamesPointer body' := by
  have hall : info.cmaType ≠ .free → (∃ body', F'.body = some body' ∧ body'.Verified) →
      ∃ body', F'.body = some body' ∧ Emitted info.NamesPointer body' :=
    fun hne ⟨body', hb, hv⟩ => ⟨body', hb, .of_verified (fun he => absurd he hne) hv⟩
  unfold instrumentTargetFunction at h
  split at h
  · rename_i ht
    obtain ⟨-, rfl⟩ := Prod.mk.inj (Option.some.inj h)
    exact hall (by simp [ht]) ⟨body, hb, hv⟩
  dsimp only at h
  split at h
  · rename_i ht
    obtain ⟨-, rfl⟩ := Prod.mk.inj (Option.some.inj h)
    exact hall (by simp [ht]) (verified_withEntry F.clearAttrs hv
      (IRBuilder.entryCode_createVoidCall (B := ⟨[], body.nextReg⟩) _
        (IRBuilder.entryCode_nil body.nextReg) fun o ho => absurd ho List.not_mem_nil))
  obtain ⟨sizeArg, hs, h₁⟩ := Option.bind_eq_some_iff.mp h
  obtain ⟨ptrInArg, hp, h₂⟩ := Option.bind_eq_some_iff.mp h₁
  cases ht : info.cmaType with
  | alloc | calloc | realloc =>
    rw [ht] at h₂
    exact hall (by simp [ht]) (instrumentAlloc_verified (F := F.clearAttrs) hv hd hs hp h₂)
  | free =>
    rw [ht] at h₂
    obtain ⟨body', hb', he⟩ := instrumentFree_verified (F := F.clearAttrs) hv hd ht hp h₂
    have hiff : info.NamesPointer ↔ info.ptrIdx ≠ -1 := ⟨fun hn => hn ht, fun hn _ => hn⟩
    rw [← hiff] at he
    exact ⟨body', hb', he⟩
  | clear | gc =>
    rw [ht] at h₂
    exact hall (by simp [ht]) (instrumentScope_verified (F := F.clearAttrs) hv h₂)
  | size =>
    rw [ht] at h₂
    exact hall (by simp [ht]) (instrumentSize_verified (F := F.clearAttrs) hv hp h₂)
  | none | logTarget | undefined =>
    rw [ht] at h₂
    obtain ⟨-, rfl⟩ := Prod.mk.inj (Option.some.inj h₂)
    exact hall (by simp [ht]) (verified_withEntry F.clearAttrs hv
      (IRBuilder.entryCode_createCall (B := ⟨[], body.nextReg⟩) _
        (IRBuilder.entryCode_nil body.nextReg) fun o ho => absurd ho List.not_mem_nil))

/-! ### An argument that two operands share -/

/-- What becomes of the instructions when the uses of an argument are replaced
and the operand of the call is put back: its other operands stay replaced. -/
theorem replace_call (is js : List (Instr String Op)) (a r m : ℕ) (f : String) (o w v : Operand)
    (as : List Operand) : ∃ is' js',
      ((⟨is ++ .call (some r) (.direct f) (o :: as) :: js, m⟩ : IRBuilder Op).replaceAllUsesWith a
        w).setArgOperand0 (.reg r) v = ⟨is' ++ .call (some r) (.direct f) (v :: as.map (replaceArg a w)) :: js', m⟩ ∧
      instrDefs js' = instrDefs js := by
  -- what both rewritings make of instructions
  let both : List (Instr String Op) → List (Instr String Op) := fun is =>
    (((⟨is, m⟩ : IRBuilder Op).replaceAllUsesWith a w).setArgOperand0 (.reg r) v).instrs
  refine ⟨both is, both js, ?_, ?_⟩
  · have hcall : both [.call (some r) (.direct f) (o :: as)] =
        [.call (some r) (.direct f) (v :: as.map (replaceArg a w))] := congrArg ([·]) (if_pos rfl)
    have hboth : both (is ++ .call (some r) (.direct f) (o :: as) :: js) =
        both is ++ (both [.call (some r) (.direct f) (o :: as)] ++ both js) := by
      simp only [both, IRBuilder.replaceAllUsesWith, IRBuilder.setArgOperand0, List.map_append, List.map_cons,
        List.map_nil, List.cons_append, List.nil_append]
    rw [hcall] at hboth
    exact congrArg (IRBuilder.mk · m) hboth
  · -- an instruction writes what it wrote, also where its operand is put back
    simp only [both, instrDefs, IRBuilder.replaceAllUsesWith, IRBuilder.setArgOperand0, List.filterMap_map]
    refine List.filterMap_congr fun i _ => ?_
    rw [← Instr.dst_mapOperands (replaceArg a w) i]
    simp only [Function.comp]
    split
    · rename_i h
      rw [h]
      split <;> rfl
    · rfl

theorem readsAhead_call {is js : List (Instr String Op)} {a r x : ℕ} {f : String} {v : Operand} {as : List Operand}
    (ha : Operand.arg a ∈ as) (hx : x ∈ r :: instrDefs js) :
    ReadsAhead (is ++ .call (some r) (.direct f) (v :: as.map (replaceArg a (.reg x))) :: js) := by
  refine ⟨is, _, js, x, rfl, ?_, hx⟩
  refine List.mem_append_right _ (List.mem_cons_of_mem v (List.mem_map.mpr ⟨.arg a, ha, ?_⟩))
  exact if_pos rfl

theorem instrumentReturns_head {hook : ℕ → Operand → Option (List (Instr String Op) × Operand × ℕ)} {n m : ℕ}
    {b : BasicBlock String Op} {bs bs' : List (BasicBlock String Op)}
    (h : instrumentReturns hook n (b :: bs) = some (bs', m)) :
    ∃ b' is, bs'.head? = some b' ∧ b'.instrs = b.instrs ++ is := by
  unfold instrumentReturns at h
  split at h
  · cases h
  · split at h
    · cases h
    · obtain ⟨⟨bs₁, m₁⟩, -, he⟩ := Option.map_eq_some_iff.mp h
      cases he
      exact ⟨_, _, rfl, rfl⟩
  · obtain ⟨⟨bs₁, m₁⟩, -, he⟩ := Option.map_eq_some_iff.mp h
    cases he
    exact ⟨b, [], rfl, (List.append_nil _).symm⟩

section ReadsAhead

variable {F F' : IrFunction Op} {body : Func String Op} {info : CMAInfo}

/-- The entry of the function reads what is not there. -/
def IrFunction.EntryReadsAhead (F : IrFunction Op) : Prop :=
  ∃ body b, F.body = some body ∧ body.blocks.head? = some b ∧ ReadsAhead b.instrs

theorem withReturns_readsAhead {B : IRBuilder Op} {hook : ℕ → Operand → Option (List (Instr String Op) × Operand × ℕ)}
    (hne : body.blocks ≠ []) (hB : ReadsAhead B.instrs) (h : F.withReturns body B hook = some F') :
    F'.EntryReadsAhead := by
  obtain ⟨⟨bs, n⟩, hr, rfl⟩ := Option.map_eq_some_iff.mp h
  obtain ⟨b, bs₀, hbs⟩ := List.exists_cons_of_ne_nil hne
  rw [Func.blocks_insertEntry B.instrs hbs] at hr
  obtain ⟨b', is, hhead, hinstrs⟩ := instrumentReturns_head hr
  refine ⟨_, b', rfl, hhead, ?_⟩
  rw [hinstrs]
  exact (hB.append b.instrs).append is

theorem createBitCast_writes {B B' : IRBuilder Op} {y : ℕ} {t t' : Ty} {c : Operand}
    (h : B.createBitCastOnTypeMismatch (.reg y) t t' = some (c, B')) :
    ∃ x js, c = .reg x ∧ x ∈ y :: instrDefs js ∧ B'.instrs = B.instrs ++ js := by
  unfold IRBuilder.createBitCastOnTypeMismatch at h
  split at h
  · cases h
    exact ⟨y, [], rfl, List.mem_cons_self, (List.append_nil _).symm⟩
  · split at h
    · cases h
      exact ⟨B.nextReg, [.cast B.nextReg (.reg y)], rfl, List.mem_cons_of_mem y List.mem_cons_self, rfl⟩
    · cases h

/-- A `CALLOC` whose number is its size. -/
theorem instrumentAlloc_readsAhead {b : Bool} {sizeArg ptrInArg : Option Operand} (hne : body.blocks ≠ [])
    (ht : info.cmaType = .calloc) (hn : info.numIdx = info.sizeIdx) (hs : F.argAt info.sizeIdx = some sizeArg)
    (hsize : info.sizeIdx ≠ -1) (h : F.instrumentAlloc body info sizeArg ptrInArg = some (b, F')) :
    F'.EntryReadsAhead := by
  obtain ⟨⟨idArg, B⟩, hz, h⟩ := Option.bind_eq_some_iff.mp h
  cases sizeArg with
  | none => exact absurd (argAt_none hs) hsize
  | some sizeArg =>
    obtain ⟨-, hnn, rfl⟩ := argAt_some hs
    dsimp only at h
    rw [if_neg fun hc => hsize (hn ▸ hc.2)] at h
    obtain ⟨g, hg, h⟩ := Option.bind_eq_some_iff.mp h
    obtain rfl : .arg (argIdx info.sizeIdx) = g := by
      unfold IrFunction.granularityArg at hg
      rw [if_pos ht, hn] at hg
      exact (getArg_eq hg).2.symm
    have hre : info.cmaType ≠ .realloc := by simp [ht]
    obtain ⟨is', js', hreplace, -⟩ :=
      replace_call (B.instrs ++ [.call (some B.nextReg) (.direct kIsInOtherCMAFName) []]) []
        (argIdx info.sizeIdx) (B.nextReg + 1) (B.nextReg + 2) kCMAExtendSizeFName (.arg (argIdx info.sizeIdx))
        (.reg (B.nextReg + 1)) (.arg (argIdx info.sizeIdx)) [.arg (argIdx info.sizeIdx), .reg B.nextReg]
    rw [if_neg hre] at h
    obtain ⟨F₁, hw, h₁⟩ := Option.bind_eq_some_iff.mp h
    obtain ⟨-, rfl⟩ := Prod.mk.inj (Option.some.inj h₁)
    refine withReturns_readsAhead (by simpa [Func.mapOperands] using hne) ?_ hw
    refine Eq.subst (motive := ReadsAhead) (congrArg IRBuilder.instrs hreplace).symm ?_
    exact readsAhead_call List.mem_cons_self List.mem_cons_self

/-- A `FREE` whose id is its pointer. -/
theorem instrumentFree_readsAhead {b : Bool} {ptrInArg : Option Operand} (hne : body.blocks ≠ [])
    (hid : info.idIdx = info.ptrIdx) (hp : F.argAt info.ptrIdx = some ptrInArg) (hptr : info.ptrIdx ≠ -1)
    (h : F.instrumentFree body info ptrInArg = some (b, F')) : F'.EntryReadsAhead := by
  obtain ⟨⟨idArg, B⟩, hz, h⟩ := Option.bind_eq_some_iff.mp h
  obtain ⟨entry, rest, hblocks⟩ := List.exists_cons_of_ne_nil hne
  have hhead : body.blocks.head? = some entry := by rw [hblocks, List.head?_cons]
  rw [hhead] at h
  cases ptrInArg with
  | none => exact absurd (argAt_none hp) hptr
  | some ptrIn =>
    obtain ⟨-, hnn, rfl⟩ := argAt_some hp
    obtain ⟨⟨c, B₃⟩, hcast, h⟩ := Option.bind_eq_some_iff.mp h
    obtain rfl : .arg (argIdx info.ptrIdx) = idArg := by
      unfold getCMAQuarantineZoneID at hz
      rw [if_pos (hid ▸ hptr), hid] at hz
      obtain ⟨o, ho, he⟩ := Option.map_eq_some_iff.mp hz
      rw [← (Prod.mk.inj he).1]
      exact (getArg_eq ho).2.symm
    obtain ⟨x, js, rfl, hx, hB₃⟩ := createBitCast_writes hcast
    have hB₃' : B₃ = ⟨(B.instrs ++ [.call (some B.nextReg) (.direct kIsInOtherCMAFName) []]) ++
        .call (some (B.nextReg + 1)) (.direct kReleaseCMAChunkFName)
          (.arg (argIdx info.ptrIdx) :: [.arg (argIdx info.ptrIdx), .reg B.nextReg]) :: js, B₃.nextReg⟩ := by
      obtain ⟨is, m⟩ := B₃
      dsimp only at hB₃
      rw [hB₃]
      simp
    rw [hB₃'] at h
    obtain ⟨is', js', hreplace, hdefs⟩ :=
      replace_call (B.instrs ++ [.call (some B.nextReg) (.direct kIsInOtherCMAFName) []]) js (argIdx info.ptrIdx)
        (B.nextReg + 1) B₃.nextReg kReleaseCMAChunkFName (.arg (argIdx info.ptrIdx)) (.reg x)
        (.arg (argIdx info.ptrIdx)) [.arg (argIdx info.ptrIdx), .reg B.nextReg]
    have hahead : ReadsAhead (is' ++ .call (some (B.nextReg + 1)) (.direct kReleaseCMAChunkFName)
        (.arg (argIdx info.ptrIdx) :: [.arg (argIdx info.ptrIdx), .reg B.nextReg].map
          (replaceArg (argIdx info.ptrIdx) (.reg x))) :: js') :=
      readsAhead_call List.mem_cons_self (by rw [hdefs]; exact hx)
    have hreads := Eq.subst (motive := ReadsAhead) (congrArg IRBuilder.instrs hreplace).symm hahead
    dsimp only at h
    split at h
    · cases h
      exact ⟨_, _, rfl, rfl, hreads.append _⟩
    · cases h
      exact ⟨_, _, rfl, rfl, hreads⟩

/-- **An info whose indexes are not distinct** makes a hook read its own value. -/
theorem instrumentTargetFunction_readsAhead {b : Bool} (hne : body.blocks ≠ []) (hd : ¬ info.Distinct)
    (h : instrumentTargetFunction F body info = some (b, F')) : F'.EntryReadsAhead := by
  have hcases : (info.cmaType = .calloc ∧ info.numIdx = info.sizeIdx ∧ info.sizeIdx ≠ -1) ∨
      (info.cmaType = .free ∧ info.idIdx = info.ptrIdx ∧ info.ptrIdx ≠ -1) := by
    by_contra hc
    rw [not_or] at hc
    exact hd ⟨fun ht hn => by_contra fun hs => hc.1 ⟨ht, hn, hs⟩, fun ht hi => by_contra fun hp => hc.2 ⟨ht, hi, hp⟩⟩
  have htype : info.cmaType ≠ .none ∧ info.cmaType ≠ .logTarget := by
    rcases hcases with ⟨ht, -⟩ | ⟨ht, -⟩ <;> simp [ht]
  unfold instrumentTargetFunction at h
  rw [if_neg htype.1] at h
  dsimp only at h
  rw [if_neg htype.2] at h
  obtain ⟨sizeArg, hs, h₁⟩ := Option.bind_eq_some_iff.mp h
  obtain ⟨ptrInArg, hp, h₂⟩ := Option.bind_eq_some_iff.mp h₁
  rcases hcases with ⟨ht, hn, hsize⟩ | ⟨ht, hid, hptr⟩
  · rw [ht] at h₂
    exact instrumentAlloc_readsAhead (F := F.clearAttrs) hne ht hn hs hsize h₂
  · rw [ht] at h₂
    exact instrumentFree_readsAhead (F := F.clearAttrs) hne hid hp hptr h₂

end ReadsAhead

end Cmasan
