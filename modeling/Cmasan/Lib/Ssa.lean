/-
# Functions in SSA form

A function is a list of blocks, the first of them the entry. A block starts
with its phis, which take their values by the block that control comes from,
goes on with instructions and ends with a terminator. `Sem` says what the
instructions do that this file does not know, and what a call does: a `call`
instruction of a known function (`Sem.call`) apart from any other way to enter
one (`Sem.enter`), as a pass may change the first and not see the second.

A module is a list of functions that call each other and what the module does
not define; `callN` is a call with a bound on the depth, and `call` one without.

Key definitions: `Func`, `Sem`, `BasicBlock.exec`, `Func.exec`, `Func.Wf`, `Machine`,
`call`.
-/
import Mathlib.Data.List.Forall2
import Mathlib.Logic.Function.Basic
import Cmasan.Lib.Comp

namespace Cmasan
namespace Lib
namespace Ssa

/-- What an instruction takes: an argument of the function, the value of a
register, a constant. -/
inductive Operand
  | arg (i : ℕ)
  | reg (r : ℕ)
  | const (n : ℕ)
  deriving DecidableEq, Repr

/-- What is called: a function by its name, or what a pointer points to. -/
inductive Callee (Fn : Type)
  | direct (f : Fn)
  | indirect (p : Operand)
  deriving DecidableEq

/-- An instruction: one that this file does not know, a conversion that keeps
the bits, a comparison with null, a call. -/
inductive Instr (Fn Op : Type)
  | op (dst : ℕ) (o : Op) (as : List Operand)
  | cast (dst : ℕ) (v : Operand)
  | isNull (dst : ℕ) (v : Operand)
  | call (dst : Option ℕ) (f : Callee Fn) (as : List Operand)
  deriving DecidableEq

/-- How a block ends; `missing` is a block that has no terminator. -/
inductive Term (Fn : Type)
  | ret (v : Option Operand)
  | br (l : ℕ)
  | condBr (v : Operand) (l₁ l₂ : ℕ)
  | switch (v : Operand) (cases : List (ℕ × ℕ)) (default : ℕ)
  | invoke (dst : Option ℕ) (f : Callee Fn) (as : List Operand) (normal unwind : ℕ)
  | resume
  | unreachable
  | missing
  deriving DecidableEq

/-- A register and the operands it takes its value from, by the block before. -/
structure Phi where
  dst : ℕ
  incoming : List (ℕ × Operand)
  deriving DecidableEq

/-- A basic block. -/
structure BasicBlock (Fn Op : Type) where
  label : ℕ
  phis : List Phi
  instrs : List (Instr Fn Op)
  term : Term Fn
  deriving DecidableEq

/-- A function; registers and labels from the two bounds on are free. -/
structure Func (Fn Op : Type) where
  blocks : List (BasicBlock Fn Op)
  nextReg : ℕ
  nextLabel : ℕ
  deriving DecidableEq

/-! ### What code does -/

/-- What the rest of the program does. -/
structure Sem (Fn Op σ : Type) where
  op : Op → List ℕ → Comp σ ℕ
  call : Fn → List ℕ → Comp σ ℕ
  enter : Fn → List ℕ → Comp σ ℕ
  resolve : ℕ → Option Fn

variable {Fn Op σ : Type} (S : Sem Fn Op σ) (args : ℕ → ℕ)

/-- The value of an operand. -/
def Operand.eval (ρ : ℕ → ℕ) : Operand → ℕ
  | .arg i => args i
  | .reg r => ρ r
  | .const n => n

@[simp] theorem Operand.eval_arg (ρ : ℕ → ℕ) (i : ℕ) : (Operand.arg i).eval args ρ = args i := rfl
@[simp] theorem Operand.eval_reg (ρ : ℕ → ℕ) (r : ℕ) : (Operand.reg r).eval args ρ = ρ r := rfl
@[simp] theorem Operand.eval_const (ρ : ℕ → ℕ) (n : ℕ) : (Operand.const n).eval args ρ = n := rfl

/-- The registers after a value is written, if it is. -/
def setDst (ρ : ℕ → ℕ) (dst : Option ℕ) (v : ℕ) : ℕ → ℕ :=
  match dst with
  | none => ρ
  | some r => Function.update ρ r v

/-- A call instruction. -/
def Callee.call (ρ : ℕ → ℕ) (f : Callee Fn) (as : List Operand) : Comp σ ℕ :=
  match f with
  | .direct f => S.call f (as.map (·.eval args ρ))
  | .indirect p =>
    match S.resolve (p.eval args ρ) with
    | none => .stuck
    | some f => S.enter f (as.map (·.eval args ρ))

/-- An invoke of the function. -/
def Callee.enter (ρ : ℕ → ℕ) (f : Callee Fn) (as : List Operand) : Comp σ ℕ :=
  match f with
  | .direct f => S.enter f (as.map (·.eval args ρ))
  | .indirect p =>
    match S.resolve (p.eval args ρ) with
    | none => .stuck
    | some f => S.enter f (as.map (·.eval args ρ))

/-- An instruction. -/
def Instr.exec (ρ : ℕ → ℕ) : Instr Fn Op → Comp σ (ℕ → ℕ)
  | .op dst o as => S.op o (as.map (·.eval args ρ)) >>= fun v => pure (Function.update ρ dst v)
  | .cast dst v => pure (Function.update ρ dst (v.eval args ρ))
  | .isNull dst v => pure (Function.update ρ dst (if v.eval args ρ = 0 then 1 else 0))
  | .call dst f as => f.call S args ρ as >>= fun v => pure (setDst ρ dst v)

/-- Instructions in order. -/
def execInstrs : List (Instr Fn Op) → (ℕ → ℕ) → Comp σ (ℕ → ℕ)
  | [], ρ => pure ρ
  | i :: is, ρ => i.exec S args ρ >>= execInstrs is

/-- The phis, all by the registers before. -/
def execPhis (prev : Option ℕ) (ρ : ℕ → ℕ) : List Phi → Option (ℕ → ℕ)
  | [] => some ρ
  | φ :: φs =>
    match prev.bind (φ.incoming.lookup ·), execPhis prev ρ φs with
    | some o, some ρ' => some (Function.update ρ' φ.dst (o.eval args ρ))
    | _, _ => none

/-- Where control is: the block before, the block, the registers. -/
structure Pos where
  prev : Option ℕ
  label : ℕ
  regs : ℕ → ℕ

/-- What a function leaves: its value (0 from a void one) and the registers. -/
structure Left where
  val : ℕ
  regs : ℕ → ℕ

/-- The end of the block `l`. -/
def Term.exec (l : ℕ) (ρ : ℕ → ℕ) : Term Fn → Comp σ (Pos ⊕ Left)
  | .ret v => pure (.inr ⟨(v.map (·.eval args ρ)).getD 0, ρ⟩)
  | .br l₁ => pure (.inl ⟨some l, l₁, ρ⟩)
  | .condBr v l₁ l₂ => pure (.inl ⟨some l, if v.eval args ρ ≠ 0 then l₁ else l₂, ρ⟩)
  | .switch v cases default => pure (.inl ⟨some l, (cases.lookup (v.eval args ρ)).getD default, ρ⟩)
  | .invoke dst f as normal unwind =>
    (f.enter S args ρ as >>= fun v => pure (.inl ⟨some l, normal, setDst ρ dst v⟩)).tryCatch
      (pure (.inl ⟨some l, unwind, ρ⟩))
  | .resume => .throw
  | .unreachable | .missing => .stuck

/-- A block. -/
def BasicBlock.exec (b : BasicBlock Fn Op) (prev : Option ℕ) (ρ : ℕ → ℕ) : Comp σ (Pos ⊕ Left) :=
  match execPhis args prev ρ b.phis with
  | none => .stuck
  | some ρ => execInstrs S args b.instrs ρ >>= fun ρ => b.term.exec S args b.label ρ

namespace Func

variable (F : Func Fn Op)

/-- The block with the label. -/
def block (l : ℕ) : Option (BasicBlock Fn Op) := F.blocks.find? (·.label = l)

/-- One block. -/
def step (p : Pos) : Comp σ (Pos ⊕ Left) :=
  match F.block p.label with
  | none => .stuck
  | some b => b.exec S args p.prev p.regs

theorem step_of_none {F : Func Fn Op} {p : Pos} (h : F.block p.label = none) : F.step S args p = .stuck := by
  unfold step
  rw [h]

theorem step_of_some {F : Func Fn Op} {p : Pos} {b : BasicBlock Fn Op} (h : F.block p.label = some b) :
    F.step S args p = b.exec S args p.prev p.regs := by
  unfold step
  rw [h]

/-- The function from a position on. -/
def execFrom : Pos → Comp σ Left := Comp.loop (F.step S args)

/-- The function from its entry. -/
def exec (ρ : ℕ → ℕ) : Comp σ Left :=
  match F.blocks with
  | [] => .stuck
  | b :: _ => F.execFrom S args ⟨none, b.label, ρ⟩

/-- What the function returns. -/
def value : Comp σ ℕ := F.exec S args (fun _ => 0) >>= fun r => pure r.val

end Func

/-! ### Modules -/

/-- The arguments of a call, 0 where there is none. -/
def argsOf (as : List ℕ) (i : ℕ) : ℕ := as.getD i 0

/-- What a module runs on: the instructions, the functions that it does not
define, and the functions that pointers point to. -/
structure Machine (Fn Op σ : Type) where
  op : Op → List ℕ → Comp σ ℕ
  external : Fn → List ℕ → Comp σ ℕ
  resolve : ℕ → Option Fn

/-- Instructions, when calls do what `c` does. -/
def Machine.sem (X : Machine Fn Op σ) (c : Fn → List ℕ → Comp σ ℕ) : Sem Fn Op σ := ⟨X.op, c, c, X.resolve⟩

/-- A call in a module, with calls at most `n` deep: `fn f` says what the
function `f` does if the module defines it, given what calls do. -/
def callN (X : Machine Fn Op σ) (fn : Fn → Option ((Fn → List ℕ → Comp σ ℕ) → List ℕ → Comp σ ℕ)) :
    ℕ → Fn → List ℕ → Comp σ ℕ
  | 0, f, as => match fn f with
    | none => X.external f as
    | some _ => .stuck
  | n + 1, f, as => match fn f with
    | none => X.external f as
    | some run => run (callN X fn n) as

/-- A call in a module. -/
def call (X : Machine Fn Op σ) (fn : Fn → Option ((Fn → List ℕ → Comp σ ℕ) → List ℕ → Comp σ ℕ)) (f : Fn)
    (as : List ℕ) : Comp σ ℕ := fun s o s' => ∃ n, callN X fn n f as s o s'

/-! ### Functions that a verifier passes -/

/-- The operand is no register from `n` on. -/
def Operand.Below (n : ℕ) : Operand → Prop
  | .reg r => r < n
  | _ => True

instance (n : ℕ) : DecidablePred (Operand.Below n) := fun o => by
  cases o <;> (unfold Operand.Below; infer_instance)

/-- The operands of a callee. -/
def Callee.operands : Callee Fn → List Operand
  | .direct _ => []
  | .indirect p => [p]

namespace Instr

/-- The operands. -/
def operands : Instr Fn Op → List Operand
  | .op _ _ as => as
  | .cast _ v | .isNull _ v => [v]
  | .call _ f as => f.operands ++ as

/-- The register that is written. -/
def dst : Instr Fn Op → Option ℕ
  | .op dst _ _ | .cast dst _ | .isNull dst _ => some dst
  | .call dst _ _ => dst

/-- Registers below the bound, and none is an operand of what writes it. -/
structure Wf (n : ℕ) (i : Instr Fn Op) : Prop where
  operands : ∀ o ∈ i.operands, o.Below n
  dst : ∀ r ∈ i.dst, r < n
  fresh : ∀ r ∈ i.dst, .reg r ∉ i.operands

end Instr

namespace Term

/-- The operands. -/
def operands : Term Fn → List Operand
  | .ret v => v.toList
  | .condBr v _ _ | .switch v _ _ => [v]
  | .invoke _ f as _ _ => f.operands ++ as
  | .br _ | .resume | .unreachable | .missing => []

/-- The register that is written. -/
def dst : Term Fn → Option ℕ
  | .invoke dst _ _ _ _ => dst
  | _ => none

/-- Where control may go. -/
def targets : Term Fn → List ℕ
  | .br l => [l]
  | .condBr _ l₁ l₂ => [l₁, l₂]
  | .switch _ cases default => default :: cases.map (·.2)
  | .invoke _ _ _ normal unwind => [normal, unwind]
  | .ret _ | .resume | .unreachable | .missing => []

end Term

/-- Registers and labels below the bounds. -/
structure BasicBlock.Wf (n m : ℕ) (b : BasicBlock Fn Op) : Prop where
  label : b.label < m
  phis : ∀ φ ∈ b.phis, φ.dst < n ∧ ∀ x ∈ φ.incoming, x.2.Below n
  instrs : ∀ i ∈ b.instrs, i.Wf n
  operands : ∀ o ∈ b.term.operands, o.Below n
  dst : ∀ r ∈ b.term.dst, r < n
  targets : ∀ l ∈ b.term.targets, l < m

/-- The entry has no phis, and no block goes back to it. -/
def Func.EntryWf (F : Func Fn Op) : Prop :=
  match F.blocks with
  | [] => False
  | b :: _ => b.phis = [] ∧ ∀ b' ∈ F.blocks, b.label ∉ b'.term.targets

/-- The function is one that a verifier passes. -/
structure Func.Wf (F : Func Fn Op) : Prop where
  blocks : ∀ b ∈ F.blocks, b.Wf F.nextReg F.nextLabel
  entry : F.EntryWf

end Ssa
end Lib
end Cmasan
