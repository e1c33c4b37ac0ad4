/-
# Runs of modules

What holds of the steps of a module holds of its runs: if the instructions,
the functions outside of the module and its own functions, each when the calls
it makes do, are related to their start by `R`, then every call is
(`callN_moves`). `ok` are the functions that code may name; the others are
called only by who is meant to.

A call whose callees may do more may do more (`value_mono`), so a deeper bound
on the calls allows no fewer runs, and a function of a module runs as its body
does when calls do what they do in the module (`call_run`).

Key definitions: `Func.Names`, `Sem.Moves`, `Machine.Moves`.
Key theorems: `value_moves`, `callN_moves`, `value_mono`, `call_run`.
-/
import Cmasan.Lib.Ssa

namespace Cmasan
namespace Lib
namespace Ssa

variable {Fn Op σ : Type} {R : σ → σ → Prop} {ok : Fn → Prop}

/-! ### One function -/

/-- The function that a callee names. -/
def Callee.Names (ok : Fn → Prop) : Callee Fn → Prop
  | .direct f => ok f
  | .indirect _ => True

def Instr.Names (ok : Fn → Prop) : Instr Fn Op → Prop
  | .call _ f _ => f.Names ok
  | _ => True

def Term.Names (ok : Fn → Prop) : Term Fn → Prop
  | .invoke _ f _ _ _ => f.Names ok
  | _ => True

/-- The code names only functions that are `ok`. -/
def Func.Names (ok : Fn → Prop) (F : Func Fn Op) : Prop :=
  ∀ b ∈ F.blocks, (∀ i ∈ b.instrs, i.Names ok) ∧ b.term.Names ok

theorem Func.names_true (F : Func Fn Op) : F.Names fun _ => True := fun b _ =>
  ⟨fun i _ => by cases i with
    | call dst f as => cases f <;> trivial
    | _ => trivial,
  by cases b.term with
    | invoke dst f as normal unwind => cases f <;> trivial
    | _ => trivial⟩

/-- What code may run into is related to its start. -/
structure Sem.Moves (R : σ → σ → Prop) (ok : Fn → Prop) (S : Sem Fn Op σ) : Prop where
  op : ∀ o as, (S.op o as).Moves R
  call : ∀ f as, ok f → (S.call f as).Moves R
  enter : ∀ f as, ok f → (S.enter f as).Moves R
  resolve : ∀ p f, S.resolve p = some f → ok f

section Func

variable {S : Sem Fn Op σ} (hR : Comp.Stepwise R) (hS : S.Moves R ok) (args : ℕ → ℕ)

include hS

theorem callee_call_moves {f : Callee Fn} (hf : f.Names ok) (ρ : ℕ → ℕ) (as : List Operand) :
    (f.call S args ρ as).Moves R := by
  cases f with
  | direct f => exact hS.call f _ hf
  | indirect p =>
    unfold Callee.call
    dsimp only
    split
    · exact Comp.moves_stuck
    · exact hS.enter _ _ (hS.resolve _ _ ‹_›)

theorem callee_enter_moves {f : Callee Fn} (hf : f.Names ok) (ρ : ℕ → ℕ) (as : List Operand) :
    (f.enter S args ρ as).Moves R := by
  cases f with
  | direct f => exact hS.enter f _ hf
  | indirect p =>
    unfold Callee.enter
    dsimp only
    split
    · exact Comp.moves_stuck
    · exact hS.enter _ _ (hS.resolve _ _ ‹_›)

include hR

theorem instr_moves {i : Instr Fn Op} (hi : i.Names ok) (ρ : ℕ → ℕ) : (i.exec S args ρ).Moves R := by
  cases i with
  | op dst o as => exact (hS.op o _).bind hR fun v => Comp.moves_pure hR _
  | cast dst v => exact Comp.moves_pure hR _
  | isNull dst v => exact Comp.moves_pure hR _
  | call dst f as => exact (callee_call_moves hS args hi ρ as).bind hR fun v => Comp.moves_pure hR _

theorem instrs_moves : ∀ {is : List (Instr Fn Op)} (ρ : ℕ → ℕ), (∀ i ∈ is, i.Names ok) →
    (execInstrs S args is ρ).Moves R
  | [], ρ, _ => Comp.moves_pure hR ρ
  | i :: _, ρ, hi => (instr_moves hR hS args (hi i List.mem_cons_self) ρ).bind hR fun ρ' =>
    instrs_moves ρ' fun i h => hi i (List.mem_cons_of_mem _ h)

theorem term_moves {t : Term Fn} (ht : t.Names ok) (l : ℕ) (ρ : ℕ → ℕ) : (t.exec S args l ρ).Moves R := by
  cases t with
  | invoke dst f as normal unwind =>
    exact Comp.Moves.tryCatch hR
      ((callee_enter_moves hS args ht ρ as).bind hR fun v => Comp.moves_pure hR _) (Comp.moves_pure hR _)
  | resume => exact Comp.moves_throw hR
  | unreachable => exact Comp.moves_stuck
  | missing => exact Comp.moves_stuck
  | _ => exact Comp.moves_pure hR _

/-- **A run of a function.** -/
theorem exec_moves {F : Func Fn Op} (hF : F.Names ok) (ρ : ℕ → ℕ) : (F.exec S args ρ).Moves R := by
  have hstep : ∀ p, (F.step S args p).Moves R := by
    intro p
    unfold Func.step
    split
    · exact Comp.moves_stuck
    · rename_i b hb
      obtain ⟨hi, ht⟩ := hF b (List.mem_of_find?_eq_some hb)
      unfold BasicBlock.exec
      split
      · exact Comp.moves_stuck
      · exact (instrs_moves hR hS args _ hi).bind hR fun ρ => term_moves hR hS args ht b.label ρ
  unfold Func.exec
  split
  · exact Comp.moves_stuck
  · exact Comp.Moves.loop hR hstep _

theorem value_moves {F : Func Fn Op} (hF : F.Names ok) : (F.value S args).Moves R :=
  (exec_moves hR hS args hF _).bind hR fun _ => Comp.moves_pure hR _

end Func

/-- **A function of one block** that returns. -/
theorem value_singleton {S : Sem Fn Op σ} {F : Func Fn Op} {b : BasicBlock Fn Op} (hb : F.blocks = [b])
    (hφ : b.phis = []) {v : Option Operand} (ht : b.term = .ret v) (args : ℕ → ℕ) :
    F.value S args = execInstrs S args b.instrs (fun _ => 0) >>= fun ρ =>
      pure ((v.map (·.eval args ρ)).getD 0) := by
  have hstep : ∀ ρ, F.step S args ⟨none, b.label, ρ⟩ = execInstrs S args b.instrs ρ >>= fun ρ =>
      pure (.inr ⟨(v.map (·.eval args ρ)).getD 0, ρ⟩) := by
    intro ρ
    have hblock : F.block b.label = some b := by
      unfold Func.block
      rw [hb]
      simp
    rw [Func.step_of_some S args (p := ⟨none, b.label, ρ⟩) hblock]
    unfold BasicBlock.exec
    rw [hφ, ht]
    rfl
  have hexec : F.exec S args (fun _ => 0) = F.execFrom S args ⟨none, b.label, fun _ => 0⟩ := by
    unfold Func.exec
    rw [hb]
  unfold Func.value
  rw [hexec]
  unfold Func.execFrom
  rw [Comp.loop_eq, hstep, bind_assoc, bind_assoc]
  simp only [pure_bind, Sum.elim_inr]

/-! ### A module -/

/-- What a module runs on is related to its start. -/
structure Machine.Moves (R : σ → σ → Prop) (ok : Fn → Prop) (X : Machine Fn Op σ) : Prop where
  op : ∀ o as, (X.op o as).Moves R
  external : ∀ f as, ok f → (X.external f as).Moves R
  resolve : ∀ p f, X.resolve p = some f → ok f

variable {X : Machine Fn Op σ} {fn : Fn → Option ((Fn → List ℕ → Comp σ ℕ) → List ℕ → Comp σ ℕ)}

/-- A function that the module does not define. -/
theorem callN_external {f : Fn} (hf : fn f = none) : ∀ n, callN X fn n f = X.external f
  | 0 => by
    funext as
    unfold callN
    rw [hf]
  | n + 1 => by
    funext as
    unfold callN
    rw [hf]

/-- **Runs of a module**, by one of its functions at a time: `c` is what the
calls do that it makes. -/
theorem callN_moves (hX : X.Moves R ok)
    (hfn : ∀ f run, ok f → fn f = some run → ∀ c, (∀ g, fn g = none → c g = X.external g) →
      (X.sem c).Moves R ok → ∀ as, (run c as).Moves R) :
    ∀ n f as, ok f → (callN X fn n f as).Moves R
  | 0, f, as, hf => by
    unfold callN
    split
    · exact hX.external f as hf
    · exact Comp.moves_stuck
  | n + 1, f, as, hf => by
    have ih := callN_moves hX hfn n
    unfold callN
    split
    · exact hX.external f as hf
    · exact hfn f _ hf ‹_› (callN X fn n) (fun g hg => callN_external hg n)
        ⟨hX.op, fun g as hg => ih g as hg, fun g as hg => ih g as hg, hX.resolve⟩ as

theorem call_moves (hX : X.Moves R ok)
    (hfn : ∀ f run, ok f → fn f = some run → ∀ c, (∀ g, fn g = none → c g = X.external g) →
      (X.sem c).Moves R ok → ∀ as, (run c as).Moves R) {f : Fn} (as : List ℕ) (hf : ok f) :
    (call X fn f as).Moves R :=
  fun s o s' ⟨n, h⟩ => callN_moves hX hfn n f as hf s o s' h

/-! ### Callees that may do more -/

/-- All that `S` may do, `S'` may do too. -/
structure Sem.Le (S S' : Sem Fn Op σ) : Prop where
  op : ∀ o as, S.op o as ≤ S'.op o as
  call : ∀ f as, S.call f as ≤ S'.call f as
  enter : ∀ f as, S.enter f as ≤ S'.enter f as
  resolve : S.resolve = S'.resolve

section Mono

variable {S S' : Sem Fn Op σ} (hS : S.Le S') (args : ℕ → ℕ)

include hS

theorem callee_call_mono (f : Callee Fn) (ρ : ℕ → ℕ) (as : List Operand) :
    f.call S args ρ as ≤ f.call S' args ρ as := by
  cases f with
  | direct f => exact hS.call f _
  | indirect p =>
    unfold Callee.call
    dsimp only
    rw [hS.resolve]
    split
    · exact Comp.le_rfl
    · exact hS.enter _ _

theorem callee_enter_mono (f : Callee Fn) (ρ : ℕ → ℕ) (as : List Operand) :
    f.enter S args ρ as ≤ f.enter S' args ρ as := by
  cases f with
  | direct f => exact hS.enter f _
  | indirect p =>
    unfold Callee.enter
    dsimp only
    rw [hS.resolve]
    split
    · exact Comp.le_rfl
    · exact hS.enter _ _

theorem instr_mono (i : Instr Fn Op) (ρ : ℕ → ℕ) : i.exec S args ρ ≤ i.exec S' args ρ := by
  cases i with
  | op dst o as => exact Comp.bind_mono (hS.op o _) fun _ => Comp.le_rfl
  | cast dst v => exact Comp.le_rfl
  | isNull dst v => exact Comp.le_rfl
  | call dst f as => exact Comp.bind_mono (callee_call_mono hS args f ρ as) fun _ => Comp.le_rfl

theorem instrs_mono (is : List (Instr Fn Op)) (ρ : ℕ → ℕ) : execInstrs S args is ρ ≤ execInstrs S' args is ρ := by
  induction is generalizing ρ with
  | nil => exact Comp.le_rfl
  | cons i is ih => exact Comp.bind_mono (instr_mono hS args i ρ) ih

theorem term_mono (t : Term Fn) (l : ℕ) (ρ : ℕ → ℕ) : t.exec S args l ρ ≤ t.exec S' args l ρ := by
  cases t with
  | invoke dst f as normal unwind =>
    apply Comp.tryCatch_mono
    · exact Comp.bind_mono (callee_enter_mono hS args f ρ as) fun _ => Comp.le_rfl
    · exact Comp.le_rfl
  | _ => exact Comp.le_rfl

theorem exec_mono (F : Func Fn Op) (ρ : ℕ → ℕ) : F.exec S args ρ ≤ F.exec S' args ρ := by
  have hblock : ∀ (b : BasicBlock Fn Op) (prev : Option ℕ) (ρ : ℕ → ℕ),
      b.exec S args prev ρ ≤ b.exec S' args prev ρ := by
    intro b prev ρ
    unfold BasicBlock.exec
    split
    · exact Comp.le_rfl
    · exact Comp.bind_mono (instrs_mono hS args _ _) fun ρ => term_mono hS args _ _ ρ
  have hstep : ∀ p, F.step S args p ≤ F.step S' args p := by
    intro p
    unfold Func.step
    split
    · exact Comp.le_rfl
    · exact hblock _ _ _
  unfold Func.exec
  split
  · exact Comp.le_rfl
  · exact Comp.loop_mono hstep _

/-- **A function** may do more when what it calls may. -/
theorem value_mono (F : Func Fn Op) : F.value S args ≤ F.value S' args :=
  Comp.bind_mono (exec_mono hS args F _) fun _ => Comp.le_rfl

end Mono

/-- What functions do may only grow with what calls do. -/
def Grows (fn : Fn → Option ((Fn → List ℕ → Comp σ ℕ) → List ℕ → Comp σ ℕ)) : Prop :=
  ∀ f run, fn f = some run → ∀ c c', (∀ g as, c g as ≤ c' g as) → ∀ as, run c as ≤ run c' as

/-- **A call of a function of the module**, with calls as in the module. -/
theorem call_run (hfn : Grows fn) {f : Fn} {run : (Fn → List ℕ → Comp σ ℕ) → List ℕ → Comp σ ℕ}
    (hf : fn f = some run) (as : List ℕ) : call X fn f as ≤ run (call X fn) as := by
  rintro s o s' ⟨n, h⟩
  have hle : ∀ n g as, callN X fn n g as ≤ call X fn g as := fun n g as s o s' h => ⟨n, h⟩
  cases n with
  | zero =>
    unfold callN at h
    rw [hf] at h
    exact h.elim
  | succ n =>
    unfold callN at h
    rw [hf] at h
    exact hfn f run hf _ _ (hle n) as s o s' h

/-- A run of a function of the module is a run of the module. -/
theorem call_of_run {f : Fn} {run : (Fn → List ℕ → Comp σ ℕ) → List ℕ → Comp σ ℕ} (hf : fn f = some run) (n : ℕ)
    (as : List ℕ) : run (callN X fn n) as ≤ call X fn f as := by
  intro s o s' h
  refine ⟨n + 1, ?_⟩
  unfold callN
  rw [hf]
  exact h

theorem call_external {f : Fn} (hf : fn f = none) (as : List ℕ) : call X fn f as = X.external f as := by
  apply Comp.ext
  intro s o s'
  constructor
  · rintro ⟨n, h⟩
    rwa [callN_external hf n] at h
  · intro h
    exact ⟨0, by rwa [callN_external hf 0]⟩

end Ssa
end Lib
end Cmasan
