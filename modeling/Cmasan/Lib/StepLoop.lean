/-
# A loop with a step counter of its own

`while step < len(xs)` with a body that looks at `xs[step]` and advances
`step` itself, or does not (`stepLoop`). If the body advances on the elements
that are good, and on the others raises or changes nothing, the loop comes to
its end iff all elements are good (`exists_stepLoop_done_iff`), and it has
then seen each of them once, in order.

Key definitions: `Outcome`, `stepLoop`, `Body`.
Key theorems: `Body.stepLoop_good`, `Body.stepLoop_bad`, `Body.exists_stepLoop_done_iff`.
-/
import Mathlib.Data.Nat.Notation

namespace Cmasan
namespace Lib

/-- How a loop ends: with a state, with an exception, or not with this fuel. -/
inductive Outcome (ε σ : Type*) where
  | done (s : σ)
  | raised (e : ε)
  | outOfFuel

variable {α ε σ : Type*}

/-- The loop from `step`; the body gives the next state and whether it
advanced `step`. -/
def stepLoop (body : α → σ → Except ε (σ × Bool)) (xs : List α) : ℕ → ℕ → σ → Outcome ε σ
  | 0, _, _ => .outOfFuel
  | fuel + 1, step, s =>
    match xs[step]? with
    | none => .done s
    | some x =>
      match body x s with
      | .error e => .raised e
      | .ok (s', true) => stepLoop body xs fuel (step + 1) s'
      | .ok (s', false) => stepLoop body xs fuel step s'

/-- What is known of a body: it advances on good elements and logs them, and
on others it raises or changes nothing. -/
structure Body (body : α → σ → Except ε (σ × Bool)) (Good : α → Prop) (log : σ → List α) : Prop where
  good : ∀ x s, Good x → ∃ s', body x s = .ok (s', true) ∧ log s' = log s ++ [x]
  bad : ∀ x s, ¬ Good x → body x s = .ok (s, false) ∨ ∃ e, body x s = .error e

variable {body : α → σ → Except ε (σ × Bool)} {Good : α → Prop} {log : σ → List α}

/-- **Over good elements** the loop ends, with any fuel above their number,
and has logged each of them once. -/
theorem Body.stepLoop_good (h : Body body Good log) {xs : List α} : ∀ (fuel step : ℕ) (s : σ),
    (∀ x ∈ xs.drop step, Good x) → (xs.drop step).length < fuel →
    ∃ s', stepLoop body xs fuel step s = .done s' ∧ log s' = log s ++ xs.drop step
  | 0, _, _, _, hf => absurd hf (Nat.not_lt_zero _)
  | fuel + 1, step, s, hgood, hf => by
    unfold stepLoop
    cases hx : xs[step]? with
    | none =>
      have hend : xs.drop step = [] := List.drop_eq_nil_of_le (List.getElem?_eq_none_iff.mp hx)
      exact ⟨s, rfl, by rw [hend, List.append_nil]⟩
    | some x =>
      have hdrop : xs.drop step = x :: xs.drop (step + 1) := by
        obtain ⟨hlt, rfl⟩ := List.getElem?_eq_some_iff.mp hx
        exact List.drop_eq_getElem_cons hlt
      rw [hdrop] at hgood hf
      obtain ⟨s₁, hbody, hlog⟩ := h.good x s (hgood x List.mem_cons_self)
      obtain ⟨s', hrun, hlog'⟩ := h.stepLoop_good fuel (step + 1) s₁
        (fun y hy => hgood y (List.mem_cons_of_mem x hy)) (Nat.lt_of_succ_lt_succ hf)
      refine ⟨s', ?_, ?_⟩
      · dsimp only
        rw [hbody]
        exact hrun
      · rw [hlog', hlog, hdrop, List.append_assoc, List.singleton_append]

/-- **With an element that is not good** the loop does not end, whatever the fuel. -/
theorem Body.stepLoop_bad (h : Body body Good log) {xs : List α} : ∀ (fuel step : ℕ) (s : σ),
    (∃ x ∈ xs.drop step, ¬ Good x) → ∀ s', stepLoop body xs fuel step s ≠ .done s'
  | 0, _, _, _, _ => fun he => by cases he
  | fuel + 1, step, s, ⟨y, hy, hbad⟩, s' => by
    unfold stepLoop
    cases hx : xs[step]? with
    | none =>
      rw [List.drop_eq_nil_of_le (List.getElem?_eq_none_iff.mp hx)] at hy
      cases hy
    | some x =>
      have hdrop : xs.drop step = x :: xs.drop (step + 1) := by
        obtain ⟨hlt, rfl⟩ := List.getElem?_eq_some_iff.mp hx
        exact List.drop_eq_getElem_cons hlt
      dsimp only
      by_cases hg : Good x
      · -- the step is behind, the bad element is not
        obtain ⟨s₁, hbody, -⟩ := h.good x s hg
        rw [hbody]
        rw [hdrop] at hy
        have hy' : y ∈ xs.drop (step + 1) := (List.mem_cons.mp hy).resolve_left fun he => hbad (he ▸ hg)
        exact h.stepLoop_bad fuel (step + 1) s₁ ⟨y, hy', hbad⟩ s'
      · rcases h.bad x s hg with hbody | ⟨e, hbody⟩ <;> rw [hbody]
        · exact h.stepLoop_bad fuel step s ⟨y, hy, hbad⟩ s'
        · exact fun he => by cases he

theorem stepLoop_stuck {xs : List α} {x : α} {step : ℕ} {s : σ} (hx : xs[step]? = some x)
    (hbody : body x s = .ok (s, false)) : ∀ fuel, stepLoop body xs fuel step s = .outOfFuel
  | 0 => rfl
  | fuel + 1 => by
    unfold stepLoop
    rw [hx]
    dsimp only
    rw [hbody]
    exact stepLoop_stuck hx hbody fuel

/-- **The loop ends, each element logged once, iff all are good.** -/
theorem Body.exists_stepLoop_done_iff (h : Body body Good log) (xs : List α) (s : σ) :
    (∃ fuel s', stepLoop body xs fuel 0 s = .done s' ∧ log s' = log s ++ xs) ↔ ∀ x ∈ xs, Good x := by
  constructor
  · intro ⟨fuel, s', hrun, _⟩ x hx
    apply Classical.byContradiction
    intro hbad
    exact h.stepLoop_bad fuel 0 s ⟨x, hx, hbad⟩ s' hrun
  · intro hgood
    exact ⟨xs.length + 1, h.stepLoop_good _ 0 s hgood (Nat.lt_succ_self _)⟩

end Lib
end Cmasan
