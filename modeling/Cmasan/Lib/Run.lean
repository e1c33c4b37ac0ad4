/-
# Runs of a guarded step function

A system is a step function `step : σ → ε → Option σ` (`none`: the step does
not return) and a guard `ok : σ → ε → Prop` on the state a step starts from.
`Runs step ok s es s'` says that the events `es`, each meeting the guard
where it happens, take `s` to `s'`. A property that holds at the start and is
kept by every guarded step holds after every run (`Runs.invariant`); every
prefix of a run is a run, so it holds in every state a run passes through.

Key theorems: `Runs.invariant`, `Runs.mono`, `runs_of_exec`.
-/
import Mathlib.Data.List.Basic

namespace Cmasan
namespace Lib

variable {σ ε : Type*} (step : σ → ε → Option σ) (ok : σ → ε → Prop)

/-- The events, one after the other, each allowed where it happens. -/
inductive Runs (s : σ) : List ε → σ → Prop
  | nil : Runs s [] s
  | snoc {es : List ε} {s₁ s₂ : σ} {e : ε} :
      Runs s es s₁ → ok s₁ e → step s₁ e = some s₂ → Runs s (es ++ [e]) s₂

variable {step ok}

/-- **The invariant rule.** What holds at the start and is kept by each
allowed step holds after every run. -/
theorem Runs.invariant {I : σ → Prop} {s s' : σ} {es : List ε}
    (hstep : ∀ {s₁ s₂ e}, I s₁ → ok s₁ e → step s₁ e = some s₂ → I s₂)
    (h0 : I s) (h : Runs step ok s es s') : I s' := by
  induction h with
  | nil => exact h0
  | snoc _ hok hs ih => exact hstep ih hok hs

theorem Runs.mono {ok' : σ → ε → Prop} {s s' : σ} {es : List ε}
    (himp : ∀ s e, ok s e → ok' s e) (h : Runs step ok s es s') : Runs step ok' s es s' := by
  induction h with
  | nil => exact .nil
  | snoc _ hok hs ih => exact .snoc ih (himp _ _ hok) hs

theorem Runs.cons {s s₁ s' : σ} {es : List ε} {e : ε} (hok : ok s e) (hs : step s e = some s₁)
    (h : Runs step ok s₁ es s') : Runs step ok s (e :: es) s' := by
  induction h with
  | nil =>
    show Runs step ok s ([] ++ [e]) _
    exact .snoc .nil hok hs
  | snoc _ hok' hs' ih =>
    rw [← List.cons_append]
    exact .snoc ih hok' hs'

/-- The run of `es` from `s`, computed: `none` if an event is not allowed or
does not return. -/
def exec (step : σ → ε → Option σ) (ok : σ → ε → Prop) [∀ s e, Decidable (ok s e)] :
    σ → List ε → Option σ
  | s, [] => some s
  | s, e :: es => if ok s e then (step s e).bind (exec step ok · es) else none

theorem runs_of_exec [∀ s e, Decidable (ok s e)] : ∀ {es : List ε} {s s' : σ},
    exec step ok s es = some s' → Runs step ok s es s'
  | [], s, s', h => by
    obtain rfl : s = s' := by simpa [exec] using h
    exact .nil
  | e :: es, s, s', h => by
    unfold exec at h
    split at h
    · rename_i hok
      obtain ⟨s₁, hs, he⟩ := Option.bind_eq_some_iff.mp h
      exact .cons hok hs (runs_of_exec he)
    · cases h

end Lib
end Cmasan
