/-
# Computations with a state

`Comp σ α` is what a piece of code may do: from a state it ends with a value,
or by unwinding (an exception on its way to a handler), in a new state. It is
a relation, so a computation may have several ends, or none when it gets stuck
or runs forever. Computations form a monad, and two of them are equal when
they have the same ends.

`loop body b` runs `body` until it gives a result. If a second body does on
`g b` what the first one does on `b`, and carries on with `post` where the
first one is done, then so do the loops (`loop_map`).

Key definitions: `Comp`, `Comp.tryCatch`, `Comp.loop`, `Comp.Gives`,
`Comp.Moves`.
Key theorems: `Comp.loop_map`, `Comp.loop_congr`, `Comp.Moves.loop`.
-/
import Mathlib.Logic.Basic

namespace Cmasan
namespace Lib

universe u

/-- How a computation ends. -/
inductive Exit (α : Type u)
  | ok (a : α)
  | unwind
  deriving DecidableEq

/-- A computation on the states `σ` with values in `α`. -/
def Comp (σ α : Type u) : Type u := σ → Exit α → σ → Prop

namespace Comp

variable {σ α β γ δ : Type u}

/-- The end of a computation that gives a value. -/
def ret (a : α) : Comp σ α := fun s o s' => o = .ok a ∧ s' = s

/-- One computation after the other; an unwinding one ends both. -/
def andThen (x : Comp σ α) (f : α → Comp σ β) : Comp σ β := fun s o s' =>
  (∃ a s₁, x s (.ok a) s₁ ∧ f a s₁ o s') ∨ o = .unwind ∧ x s .unwind s'

instance : Monad (Comp σ) where
  pure := ret
  bind := andThen

/-- No end. -/
def stuck : Comp σ α := fun _ _ _ => False

/-- An exception. -/
def throw : Comp σ α := fun s o s' => o = .unwind ∧ s' = s

/-- What `x` gives, or `h` where it unwinds. -/
def tryCatch (x : Comp σ α) (h : Comp σ α) : Comp σ α := fun s o s' =>
  (∃ a, o = .ok a ∧ x s (.ok a) s') ∨ ∃ s₁, x s .unwind s₁ ∧ h s₁ o s'

theorem ext_iff {x y : Comp σ α} : x = y ↔ ∀ s o s', x s o s' ↔ y s o s' :=
  ⟨fun h _ _ _ => h ▸ Iff.rfl, fun h => funext fun s => funext fun o => funext fun s' => propext (h s o s')⟩

theorem ext {x y : Comp σ α} (h : ∀ s o s', x s o s' ↔ y s o s') : x = y := ext_iff.mpr h

theorem bind_iff {x : Comp σ α} {f : α → Comp σ β} {s s' : σ} {o : Exit β} :
    (x >>= f) s o s' ↔
      (∃ a s₁, x s (.ok a) s₁ ∧ f a s₁ o s') ∨ o = .unwind ∧ x s .unwind s' := Iff.rfl

theorem bind_ok_iff {x : Comp σ α} {f : α → Comp σ β} {s s' : σ} {b : β} :
    (x >>= f) s (.ok b) s' ↔ ∃ a s₁, x s (.ok a) s₁ ∧ f a s₁ (.ok b) s' := by
  rw [bind_iff]
  simp

theorem andThen_ret (x : Comp σ α) : x.andThen ret = x := by
  apply ext
  intro s o s'
  unfold andThen ret
  cases o with
  | ok a => simp
  | unwind => simp

theorem ret_andThen (a : α) (f : α → Comp σ β) : (ret a).andThen f = f a := by
  apply ext
  intro s o s'
  unfold andThen ret
  constructor
  · rintro (⟨_, _, ⟨h, rfl⟩, hf⟩ | ⟨-, h, -⟩)
    · cases h
      exact hf
    · cases h
  · intro hf
    exact .inl ⟨a, s, ⟨rfl, rfl⟩, hf⟩

theorem andThen_assoc (x : Comp σ α) (f : α → Comp σ β) (g : β → Comp σ γ) :
    (x.andThen f).andThen g = x.andThen fun a => (f a).andThen g := by
  apply ext
  intro s o s'
  constructor
  · rintro (⟨b, s₂, ⟨a, s₁, hx, hf⟩ | ⟨ho, hx⟩, hg⟩ | ⟨rfl, ⟨a, s₁, hx, hf⟩ | ⟨-, hx⟩⟩)
    · exact .inl ⟨a, s₁, hx, .inl ⟨b, s₂, hf, hg⟩⟩
    · cases ho
    · exact .inl ⟨a, s₁, hx, .inr ⟨rfl, hf⟩⟩
    · exact .inr ⟨rfl, hx⟩
  · rintro (⟨a, s₁, hx, ⟨b, s₂, hf, hg⟩ | ⟨rfl, hf⟩⟩ | ⟨rfl, hx⟩)
    · exact .inl ⟨b, s₂, .inl ⟨a, s₁, hx, hf⟩, hg⟩
    · exact .inr ⟨rfl, .inl ⟨a, s₁, hx, hf⟩⟩
    · exact .inr ⟨rfl, .inr ⟨rfl, hx⟩⟩

instance : LawfulMonad (Comp σ) :=
  LawfulMonad.mk' _ andThen_ret ret_andThen andThen_assoc

@[simp] theorem stuck_bind (f : α → Comp σ β) : (stuck : Comp σ α) >>= f = stuck := by
  apply ext
  intro s o s'
  simp [bind_iff, stuck]

@[simp] theorem throw_bind (f : α → Comp σ β) : (throw : Comp σ α) >>= f = throw := by
  apply ext
  intro s o s'
  simp [bind_iff, throw]

/-- What happens after a handled computation is what happens after each of its
two ends. -/
theorem tryCatch_bind_pure (x h : Comp σ α) (f : α → β) :
    (x.tryCatch h >>= fun a => pure (f a)) =
      (x >>= fun a => pure (f a)).tryCatch (h >>= fun a => pure (f a)) := by
  apply ext
  intro s o s'
  constructor
  · rintro (⟨a, s₁, ⟨_, ho, hx⟩ | ⟨s₂, hx, hh⟩, rfl, rfl⟩ | ⟨rfl, ⟨a, ho, -⟩ | ⟨s₂, hx, hh⟩⟩)
    · cases ho
      exact .inl ⟨_, rfl, .inl ⟨_, _, hx, rfl, rfl⟩⟩
    · exact .inr ⟨s₂, .inr ⟨rfl, hx⟩, .inl ⟨_, _, hh, rfl, rfl⟩⟩
    · cases ho
    · exact .inr ⟨s₂, .inr ⟨rfl, hx⟩, .inr ⟨rfl, hh⟩⟩
  · rintro (⟨b, rfl, ⟨a, s₁, hx, he, rfl⟩ | ⟨ho, -⟩⟩ | ⟨s₁, ⟨_, _, -, ho, -⟩ | ⟨-, hx⟩, hh⟩)
    · cases he
      exact .inl ⟨a, _, .inl ⟨a, rfl, hx⟩, rfl, rfl⟩
    · cases ho
    · cases ho
    · rcases hh with ⟨a, s₂, hh, rfl, rfl⟩ | ⟨rfl, hh⟩
      · exact .inl ⟨a, _, .inr ⟨s₁, hx, hh⟩, rfl, rfl⟩
      · exact .inr ⟨rfl, .inr ⟨s₁, hx, hh⟩⟩

/-! ### What all ends have in common -/

/-- Every value that the computation may give has the property. -/
def Gives (x : Comp σ α) (P : α → Prop) : Prop := ∀ s a s', x s (.ok a) s' → P a

theorem gives_pure {a : α} {P : α → Prop} (h : P a) : (pure a : Comp σ α).Gives P := by
  rintro s b s' ⟨hb, -⟩
  cases hb
  exact h

theorem gives_stuck {P : α → Prop} : (stuck : Comp σ α).Gives P := fun _ _ _ h => h.elim

theorem gives_throw {P : α → Prop} : (throw : Comp σ α).Gives P := by
  rintro s a s' ⟨ho, -⟩
  cases ho

theorem Gives.bind {x : Comp σ α} {f : α → Comp σ β} {P : α → Prop} {Q : β → Prop} (hx : x.Gives P)
    (hf : ∀ a, P a → (f a).Gives Q) : (x >>= f).Gives Q := by
  intro s b s' h
  obtain ⟨a, s₁, ha, hb⟩ := bind_ok_iff.mp h
  exact hf a (hx s a s₁ ha) s₁ b s' hb

theorem gives_bind {x : Comp σ α} {f : α → Comp σ β} {Q : β → Prop} (hf : ∀ a, (f a).Gives Q) :
    (x >>= f).Gives Q :=
  Gives.bind (P := fun _ => True) (fun _ _ _ _ => trivial) fun a _ => hf a

theorem Gives.tryCatch {x h : Comp σ α} {P : α → Prop} (hx : x.Gives P) (hh : h.Gives P) :
    (x.tryCatch h).Gives P := by
  rintro s a s' (⟨b, ho, hb⟩ | ⟨s₁, -, hb⟩)
  · cases ho
    exact hx s a s' hb
  · exact hh s₁ a s' hb

/-- Two continuations that agree on what the computation may give. -/
theorem bind_congr_of_gives {x : Comp σ α} {P : α → Prop} (hx : x.Gives P) {f g : α → Comp σ β}
    (h : ∀ a, P a → f a = g a) : x >>= f = x >>= g := by
  apply ext
  intro s o s'
  rw [bind_iff, bind_iff]
  constructor
  · rintro (⟨a, s₁, ha, hb⟩ | hu)
    · exact .inl ⟨a, s₁, ha, h a (hx s a s₁ ha) ▸ hb⟩
    · exact .inr hu
  · rintro (⟨a, s₁, ha, hb⟩ | hu)
    · exact .inl ⟨a, s₁, ha, h a (hx s a s₁ ha) ▸ hb⟩
    · exact .inr hu

/-! ### Loops -/

/-- The ends of a loop: those of the body that are none of the loop's turns. -/
inductive Loop (body : β → Comp σ (β ⊕ α)) : β → σ → Exit α → σ → Prop
  | done {b : β} {s s' : σ} {a : α} : body b s (.ok (.inr a)) s' → Loop body b s (.ok a) s'
  | unwind {b : β} {s s' : σ} : body b s .unwind s' → Loop body b s .unwind s'
  | turn {b b₁ : β} {s s₁ s' : σ} {o : Exit α} : body b s (.ok (.inl b₁)) s₁ → Loop body b₁ s₁ o s' →
      Loop body b s o s'

/-- `body` until it gives a result. -/
def loop (body : β → Comp σ (β ⊕ α)) (b : β) : Comp σ α := Loop body b

/-- One turn, then the loop. -/
theorem loop_eq (body : β → Comp σ (β ⊕ α)) (b : β) :
    loop body b = body b >>= fun r => r.elim (loop body) pure := by
  apply ext
  intro s o s'
  constructor
  · intro h
    cases h with
    | done h => exact .inl ⟨_, _, h, rfl, rfl⟩
    | unwind h => exact .inr ⟨rfl, h⟩
    | turn h hl => exact .inl ⟨_, _, h, hl⟩
  · rintro (⟨r, s₁, hb, hr⟩ | ⟨rfl, hb⟩)
    · cases r with
      | inl b₁ => exact .turn hb hr
      | inr a =>
        obtain ⟨rfl, rfl⟩ := hr
        exact .done hb
    · exact .unwind hb

section Map

variable {body : β → Comp σ (β ⊕ α)} {body' : δ → Comp σ (δ ⊕ γ)} {g : β → δ} {post : α → Comp σ γ}
  {P : β → Prop}

/-- What the second body does after the first one's turn. -/
def next (g : β → δ) (post : α → Comp σ γ) : β ⊕ α → Comp σ (δ ⊕ γ)
  | .inl b => pure (.inl (g b))
  | .inr a => post a >>= fun c => pure (.inr c)

/-- **Two loops turn by turn.** `P` is what holds of the loop's state. -/
theorem loop_map (hP : ∀ b, P b → (body b).Gives fun r => ∀ b₁, r = .inl b₁ → P b₁)
    (hb : ∀ b, P b → body' (g b) = body b >>= next g post) {b : β} (h : P b) :
    loop body' (g b) = loop body b >>= post := by
  apply ext
  intro s o s'
  constructor
  · intro hl
    obtain ⟨d, hd⟩ : ∃ d, d = g b := ⟨_, rfl⟩
    rw [← hd] at hl
    change Loop body' d s o s' at hl
    induction hl generalizing b with
    | @done d s s' c hbd =>
      subst hd
      rw [hb b h] at hbd
      obtain ⟨r, s₁, hr, hn⟩ := bind_ok_iff.mp hbd
      cases r with
      | inl b₁ => cases hn.1
      | inr a =>
        obtain ⟨c', s₂, hc, he, rfl⟩ := bind_ok_iff.mp hn
        cases he
        exact .inl ⟨a, s₁, .done hr, hc⟩
    | @unwind d s s' hbd =>
      subst hd
      rw [hb b h] at hbd
      rcases hbd with ⟨r, s₁, hr, hn⟩ | ⟨-, hu⟩
      · cases r with
        | inl b₁ => cases hn.1
        | inr a =>
          rcases hn with ⟨c', s₂, -, he, -⟩ | ⟨-, hu⟩
          · cases he
          · exact .inl ⟨a, s₁, .done hr, hu⟩
      · exact .inr ⟨rfl, .unwind hu⟩
    | @turn d d₁ s s₁ s' o hbd hl ih =>
      subst hd
      rw [hb b h] at hbd
      obtain ⟨r, s₂, hr, hn⟩ := bind_ok_iff.mp hbd
      cases r with
      | inl b₁ =>
        obtain ⟨he, rfl⟩ := hn
        cases he
        rcases ih (hP b h s _ _ hr b₁ rfl) rfl with ⟨a, s₃, ha, hp⟩ | ⟨rfl, hu⟩
        · exact .inl ⟨a, s₃, .turn hr ha, hp⟩
        · exact .inr ⟨rfl, .turn hr hu⟩
      | inr a =>
        obtain ⟨c', s₃, -, he, -⟩ := bind_ok_iff.mp hn
        cases he
  · rintro (⟨a, s₁, hl, hp⟩ | ⟨rfl, hl⟩)
    · obtain ⟨r, hr⟩ : ∃ r, r = Exit.ok a := ⟨_, rfl⟩
      rw [← hr] at hl
      change Loop body b s r s₁ at hl
      induction hl with
      | @done b s s₁ a' hbd =>
        cases hr
        rw [loop_eq, hb b h, bind_assoc]
        refine .inl ⟨_, _, hbd, ?_⟩
        simpa [next] using hp
      | unwind _ => cases hr
      | @turn b b₁ s s₂ s₁ r hbd _ ih =>
        rw [loop_eq, hb b h, bind_assoc]
        refine .inl ⟨_, _, hbd, ?_⟩
        simpa [next] using ih (hP b h s _ _ hbd b₁ rfl) hp hr
    · obtain ⟨r, hr⟩ : ∃ r : Exit α, r = Exit.unwind := ⟨_, rfl⟩
      rw [← hr] at hl
      change Loop body b s r s' at hl
      induction hl with
      | done _ => cases hr
      | @unwind b s s' hbd =>
        rw [loop_eq, hb b h, bind_assoc]
        exact .inr ⟨rfl, hbd⟩
      | @turn b b₁ s s₂ s₁ r hbd _ ih =>
        rw [loop_eq, hb b h, bind_assoc]
        refine .inl ⟨_, _, hbd, ?_⟩
        simpa [next] using ih (hP b h s _ _ hbd b₁ rfl) hr

end Map

/-- The result of a loop, seen through a map. -/
theorem loop_bind_pure (body : β → Comp σ (β ⊕ α)) (view : α → γ) (b : β) :
    (loop body b >>= fun a => pure (view a)) = loop (fun b => body b >>= fun r => pure (r.map id view)) b := by
  refine (loop_map (g := id) (P := fun _ => True) (fun _ _ _ _ _ _ _ _ => trivial) ?_ trivial).symm
  intro b _
  congr 1
  funext r
  cases r <;> simp [next]

/-- Two bodies that agree while the property holds. -/
theorem loop_congr {body body' : β → Comp σ (β ⊕ α)} {P : β → Prop}
    (hP : ∀ b, P b → (body b).Gives fun r => ∀ b₁, r = .inl b₁ → P b₁)
    (hb : ∀ b, P b → body' b = body b) {b : β} (h : P b) : loop body' b = loop body b := by
  have hn : (next id pure : β ⊕ α → Comp σ (β ⊕ α)) = pure := by
    funext r
    cases r <;> simp [next]
  have hm : loop body' (id b) = loop body b >>= pure := by
    apply loop_map hP _ h
    intro b hPb
    rw [hn, bind_pure]
    exact hb b hPb
  rwa [bind_pure] at hm

/-! ### What happens to the state -/

/-- A relation that holds of a run if it holds of each of its steps. -/
structure Stepwise (R : σ → σ → Prop) : Prop where
  refl : ∀ s, R s s
  trans : ∀ {s₁ s₂ s₃}, R s₁ s₂ → R s₂ s₃ → R s₁ s₃

/-- Every end of the computation is related to its start. -/
def Moves (R : σ → σ → Prop) (x : Comp σ α) : Prop := ∀ s o s', x s o s' → R s s'

section Moves

variable {R : σ → σ → Prop}

theorem moves_pure (hR : Stepwise R) (a : α) : (pure a : Comp σ α).Moves R := by
  rintro s o s' ⟨-, rfl⟩
  exact hR.refl s'

theorem moves_stuck : (stuck : Comp σ α).Moves R := fun _ _ _ h => h.elim

theorem moves_throw (hR : Stepwise R) : (throw : Comp σ α).Moves R := by
  rintro s o s' ⟨-, rfl⟩
  exact hR.refl s'

theorem Moves.bind (hR : Stepwise R) {x : Comp σ α} {f : α → Comp σ β} (hx : x.Moves R) (hf : ∀ a, (f a).Moves R) :
    (x >>= f).Moves R := by
  rintro s o s' (⟨a, s₁, ha, hb⟩ | ⟨-, hu⟩)
  · exact hR.trans (hx _ _ _ ha) (hf a _ _ _ hb)
  · exact hx _ _ _ hu

theorem Moves.tryCatch (hR : Stepwise R) {x h : Comp σ α} (hx : x.Moves R) (hh : h.Moves R) :
    (x.tryCatch h).Moves R := by
  rintro s o s' (⟨a, -, ha⟩ | ⟨s₁, hu, hb⟩)
  · exact hx _ _ _ ha
  · exact hR.trans (hx _ _ _ hu) (hh _ _ _ hb)

/-- A loop, turn by turn. -/
theorem Moves.loop (hR : Stepwise R) {body : β → Comp σ (β ⊕ α)} (hb : ∀ b, (body b).Moves R) (b : β) :
    (loop body b).Moves R := by
  intro s o s' hl
  change Loop body b s o s' at hl
  induction hl with
  | done h => exact hb _ _ _ _ h
  | unwind h => exact hb _ _ _ _ h
  | turn h _ ih => exact hR.trans (hb _ _ _ _ h) ih

end Moves

/-! ### More ends -/

/-- `y` has all the ends of `x`. -/
instance : LE (Comp σ α) := ⟨fun x y => ∀ s o s', x s o s' → y s o s'⟩

theorem le_rfl {x : Comp σ α} : x ≤ x := fun _ _ _ h => h

theorem bind_mono {x y : Comp σ α} {f g : α → Comp σ β} (hx : x ≤ y) (hf : ∀ a, f a ≤ g a) :
    x >>= f ≤ y >>= g := by
  intro s o s' h
  rcases h with ⟨a, s₁, ha, hb⟩ | ⟨ho, hu⟩
  · exact .inl ⟨a, s₁, hx _ _ _ ha, hf a _ _ _ hb⟩
  · exact .inr ⟨ho, hx _ _ _ hu⟩

theorem tryCatch_mono {x y h k : Comp σ α} (hx : x ≤ y) (hh : h ≤ k) : x.tryCatch h ≤ y.tryCatch k := by
  intro s o s' he
  rcases he with ⟨a, ho, ha⟩ | ⟨s₁, hu, hb⟩
  · exact .inl ⟨a, ho, hx _ _ _ ha⟩
  · exact .inr ⟨s₁, hx _ _ _ hu, hh _ _ _ hb⟩

/-- A loop, turn by turn. -/
theorem loop_mono {body body' : β → Comp σ (β ⊕ α)} (hb : ∀ b, body b ≤ body' b) (b : β) :
    loop body b ≤ loop body' b := by
  intro s o s' hl
  change Loop body b s o s' at hl
  induction hl with
  | done h => exact .done (hb _ _ _ _ h)
  | unwind h => exact .unwind (hb _ _ _ _ h)
  | turn h _ ih => exact .turn (hb _ _ _ _ h) ih

end Comp
end Lib
end Cmasan
