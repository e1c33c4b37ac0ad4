/-
# Passes over functions in SSA form

What a pass does to a function, block by block, and what the function then
does. A pass that keeps the blocks one for one is right when each new block
`Follows` its old one. Operands may be renamed (`Renames`), as when all uses
of an argument are replaced by a new register; instructions may be put after
others, before the returns or at the entry, and blocks before the entry.

Key definitions: `Follows`, `Renames`, `Func.mapOperands`, `replaceArg`,
`Func.insertEntry`, `Func.prepend`, `Func.insertAfter`.
Key theorems: `exec_forall₂`, `exec_mapOperands`, `exec_replaceArg`,
`exec_insertEntry`, `execFrom_prepend`, `exec_insertAfter`.
-/
import Cmasan.Lib.Ssa

namespace Cmasan
namespace Lib
namespace Ssa

variable {Fn Op σ : Type}

/-! ### Where control goes -/

section Gives

variable (S : Sem Fn Op σ) (args : ℕ → ℕ)

/-- A block is left for one of its targets. -/
theorem Term.exec_gives (l : ℕ) (ρ : ℕ → ℕ) (t : Term Fn) :
    (t.exec S args l ρ).Gives fun r => ∀ p, r = .inl p → p.label ∈ t.targets := by
  cases t with
  | ret v => exact Comp.gives_pure fun p hp => by cases hp
  | br l₁ =>
    refine Comp.gives_pure fun p hp => ?_
    cases hp
    exact List.mem_singleton_self l₁
  | condBr v l₁ l₂ =>
    refine Comp.gives_pure fun p hp => ?_
    cases hp
    show (if _ then l₁ else l₂) ∈ _
    split <;> simp [Term.targets]
  | switch v cases default =>
    refine Comp.gives_pure fun p hp => ?_
    cases hp
    show (cases.lookup _).getD default ∈ _
    cases hl : cases.lookup (v.eval args ρ) with
    | none => simp [Term.targets]
    | some l₁ =>
      obtain ⟨xs, ys, he, -⟩ := List.lookup_eq_some_iff.mp hl
      simp [Term.targets, he]
  | invoke dst f as normal unwind =>
    refine Comp.Gives.tryCatch (Comp.gives_bind fun v => Comp.gives_pure fun p hp => ?_)
      (Comp.gives_pure fun p hp => ?_)
    · cases hp
      simp [Term.targets]
    · cases hp
      simp [Term.targets]
  | resume => exact Comp.gives_throw
  | unreachable => exact Comp.gives_stuck
  | missing => exact Comp.gives_stuck

theorem Term.exec_gives_inl (l : ℕ) (ρ : ℕ → ℕ) {t : Term Fn} (ht : ∀ v, t ≠ .ret v) :
    (t.exec S args l ρ).Gives fun r => ∃ p, r = .inl p := by
  cases t with
  | ret v => exact absurd rfl (ht v)
  | br l₁ => exact Comp.gives_pure ⟨_, rfl⟩
  | condBr v l₁ l₂ => exact Comp.gives_pure ⟨_, rfl⟩
  | switch v cases default => exact Comp.gives_pure ⟨_, rfl⟩
  | invoke dst f as normal unwind =>
    exact Comp.Gives.tryCatch (Comp.gives_bind fun v => Comp.gives_pure ⟨_, rfl⟩) (Comp.gives_pure ⟨_, rfl⟩)
  | resume => exact Comp.gives_throw
  | unreachable => exact Comp.gives_stuck
  | missing => exact Comp.gives_stuck

theorem BasicBlock.exec_gives (b : BasicBlock Fn Op) (prev : Option ℕ) (ρ : ℕ → ℕ) :
    (b.exec S args prev ρ).Gives fun r => ∀ p, r = .inl p → p.label ∈ b.term.targets := by
  unfold BasicBlock.exec
  split
  · exact Comp.gives_stuck
  · exact Comp.gives_bind fun ρ => Term.exec_gives S args b.label ρ b.term

theorem Func.step_gives (F : Func Fn Op) (p : Pos) :
    (F.step S args p).Gives fun r => ∀ p', r = .inl p' → ∃ b ∈ F.blocks, p'.label ∈ b.term.targets := by
  unfold Func.step
  split
  · exact Comp.gives_stuck
  · rename_i b hb
    intro s r s' h p' hp
    exact ⟨b, List.mem_of_find?_eq_some hb, BasicBlock.exec_gives S args b _ _ s r s' h p' hp⟩

end Gives

/-! ### Blocks one for one -/

/-- A position with other registers. -/
def Pos.map (g : (ℕ → ℕ) → ℕ → ℕ) (p : Pos) : Pos := { p with regs := g p.regs }

section Follows

variable {γ : Type} (S S' : Sem Fn Op σ) (args args' : ℕ → ℕ) (g : (ℕ → ℕ) → ℕ → ℕ) (view : Left → γ)
  (post : Left → Comp σ γ)

/-- What the second block does to the mapped registers is what the first one
does, mapped, and `post` after a return; of what it leaves then only the
`view` counts. -/
structure Follows (b b' : BasicBlock Fn Op) : Prop where
  label : b'.label = b.label
  exec : ∀ prev ρ, (b'.exec S' args' prev (g ρ) >>= fun r => pure (r.map id view)) =
    b.exec S args prev ρ >>= Comp.next (Pos.map g) post

variable {S S' args args' g view post}

theorem find?_forall₂ {bs bs' : List (BasicBlock Fn Op)}
    (h : List.Forall₂ (Follows S S' args args' g view post) bs bs') (l : ℕ) :
    (bs.find? (·.label = l) = none ∧ bs'.find? (·.label = l) = none) ∨
      ∃ b b', bs.find? (·.label = l) = some b ∧ bs'.find? (·.label = l) = some b' ∧
        Follows S S' args args' g view post b b' := by
  induction h with
  | nil => exact .inl ⟨rfl, rfl⟩
  | @cons b b' bs bs' hb _ ih =>
    by_cases hl : b.label = l
    · refine .inr ⟨b, b', ?_, ?_, hb⟩
      · simp [hl]
      · simp [hb.label.trans hl]
    · rw [List.find?_cons_of_neg (by simpa using hl),
        List.find?_cons_of_neg (by simpa using fun h => hl (hb.label.symm.trans h))]
      exact ih

variable {F G : Func Fn Op}

theorem step_forall₂ (h : List.Forall₂ (Follows S S' args args' g view post) F.blocks G.blocks) (p : Pos) :
    (G.step S' args' (p.map g) >>= fun r => pure (r.map id view)) =
      F.step S args p >>= Comp.next (Pos.map g) post := by
  rcases find?_forall₂ h p.label with ⟨h₁, h₂⟩ | ⟨b, b', h₁, h₂, hb⟩
  · have h₂ : G.block (p.map g).label = none := h₂
    rw [Func.step_of_none S args h₁, Func.step_of_none S' args' h₂, Comp.stuck_bind, Comp.stuck_bind]
  · have h₂ : G.block (p.map g).label = some b' := h₂
    rw [Func.step_of_some S args h₁, Func.step_of_some S' args' h₂]
    exact hb.exec p.prev p.regs

/-- **Block by block.** A function whose blocks follow those of another does
what that one does. -/
theorem execFrom_forall₂ (h : List.Forall₂ (Follows S S' args args' g view post) F.blocks G.blocks) (p : Pos) :
    (G.execFrom S' args' (p.map g) >>= fun r => pure (view r)) = F.execFrom S args p >>= post := by
  unfold Func.execFrom
  rw [Comp.loop_bind_pure]
  exact Comp.loop_map (P := fun _ => True) (fun _ _ _ _ _ _ _ _ => trivial) (fun p _ => step_forall₂ h p)
    trivial

theorem exec_forall₂ (h : List.Forall₂ (Follows S S' args args' g view post) F.blocks G.blocks) (ρ : ℕ → ℕ) :
    (G.exec S' args' (g ρ) >>= fun r => pure (view r)) = F.exec S args ρ >>= post := by
  unfold Func.exec
  generalize hbs : F.blocks = bs at h
  generalize hbs' : G.blocks = bs' at h
  cases h with
  | nil => simp only [Comp.stuck_bind]
  | @cons b b' bs bs' hb hrest =>
    have h : List.Forall₂ (Follows S S' args args' g view post) F.blocks G.blocks := by
      rw [hbs, hbs']
      exact .cons hb hrest
    simp only [hb.label]
    exact execFrom_forall₂ h ⟨none, b.label, ρ⟩

end Follows

/-! ### Operands renamed -/

variable (θ : Operand → Operand)

def Callee.mapOperands : Callee Fn → Callee Fn
  | .direct f => .direct f
  | .indirect p => .indirect (θ p)

def Instr.mapOperands : Instr Fn Op → Instr Fn Op
  | .op dst o as => .op dst o (as.map θ)
  | .cast dst v => .cast dst (θ v)
  | .isNull dst v => .isNull dst (θ v)
  | .call dst f as => .call dst (f.mapOperands θ) (as.map θ)

def Term.mapOperands : Term Fn → Term Fn
  | .ret v => .ret (v.map θ)
  | .br l => .br l
  | .condBr v l₁ l₂ => .condBr (θ v) l₁ l₂
  | .switch v cases default => .switch (θ v) cases default
  | .invoke dst f as normal unwind => .invoke dst (f.mapOperands θ) (as.map θ) normal unwind
  | .resume => .resume
  | .unreachable => .unreachable
  | .missing => .missing

def Phi.mapOperands (φ : Phi) : Phi := { φ with incoming := φ.incoming.map fun x => (x.1, θ x.2) }

def BasicBlock.mapOperands (b : BasicBlock Fn Op) : BasicBlock Fn Op :=
  { b with
    phis := b.phis.map (·.mapOperands θ)
    instrs := b.instrs.map (·.mapOperands θ)
    term := b.term.mapOperands θ }

def Func.mapOperands (F : Func Fn Op) : Func Fn Op := { F with blocks := F.blocks.map (·.mapOperands θ) }

section Renames

variable (args args' : ℕ → ℕ) (g : (ℕ → ℕ) → ℕ → ℕ) (n : ℕ)

/-- A renamed operand has, in the mapped registers, the value it had; the
registers below `n` are written as before. -/
structure Renames : Prop where
  eval : ∀ {o : Operand} (ρ : ℕ → ℕ), o.Below n → (θ o).eval args' (g ρ) = o.eval args ρ
  update : ∀ {r : ℕ} (ρ : ℕ → ℕ) (v : ℕ), r < n → g (Function.update ρ r v) = Function.update (g ρ) r v

variable {θ args args' g n}

theorem Renames.evals (h : Renames θ args args' g n) (ρ : ℕ → ℕ) {as : List Operand}
    (has : ∀ o ∈ as, o.Below n) : (as.map θ).map (·.eval args' (g ρ)) = as.map (·.eval args ρ) := by
  rw [List.map_map]
  exact List.map_congr_left fun o ho => h.eval ρ (has o ho)

theorem Renames.setDst (h : Renames θ args args' g n) (ρ : ℕ → ℕ) (v : ℕ) {dst : Option ℕ}
    (hd : ∀ r ∈ dst, r < n) : g (setDst ρ dst v) = Ssa.setDst (g ρ) dst v := by
  cases dst with
  | none => rfl
  | some r => exact h.update ρ v (hd r rfl)

variable (S : Sem Fn Op σ)

theorem Renames.call (h : Renames θ args args' g n) (ρ : ℕ → ℕ) {f : Callee Fn} {as : List Operand}
    (has : ∀ o ∈ f.operands ++ as, o.Below n) :
    (f.mapOperands θ).call S args' (g ρ) (as.map θ) = f.call S args ρ as := by
  have hargs := h.evals ρ fun o ho => has o (List.mem_append_right _ ho)
  cases f with
  | direct f =>
    show S.call f _ = S.call f _
    rw [hargs]
  | indirect p =>
    unfold Callee.call Callee.mapOperands
    dsimp only
    rw [h.eval ρ (has p (by simp [Callee.operands])), hargs]

theorem Renames.enter (h : Renames θ args args' g n) (ρ : ℕ → ℕ) {f : Callee Fn} {as : List Operand}
    (has : ∀ o ∈ f.operands ++ as, o.Below n) :
    (f.mapOperands θ).enter S args' (g ρ) (as.map θ) = f.enter S args ρ as := by
  have hargs := h.evals ρ fun o ho => has o (List.mem_append_right _ ho)
  cases f with
  | direct f =>
    show S.enter f _ = S.enter f _
    rw [hargs]
  | indirect p =>
    unfold Callee.enter Callee.mapOperands
    dsimp only
    rw [h.eval ρ (has p (by simp [Callee.operands])), hargs]

theorem Renames.instr (h : Renames θ args args' g n) (ρ : ℕ → ℕ) {i : Instr Fn Op} (hi : i.Wf n) :
    (i.mapOperands θ).exec S args' (g ρ) = i.exec S args ρ >>= fun ρ => pure (g ρ) := by
  cases i with
  | op dst o as =>
    have hd : dst < n := hi.dst dst rfl
    simp only [Instr.mapOperands, Instr.exec, h.evals ρ (show ∀ o ∈ as, o.Below n from hi.operands),
      h.update _ _ hd, bind_assoc,
      pure_bind]
  | cast dst v =>
    have hd : dst < n := hi.dst dst rfl
    simp [Instr.mapOperands, Instr.exec, h.eval ρ (hi.operands v (List.mem_singleton_self v)), h.update _ _ hd]
  | isNull dst v =>
    have hd : dst < n := hi.dst dst rfl
    simp [Instr.mapOperands, Instr.exec, h.eval ρ (hi.operands v (List.mem_singleton_self v)), h.update _ _ hd]
  | call dst f as =>
    simp only [Instr.mapOperands, Instr.exec, h.call S ρ hi.operands, h.setDst ρ _ (show ∀ r ∈ dst, r < n from hi.dst),
      bind_assoc, pure_bind]

theorem Renames.instrs (h : Renames θ args args' g n) : ∀ {is : List (Instr Fn Op)} (ρ : ℕ → ℕ),
    (∀ i ∈ is, i.Wf n) → execInstrs S args' (is.map (·.mapOperands θ)) (g ρ) =
      execInstrs S args is ρ >>= fun ρ => pure (g ρ)
  | [], ρ, _ => by simp [execInstrs]
  | i :: is, ρ, hi => by
    have hhead := h.instr S ρ (hi i List.mem_cons_self)
    have htail : ∀ i ∈ is, i.Wf n := fun i h => hi i (List.mem_cons_of_mem _ h)
    rw [List.map_cons]
    unfold execInstrs
    rw [hhead, bind_assoc, bind_assoc]
    congr 1
    funext ρ₁
    rw [pure_bind]
    exact h.instrs ρ₁ htail

theorem lookup_map_snd {κ α β : Type*} [BEq κ] (f : α → β) (k : κ) : ∀ xs : List (κ × α),
    (xs.map fun x => (x.1, f x.2)).lookup k = (xs.lookup k).map f
  | [] => rfl
  | (k', a) :: xs => by
    rw [List.map_cons, List.lookup_cons, List.lookup_cons]
    cases k == k' with
    | true => rfl
    | false => exact lookup_map_snd f k xs

theorem Renames.phis (h : Renames θ args args' g n) (prev : Option ℕ) (ρ : ℕ → ℕ) : ∀ {φs : List Phi},
    (∀ φ ∈ φs, φ.dst < n ∧ ∀ x ∈ φ.incoming, x.2.Below n) →
      execPhis args' prev (g ρ) (φs.map (·.mapOperands θ)) = (execPhis args prev ρ φs).map g
  | [], _ => rfl
  | φ :: φs, hφ => by
    obtain ⟨hd, hx⟩ := hφ φ List.mem_cons_self
    have ih := h.phis prev ρ fun φ h => hφ φ (List.mem_cons_of_mem _ h)
    have hl : prev.bind ((φ.mapOperands θ).incoming.lookup ·) = (prev.bind (φ.incoming.lookup ·)).map θ := by
      cases prev with
      | none => rfl
      | some l => exact lookup_map_snd θ l φ.incoming
    rw [List.map_cons]
    unfold execPhis
    rw [hl, ih]
    cases ho : prev.bind (φ.incoming.lookup ·) with
    | none => rfl
    | some o =>
      cases hr : execPhis args prev ρ φs with
      | none => rfl
      | some ρ' =>
        have hb : o.Below n := by
          obtain ⟨l, -, hl⟩ := Option.bind_eq_some_iff.mp ho
          obtain ⟨xs, ys, he, -⟩ := List.lookup_eq_some_iff.mp hl
          exact hx (l, o) (by simp [he])
        simp [Phi.mapOperands, h.eval ρ hb, h.update ρ' _ hd]

theorem Renames.term (h : Renames θ args args' g n) (l : ℕ) (ρ : ℕ → ℕ) {t : Term Fn}
    (ho : ∀ o ∈ t.operands, o.Below n) (hd : ∀ r ∈ t.dst, r < n) :
    (t.mapOperands θ).exec S args' l (g ρ) =
      t.exec S args l ρ >>= Comp.next (Pos.map g) fun r => pure ⟨r.val, g r.regs⟩ := by
  cases t with
  | ret v =>
    cases v with
    | none => simp [Term.mapOperands, Term.exec, Comp.next]
    | some v =>
      have hv := h.eval ρ (ho v (by simp [Term.operands]))
      simp [Term.mapOperands, Term.exec, Comp.next, hv]
  | br l₁ => simp [Term.mapOperands, Term.exec, Comp.next, Pos.map]
  | condBr v l₁ l₂ =>
    have hv := h.eval ρ (ho v (List.mem_singleton_self v))
    simp [Term.mapOperands, Term.exec, Comp.next, Pos.map, hv]
  | switch v cases default =>
    have hv := h.eval ρ (ho v (List.mem_singleton_self v))
    simp [Term.mapOperands, Term.exec, Comp.next, Pos.map, hv]
  | invoke dst f as normal unwind =>
    have hn : (Comp.next (Pos.map g) fun r => pure ⟨r.val, g r.regs⟩ : Pos ⊕ Left → Comp σ (Pos ⊕ Left)) =
        fun r => pure (r.map (Pos.map g) fun r : Left => ⟨r.val, g r.regs⟩) := by
      funext r
      cases r <;> simp [Comp.next]
    show Comp.tryCatch _ _ = Comp.tryCatch _ _ >>= _
    rw [hn, Comp.tryCatch_bind_pure, h.enter S ρ ho]
    simp only [bind_assoc, pure_bind, Sum.map_inl, Pos.map, h.setDst ρ _ (show ∀ r ∈ dst, r < n from hd)]
  | resume => simp [Term.mapOperands, Term.exec]
  | unreachable => simp [Term.mapOperands, Term.exec]
  | missing => simp [Term.mapOperands, Term.exec]

theorem Renames.block (h : Renames θ args args' g n) {b : BasicBlock Fn Op} {m : ℕ} (hb : b.Wf n m) :
    Follows S S args args' g id (fun r => pure ⟨r.val, g r.regs⟩) b (b.mapOperands θ) := by
  refine ⟨rfl, fun prev ρ => ?_⟩
  simp only [Sum.map_id_id, id, bind_pure]
  unfold BasicBlock.exec BasicBlock.mapOperands
  dsimp only
  rw [h.phis prev ρ hb.phis]
  cases execPhis args prev ρ b.phis with
  | none => simp
  | some ρ₁ =>
    show execInstrs S args' _ (g ρ₁) >>= _ = _
    rw [h.instrs S ρ₁ hb.instrs, bind_assoc, bind_assoc]
    congr 1
    funext ρ₂
    rw [pure_bind]
    exact h.term S b.label ρ₂ hb.operands hb.dst

/-- **A function with renamed operands** does what it did. -/
theorem exec_mapOperands {F : Func Fn Op} (hF : ∀ b ∈ F.blocks, b.Wf F.nextReg F.nextLabel)
    (h : Renames θ args args' g F.nextReg) (ρ : ℕ → ℕ) :
    (F.mapOperands θ).exec S args' (g ρ) = F.exec S args ρ >>= fun r => pure ⟨r.val, g r.regs⟩ := by
  have hall : List.Forall₂ (Follows S S args args' g id fun r => pure ⟨r.val, g r.regs⟩) F.blocks
      (F.mapOperands θ).blocks := by
    apply List.forall₂_map_right_iff.mpr
    apply List.forall₂_same.mpr
    intro b hb
    exact h.block S (hF b hb)
  have he := exec_forall₂ hall ρ
  simpa only [id, bind_pure] using he

end Renames

@[simp] theorem Term.targets_mapOperands (θ : Operand → Operand) (t : Term Fn) :
    (t.mapOperands θ).targets = t.targets := by
  cases t <;> rfl

theorem Func.EntryWf.mapOperands {F : Func Fn Op} (hF : F.EntryWf) (θ : Operand → Operand) :
    (F.mapOperands θ).EntryWf := by
  unfold Func.EntryWf at hF ⊢
  unfold Func.mapOperands
  rcases hbs : F.blocks with _ | ⟨b, bs⟩
  · rw [hbs] at hF
    exact hF
  · rw [hbs] at hF
    obtain ⟨hφ, hback⟩ := hF
    refine ⟨by simp [BasicBlock.mapOperands, hφ], fun b' hb' => ?_⟩
    obtain ⟨b₁, hb₁, rfl⟩ := List.mem_map.mp hb'
    show b.label ∉ (b₁.term.mapOperands θ).targets
    rw [Term.targets_mapOperands]
    exact hback b₁ hb₁

/-- The operand `v` for the argument `a`. -/
def replaceArg (a : ℕ) (v : Operand) (o : Operand) : Operand := if o = .arg a then v else o

theorem replaceArg_of_ne {a : ℕ} {o : Operand} (v : Operand) (h : o ≠ .arg a) : replaceArg a v o = o := if_neg h

theorem map_replaceArg {a : ℕ} (v : Operand) {as : List Operand} (h : .arg a ∉ as) :
    as.map (replaceArg a v) = as := by
  conv_rhs => rw [← List.map_id as]
  apply List.map_congr_left
  intro o ho
  exact replaceArg_of_ne v fun he : o = .arg a => h (he ▸ ho)

theorem Instr.mapOperands_replaceArg {a : ℕ} (v : Operand) {i : Instr Fn Op} (h : .arg a ∉ i.operands) :
    i.mapOperands (replaceArg a v) = i := by
  have hone : ∀ o : Operand, .arg a ∉ [o] → replaceArg a v o = o := fun o ho =>
    replaceArg_of_ne v fun he : o = .arg a => ho (he ▸ List.mem_singleton_self o)
  cases i with
  | op dst o as =>
    show Instr.op dst o (as.map (replaceArg a v)) = _
    rw [show as.map (replaceArg a v) = as from map_replaceArg v h]
  | cast dst o =>
    show Instr.cast dst (replaceArg a v o) = _
    rw [hone o h]
  | isNull dst o =>
    show Instr.isNull dst (replaceArg a v o) = _
    rw [hone o h]
  | call dst f as =>
    have hf : f.mapOperands (replaceArg a v) = f := by
      cases f with
      | direct f => rfl
      | indirect p =>
        show Callee.indirect (replaceArg a v p) = _
        rw [hone p fun hp => h (List.mem_append_left _ hp)]
    show Instr.call dst (f.mapOperands (replaceArg a v)) (as.map (replaceArg a v)) = _
    rw [map_replaceArg v fun ha => h (List.mem_append_right _ ha), hf]

/-- The registers below `n` from `ρ`, the others from `ρ₀`. -/
def patch (n : ℕ) (ρ₀ ρ : ℕ → ℕ) (r : ℕ) : ℕ := if r < n then ρ r else ρ₀ r

theorem patch_self (n : ℕ) (ρ : ℕ → ℕ) : patch n ρ ρ = ρ := by
  funext r
  simp [patch]

theorem patch_of_le {n r : ℕ} (ρ₀ ρ : ℕ → ℕ) (h : n ≤ r) : patch n ρ₀ ρ r = ρ₀ r :=
  if_neg (by omega)

theorem renames_id {n : ℕ} (args ρ₀ : ℕ → ℕ) : Renames id args args (patch n ρ₀) n where
  eval {o} ρ ho := by
    cases o with
    | reg r => exact if_pos ho
    | _ => rfl
  update {r} ρ v hr := by
    funext r'
    by_cases h : r' = r
    · subst h
      simp [patch, hr]
    · simp [patch, Function.update_of_ne h]

theorem renames_replaceArg {n x : ℕ} (hx : n ≤ x) (a : ℕ) (args ρ₀ : ℕ → ℕ) :
    Renames (replaceArg a (.reg x)) (Function.update args a (ρ₀ x)) args (patch n ρ₀) n where
  eval {o} ρ ho := by
    unfold replaceArg
    split
    · rename_i he
      subst he
      show patch n ρ₀ ρ x = Function.update args a (ρ₀ x) a
      rw [Function.update_self, patch_of_le ρ₀ ρ hx]
    · rename_i he
      cases o with
      | arg i =>
        show args i = Function.update args a (ρ₀ x) i
        rw [Function.update_of_ne fun hi => he (congrArg Operand.arg hi)]
      | reg r => exact if_pos ho
      | const c => rfl
  update := (renames_id args ρ₀).update

/-- **All uses of an argument replaced**: the function runs as if it had been
called with the value of the register. -/
theorem exec_replaceArg (S : Sem Fn Op σ) {F : Func Fn Op} (hF : ∀ b ∈ F.blocks, b.Wf F.nextReg F.nextLabel)
    {x : ℕ} (hx : F.nextReg ≤ x) (a : ℕ) (args ρ : ℕ → ℕ) :
    (F.mapOperands (replaceArg a (.reg x))).exec S args ρ =
      F.exec S (Function.update args a (ρ x)) ρ >>= fun r => pure ⟨r.val, patch F.nextReg ρ r.regs⟩ := by
  have h := exec_mapOperands S hF (renames_replaceArg hx a args ρ) ρ
  rwa [patch_self] at h

theorem Func.mapOperands_id (F : Func Fn Op) : F.mapOperands id = F := by
  have hi : ∀ i : Instr Fn Op, i.mapOperands id = i := by
    rintro (_ | _ | _ | ⟨_, f, _⟩) <;> simp [Instr.mapOperands]
    cases f <;> rfl
  have ht : ∀ t : Term Fn, t.mapOperands id = t := by
    rintro (_ | _ | _ | _ | ⟨_, f, _⟩ | _ | _ | _) <;> simp [Term.mapOperands]
    cases f <;> rfl
  have hφ : ∀ φ : Phi, φ.mapOperands id = φ := fun φ => by simp [Phi.mapOperands]
  have hb : ∀ b : BasicBlock Fn Op, b.mapOperands id = b := fun b => by simp [BasicBlock.mapOperands, hi, ht, hφ]
  simp [Func.mapOperands, hb]

/-- **A function does not see other registers**, and leaves them as they were. -/
theorem exec_patch (S : Sem Fn Op σ) {F : Func Fn Op} (hF : ∀ b ∈ F.blocks, b.Wf F.nextReg F.nextLabel)
    (args ρ ρ₀ : ℕ → ℕ) : F.exec S args (patch F.nextReg ρ₀ ρ) =
      F.exec S args ρ >>= fun r => pure ⟨r.val, patch F.nextReg ρ₀ r.regs⟩ := by
  have h := exec_mapOperands S hF (renames_id args ρ₀) ρ
  rwa [Func.mapOperands_id] at h

/-- What comes after a function sees its value and the registers that are not
the function's. -/
theorem exec_bind {γ : Type} (S : Sem Fn Op σ) {F : Func Fn Op}
    (hF : ∀ b ∈ F.blocks, b.Wf F.nextReg F.nextLabel) (args : ℕ → ℕ) {ρ : ℕ → ℕ} (hρ : ∀ r < F.nextReg, ρ r = 0)
    {k : Left → Comp σ γ} {m : ℕ → Comp σ γ}
    (hk : ∀ v ρ', (∀ r, F.nextReg ≤ r → ρ' r = ρ r) → k ⟨v, ρ'⟩ = m v) :
    F.exec S args ρ >>= k = F.value S args >>= m := by
  have hzero : patch F.nextReg ρ (fun _ => 0) = ρ := by
    funext r
    unfold patch
    split
    · exact (hρ r ‹_›).symm
    · rfl
  have hstart := exec_patch S hF args (fun _ => 0) ρ
  rw [hzero] at hstart
  rw [hstart]
  unfold Func.value
  simp only [bind_assoc, pure_bind]
  congr 1
  funext r
  exact hk r.val _ fun r' hr' => patch_of_le _ _ hr'

/-- The same for a body whose argument was replaced: it runs as with the value
of the register. -/
theorem exec_replaceArg_bind {γ : Type} (S : Sem Fn Op σ) {F : Func Fn Op}
    (hF : ∀ b ∈ F.blocks, b.Wf F.nextReg F.nextLabel) {x : ℕ} (hx : F.nextReg ≤ x) (a : ℕ) (args : ℕ → ℕ)
    {ρ : ℕ → ℕ} (hρ : ∀ r < F.nextReg, ρ r = 0) {k : Left → Comp σ γ} {m : ℕ → Comp σ γ}
    (hk : ∀ v ρ', (∀ r, F.nextReg ≤ r → ρ' r = ρ r) → k ⟨v, ρ'⟩ = m v) :
    (F.mapOperands (replaceArg a (.reg x))).exec S args ρ >>= k =
      F.value S (Function.update args a (ρ x)) >>= m := by
  rw [exec_replaceArg S hF hx, bind_assoc]
  simp only [pure_bind]
  apply exec_bind S hF _ hρ
  intro v ρ' _
  exact hk v _ fun r' hr' => patch_of_le _ _ hr'

/-! ### Instructions after instructions -/

theorem execInstrs_append (S : Sem Fn Op σ) (args : ℕ → ℕ) : ∀ (is js : List (Instr Fn Op)) (ρ : ℕ → ℕ),
    execInstrs S args (is ++ js) ρ = execInstrs S args is ρ >>= execInstrs S args js
  | [], js, ρ => by simp [execInstrs]
  | i :: is, js, ρ => by
    rw [List.cons_append]
    unfold execInstrs
    rw [bind_assoc]
    congr 1
    funext ρ₁
    exact execInstrs_append S args is js ρ₁

/-- After each instruction `i` the instructions `h i`. -/
def BasicBlock.insertAfter (h : Instr Fn Op → List (Instr Fn Op)) (b : BasicBlock Fn Op) : BasicBlock Fn Op :=
  { b with instrs := b.instrs.flatMap fun i => i :: h i }

def Func.insertAfter (h : Instr Fn Op → List (Instr Fn Op)) (F : Func Fn Op) : Func Fn Op :=
  { F with blocks := F.blocks.map (·.insertAfter h) }

section InsertAfter

variable {S S' : Sem Fn Op σ} {args : ℕ → ℕ} {h : Instr Fn Op → List (Instr Fn Op)}

theorem execInstrs_flatMap : ∀ {is : List (Instr Fn Op)} (ρ : ℕ → ℕ),
    (∀ i ∈ is, ∀ ρ, execInstrs S args (i :: h i) ρ = i.exec S' args ρ) →
      execInstrs S args (is.flatMap fun i => i :: h i) ρ = execInstrs S' args is ρ
  | [], ρ, _ => rfl
  | i :: is, ρ, hi => by
    rw [List.flatMap_cons, execInstrs_append, hi i List.mem_cons_self]
    show _ = i.exec S' args ρ >>= execInstrs S' args is
    congr 1
    funext ρ₁
    exact execInstrs_flatMap ρ₁ fun i h => hi i (List.mem_cons_of_mem _ h)

/-- **Instructions after instructions**: the function does what it did where
instructions do what they and those after them do. -/
theorem exec_insertAfter {F : Func Fn Op}
    (hi : ∀ b ∈ F.blocks, ∀ i ∈ b.instrs, ∀ ρ, execInstrs S args (i :: h i) ρ = i.exec S' args ρ)
    (ht : ∀ b ∈ F.blocks, ∀ ρ, b.term.exec S args b.label ρ = b.term.exec S' args b.label ρ) (ρ : ℕ → ℕ) :
    (F.insertAfter h).exec S args ρ = F.exec S' args ρ := by
  have hn : (Comp.next (Pos.map id) pure : Pos ⊕ Left → Comp σ (Pos ⊕ Left)) = pure := by
    funext r
    cases r <;> simp [Comp.next, Pos.map]
  have hall : List.Forall₂ (Follows S' S args args id id pure) F.blocks (F.insertAfter h).blocks := by
    apply List.forall₂_map_right_iff.mpr
    apply List.forall₂_same.mpr
    intro b hb
    refine ⟨rfl, fun prev ρ => ?_⟩
    simp only [hn, Sum.map_id_id, id, bind_pure]
    unfold BasicBlock.exec
    dsimp only [id, BasicBlock.insertAfter]
    cases execPhis args prev ρ b.phis with
    | none => rfl
    | some ρ₁ =>
      dsimp only
      rw [execInstrs_flatMap ρ₁ (hi b hb)]
      congr 1
      funext ρ₂
      exact ht b hb ρ₂
  have he := exec_forall₂ hall ρ
  simpa only [id, bind_pure] using he

end InsertAfter

/-! ### Instructions before the returns -/

section BeforeRet

variable {γ : Type} {S : Sem Fn Op σ} {args : ℕ → ℕ} {view : Left → γ} {post : Left → Comp σ γ}

theorem follows_of_no_ret {b : BasicBlock Fn Op} (hb : ∀ v, b.term ≠ .ret v) :
    Follows S S args args id view post b b := by
  refine ⟨rfl, fun prev ρ => ?_⟩
  unfold BasicBlock.exec
  dsimp only [id]
  cases execPhis args prev ρ b.phis with
  | none => simp only [Comp.stuck_bind]
  | some ρ₁ =>
    dsimp only
    rw [bind_assoc, bind_assoc]
    congr 1
    funext ρ₂
    apply Comp.bind_congr_of_gives (Term.exec_gives_inl S args b.label ρ₂ hb)
    rintro r ⟨p, rfl⟩
    rfl

theorem follows_insertBeforeRet {b : BasicBlock Fn Op} {v v' : Operand} {is : List (Instr Fn Op)}
    (hb : b.term = .ret (some v))
    (h : ∀ ρ, (execInstrs S args is ρ >>= fun ρ' => pure (view ⟨v'.eval args ρ', ρ'⟩)) =
      post ⟨v.eval args ρ, ρ⟩) :
    Follows S S args args id view post b { b with instrs := b.instrs ++ is, term := .ret (some v') } := by
  refine ⟨rfl, fun prev ρ => ?_⟩
  unfold BasicBlock.exec
  dsimp only [id]
  cases execPhis args prev ρ b.phis with
  | none => simp only [Comp.stuck_bind]
  | some ρ₁ =>
    dsimp only
    rw [execInstrs_append, hb, bind_assoc, bind_assoc, bind_assoc]
    congr 1
    funext ρ₂
    have hret : ∀ ρ' : ℕ → ℕ, (Term.exec S args b.label ρ' (.ret (some v')) >>= fun r =>
        pure (r.map id view)) = pure (Sum.inr (view ⟨v'.eval args ρ', ρ'⟩)) := fun ρ' => by
      show (pure (Sum.inr ⟨v'.eval args ρ', ρ'⟩) : Comp σ (Pos ⊕ Left)) >>= _ = _
      rw [pure_bind]
      rfl
    calc (execInstrs S args is ρ₂ >>= fun ρ' => Term.exec S args b.label ρ' (.ret (some v')) >>= fun r =>
          pure (r.map id view))
        = execInstrs S args is ρ₂ >>= fun ρ' => pure (Sum.inr (view ⟨v'.eval args ρ', ρ'⟩)) := by
          simp only [hret]
      _ = post ⟨v.eval args ρ₂, ρ₂⟩ >>= fun c => pure (Sum.inr c) := by
          rw [← h ρ₂, bind_assoc]
          simp only [pure_bind]
      _ = Term.exec S args b.label ρ₂ (.ret (some v)) >>= Comp.next (Pos.map id) post := by
          show _ = (pure (Sum.inr ⟨v.eval args ρ₂, ρ₂⟩) : Comp σ (Pos ⊕ Left)) >>= _
          rw [pure_bind]
          rfl

end BeforeRet

/-! ### The entry -/

/-- Instructions before the first one of the entry. -/
def Func.insertEntry (is : List (Instr Fn Op)) (F : Func Fn Op) : Func Fn Op :=
  { F with
    blocks := match F.blocks with
      | [] => []
      | b :: bs => { b with instrs := is ++ b.instrs } :: bs }

/-- New blocks before the entry. -/
def Func.prepend (new : List (BasicBlock Fn Op)) (F : Func Fn Op) : Func Fn Op := { F with blocks := new ++ F.blocks }

section Entry

variable (S : Sem Fn Op σ) (args : ℕ → ℕ)

theorem Func.execFrom_eq (F : Func Fn Op) (p : Pos) :
    F.execFrom S args p = F.step S args p >>= fun r => r.elim (F.execFrom S args) pure :=
  Comp.loop_eq _ p

/-- **Instructions at the entry** are run first, and once. -/
theorem exec_insertEntry {F : Func Fn Op} (hF : F.EntryWf) (is : List (Instr Fn Op)) (ρ : ℕ → ℕ) :
    (F.insertEntry is).exec S args ρ = execInstrs S args is ρ >>= F.exec S args := by
  unfold Func.EntryWf at hF
  rcases hbs : F.blocks with _ | ⟨b, bs⟩
  · rw [hbs] at hF
    exact hF.elim
  rw [hbs] at hF
  obtain ⟨hφ, hback⟩ := hF
  -- away from the entry the two functions are the same
  have hstep : ∀ p : Pos, p.label ≠ b.label → (F.insertEntry is).step S args p = F.step S args p := by
    intro p hp
    unfold Func.step Func.block Func.insertEntry
    rw [hbs]
    rw [List.find?_cons_of_neg (by simpa using fun h => hp h.symm),
      List.find?_cons_of_neg (by simpa using fun h => hp h.symm)]
  have hrest : ∀ p : Pos, p.label ≠ b.label → (F.insertEntry is).execFrom S args p = F.execFrom S args p := by
    intro p hp
    apply Comp.loop_congr (P := fun p : Pos => p.label ≠ b.label) _ hstep hp
    intro p _ s r s' h p₁ hr he
    obtain ⟨b', hb', hl⟩ := F.step_gives S args p s r s' h p₁ hr
    exact hback b' (hbs ▸ hb') (he ▸ hl)
  have hfirst : ∀ ρ, F.step S args ⟨none, b.label, ρ⟩ =
      execInstrs S args b.instrs ρ >>= fun ρ => b.term.exec S args b.label ρ := by
    intro ρ
    unfold Func.step Func.block
    rw [hbs, List.find?_cons_of_pos (by simp)]
    show b.exec S args none ρ = _
    unfold BasicBlock.exec
    rw [hφ]
    rfl
  have hfirst' : (F.insertEntry is).step S args ⟨none, b.label, ρ⟩ =
      execInstrs S args is ρ >>= fun ρ => F.step S args ⟨none, b.label, ρ⟩ := by
    simp only [hfirst]
    rw [← bind_assoc]
    show _ = (execInstrs S args is ρ >>= execInstrs S args b.instrs) >>= _
    rw [← execInstrs_append]
    unfold Func.step Func.block Func.insertEntry
    rw [hbs]
    dsimp only
    rw [List.find?_cons_of_pos (by simp)]
    unfold BasicBlock.exec
    dsimp only
    rw [hφ]
    rfl
  have hexec : ∀ ρ, F.exec S args ρ = F.execFrom S args ⟨none, b.label, ρ⟩ := by
    intro ρ
    unfold Func.exec
    rw [hbs]
  calc (F.insertEntry is).exec S args ρ
      = (F.insertEntry is).execFrom S args ⟨none, b.label, ρ⟩ := by
        unfold Func.exec Func.insertEntry
        rw [hbs]
    _ = (F.insertEntry is).step S args ⟨none, b.label, ρ⟩ >>= fun r =>
          r.elim ((F.insertEntry is).execFrom S args) pure := Func.execFrom_eq S args _ _
    _ = (F.insertEntry is).step S args ⟨none, b.label, ρ⟩ >>= fun r => r.elim (F.execFrom S args) pure := by
        apply Comp.bind_congr_of_gives ((F.insertEntry is).step_gives S args _)
        intro r hr
        cases r with
        | inr a => rfl
        | inl p =>
          obtain ⟨b', hb', hl⟩ := hr p rfl
          refine hrest p fun he => ?_
          unfold Func.insertEntry at hb'
          rw [hbs] at hb'
          rcases List.mem_cons.mp hb' with rfl | hb'
          · exact hback b List.mem_cons_self (he ▸ hl)
          · exact hback b' (List.mem_cons_of_mem _ hb') (he ▸ hl)
    _ = execInstrs S args is ρ >>= F.exec S args := by
        rw [hfirst', bind_assoc]
        congr 1
        funext ρ₁
        rw [hexec, Func.execFrom_eq]

/-- New blocks before the entry are out of reach of the function's own. -/
theorem execFrom_prepend {F : Func Fn Op} {m : ℕ} (hF : ∀ b ∈ F.blocks, ∀ l ∈ b.term.targets, l < m)
    {new : List (BasicBlock Fn Op)} (hnew : ∀ b ∈ new, m ≤ b.label) {p : Pos} (hp : p.label < m) :
    (F.prepend new).execFrom S args p = F.execFrom S args p := by
  apply Comp.loop_congr (P := fun p : Pos => p.label < m) _ _ hp
  · intro p _ s r s' h p₁ hr
    obtain ⟨b, hb, hl⟩ := F.step_gives S args p s r s' h p₁ hr
    exact hF b hb _ hl
  · intro p hp
    have hnone : new.find? (fun b => decide (b.label = p.label)) = none := by
      apply List.find?_eq_none.mpr
      intro b hb
      have := hnew b hb
      simp
      omega
    unfold Func.step Func.block Func.prepend
    dsimp only
    rw [List.find?_append, hnone, Option.none_or]

theorem exec_prepend (F : Func Fn Op) (e : BasicBlock Fn Op) (new : List (BasicBlock Fn Op)) (ρ : ℕ → ℕ) :
    (F.prepend (e :: new)).exec S args ρ =
      e.exec S args none ρ >>= fun r => r.elim ((F.prepend (e :: new)).execFrom S args) pure := by
  have hstep : (F.prepend (e :: new)).step S args ⟨none, e.label, ρ⟩ = e.exec S args none ρ := by
    unfold Func.step Func.block Func.prepend
    dsimp only
    rw [List.cons_append, List.find?_cons_of_pos (by simp)]
  calc (F.prepend (e :: new)).exec S args ρ
      = (F.prepend (e :: new)).execFrom S args ⟨none, e.label, ρ⟩ := rfl
    _ = _ := by rw [Func.execFrom_eq, hstep]

/-- The entry has no phis, so it does not matter where control comes from. -/
theorem execFrom_entry {F : Func Fn Op} (hF : F.EntryWf) {b : BasicBlock Fn Op} {bs : List (BasicBlock Fn Op)}
    (hbs : F.blocks = b :: bs) (prev : Option ℕ) (ρ : ℕ → ℕ) :
    F.execFrom S args ⟨prev, b.label, ρ⟩ = F.exec S args ρ := by
  unfold Func.EntryWf at hF
  rw [hbs] at hF
  have hstep : F.step S args ⟨prev, b.label, ρ⟩ = F.step S args ⟨none, b.label, ρ⟩ := by
    unfold Func.step Func.block BasicBlock.exec
    rw [hbs, List.find?_cons_of_pos (by simp)]
    dsimp only
    rw [hF.1]
    rfl
  calc F.execFrom S args ⟨prev, b.label, ρ⟩
      = F.step S args ⟨none, b.label, ρ⟩ >>= fun r => r.elim (F.execFrom S args) pure := by
        rw [Func.execFrom_eq, hstep]
    _ = F.execFrom S args ⟨none, b.label, ρ⟩ := (Func.execFrom_eq S args F _).symm
    _ = F.exec S args ρ := by
        unfold Func.exec
        rw [hbs]

end Entry

end Ssa
end Lib
end Cmasan
