/-
# What a verifier checks

A function in SSA form defines each register once and reads it only where its
definition has been passed. The second is stated without dominators: `A l` are
registers that are there when control comes to the block `l`, by whatever way
it comes (`BasicBlock.Scoped`). The value of an invoke is there on the way to its
normal destination only; a phi reads what is there at the end of the block
that control comes from.

A pass keeps this if what it puts into the blocks reads what is there
(`ScopedBy.insertEntry`, `ScopedBy.extend`, `ScopedBy.mapOperands`,
`Verified.insertAfter`).

Key definitions: `Func.defs`, `InScope`, `BasicBlock.Scoped`, `Func.ScopedBy`,
`Func.Verified`, `ReadsAhead`.
Key theorems: `Func.ScopedBy.insertEntry`, `Func.ScopedBy.mapOperands`,
`Func.ScopedBy.extend`, `Func.ScopedBy.prepend`, `Func.Verified.not_readsAhead`.
-/
import Mathlib.Data.Set.Insert
import Cmasan.Lib.SsaPass

namespace Cmasan
namespace Lib
namespace Ssa

variable {Fn Op : Type}

/-! ### Definitions and reads -/

/-- The registers that instructions write. -/
def instrDefs (is : List (Instr Fn Op)) : List ℕ := is.filterMap (·.dst)

/-- The registers that a block writes. -/
def BasicBlock.defs (b : BasicBlock Fn Op) : List ℕ := b.phis.map (·.dst) ++ (instrDefs b.instrs ++ b.term.dst.toList)

/-- The registers that a function writes. -/
def Func.defs (F : Func Fn Op) : List ℕ := F.blocks.flatMap (·.defs)

/-- The operand is no register outside of the set. -/
def Operand.In (s : Set ℕ) : Operand → Prop
  | .reg r => r ∈ s
  | _ => True

/-- The instructions read registers of the set and what they wrote before. -/
def InScope : Set ℕ → List (Instr Fn Op) → Prop
  | _, [] => True
  | s, i :: is => (∀ o ∈ i.operands, o.In s) ∧ InScope (s ∪ {r | i.dst = some r}) is

/-- What the terminator writes on the way to the block `l`. -/
def Term.defines (l : ℕ) : Term Fn → Set ℕ
  | .invoke (some dst) _ _ normal unwind => {r | r = dst ∧ l = normal ∧ normal ≠ unwind}
  | _ => ∅

/-- The registers that are there after the phis, and at the end of the block. -/
def BasicBlock.scope (A : ℕ → Set ℕ) (b : BasicBlock Fn Op) : Set ℕ := A b.label ∪ {r | r ∈ b.phis.map (·.dst)}
def BasicBlock.scopeEnd (A : ℕ → Set ℕ) (b : BasicBlock Fn Op) : Set ℕ := b.scope A ∪ {r | r ∈ instrDefs b.instrs}

/-- The block reads what is there, and leaves what its targets read. -/
structure BasicBlock.Scoped (A : ℕ → Set ℕ) (F : Func Fn Op) (b : BasicBlock Fn Op) : Prop where
  instrs : InScope (b.scope A) b.instrs
  term : ∀ o ∈ b.term.operands, o.In (b.scopeEnd A)
  targets : ∀ l ∈ b.term.targets, A l ⊆ b.scopeEnd A ∪ b.term.defines l
  phis : ∀ b' ∈ F.blocks, b'.label ∈ b.term.targets → ∀ φ ∈ b'.phis,
    ∃ o, φ.incoming.lookup b.label = some o ∧ o.In (b.scopeEnd A ∪ b.term.defines b'.label)

/-- The blocks are scoped when the registers `X` are there at the entry. -/
structure Func.ScopedBy (A : ℕ → Set ℕ) (X : Set ℕ) (F : Func Fn Op) : Prop where
  entry : ∀ b ∈ F.blocks.head?, A b.label ⊆ X
  blocks : ∀ b ∈ F.blocks, b.Scoped A F

/-- The function is in SSA form, as a verifier checks it. -/
structure Func.Verified (F : Func Fn Op) : Prop extends F.Wf where
  terminated : ∀ b ∈ F.blocks, b.term ≠ .missing
  labels : (F.blocks.map (·.label)).Nodup
  defs : F.defs.Nodup
  reads : ∃ A, F.ScopedBy A ∅

/-! ### More registers -/

variable {s t : Set ℕ} {A : ℕ → Set ℕ} {X : Set ℕ}

theorem Operand.In.mono {o : Operand} (h : o.In s) (hst : s ⊆ t) : o.In t := by
  cases o with
  | reg r => exact hst h
  | _ => trivial

theorem InScope.mono : ∀ {is : List (Instr Fn Op)} {s t : Set ℕ}, InScope s is → s ⊆ t → InScope t is
  | [], _, _, _, _ => trivial
  | _ :: _, _, _, h, hst => ⟨fun o ho => (h.1 o ho).mono hst, h.2.mono (Set.union_subset_union_left _ hst)⟩

theorem instrDefs_append (is js : List (Instr Fn Op)) : instrDefs (is ++ js) = instrDefs is ++ instrDefs js :=
  List.filterMap_append

theorem InScope.append : ∀ {is js : List (Instr Fn Op)} {s : Set ℕ}, InScope s is →
    InScope (s ∪ {r | r ∈ instrDefs is}) js → InScope s (is ++ js)
  | [], js, s, _, hj => hj.mono (by simp [instrDefs])
  | i :: is, js, s, hi, hj => by
    refine ⟨hi.1, hi.2.append (hj.mono ?_)⟩
    intro r hr
    rcases hr with hr | hr
    · exact .inl (.inl hr)
    · obtain ⟨j, hj, hd⟩ := List.mem_filterMap.mp hr
      rcases List.mem_cons.mp hj with rfl | hj
      · exact .inl (.inr hd)
      · exact .inr (List.mem_filterMap.mpr ⟨j, hj, hd⟩)

theorem BasicBlock.scope_mono {A' : ℕ → Set ℕ} {b : BasicBlock Fn Op} (h : A b.label ⊆ A' b.label) :
    b.scope A ⊆ b.scope A' :=
  Set.union_subset_union_left _ h

theorem BasicBlock.scopeEnd_mono {A' : ℕ → Set ℕ} {b : BasicBlock Fn Op} (h : A b.label ⊆ A' b.label) :
    b.scopeEnd A ⊆ b.scopeEnd A' :=
  Set.union_subset_union_left _ (BasicBlock.scope_mono h)

/-! ### Operands renamed -/

section Map

variable {θ : Operand → Operand}

theorem Callee.operands_mapOperands (θ : Operand → Operand) (f : Callee Fn) :
    (f.mapOperands θ).operands = f.operands.map θ := by
  cases f <;> rfl

theorem Instr.operands_mapOperands (θ : Operand → Operand) (i : Instr Fn Op) :
    (i.mapOperands θ).operands = i.operands.map θ := by
  cases i with
  | call dst f as =>
    show (f.mapOperands θ).operands ++ as.map θ = _
    rw [Callee.operands_mapOperands]
    exact List.map_append.symm
  | _ => rfl

@[simp] theorem Instr.dst_mapOperands (θ : Operand → Operand) (i : Instr Fn Op) :
    (i.mapOperands θ).dst = i.dst := by
  cases i <;> rfl

theorem Term.operands_mapOperands (θ : Operand → Operand) (t : Term Fn) :
    (t.mapOperands θ).operands = t.operands.map θ := by
  cases t with
  | ret v => cases v <;> rfl
  | invoke dst f as normal unwind =>
    show (f.mapOperands θ).operands ++ as.map θ = _
    rw [Callee.operands_mapOperands]
    exact List.map_append.symm
  | _ => rfl

@[simp] theorem Term.dst_mapOperands (θ : Operand → Operand) (t : Term Fn) : (t.mapOperands θ).dst = t.dst := by
  cases t <;> rfl

theorem Term.defines_mapOperands (θ : Operand → Operand) (l : ℕ) (t : Term Fn) :
    (t.mapOperands θ).defines l = t.defines l := by
  cases t with
  | invoke dst f as normal unwind => cases dst <;> rfl
  | _ => rfl

theorem instrDefs_mapOperands (θ : Operand → Operand) (is : List (Instr Fn Op)) :
    instrDefs (is.map (·.mapOperands θ)) = instrDefs is := by
  unfold instrDefs
  rw [List.filterMap_map]
  congr 1
  funext i
  exact Instr.dst_mapOperands θ i

theorem BasicBlock.phiDefs_mapOperands (θ : Operand → Operand) (b : BasicBlock Fn Op) :
    (b.mapOperands θ).phis.map (·.dst) = b.phis.map (·.dst) := by
  show (b.phis.map (·.mapOperands θ)).map (·.dst) = _
  rw [List.map_map]
  rfl

theorem BasicBlock.scope_mapOperands (θ : Operand → Operand) (b : BasicBlock Fn Op) :
    (b.mapOperands θ).scope A = b.scope A := by
  unfold BasicBlock.scope
  rw [BasicBlock.phiDefs_mapOperands]
  rfl

theorem BasicBlock.scopeEnd_mapOperands (θ : Operand → Operand) (b : BasicBlock Fn Op) :
    (b.mapOperands θ).scopeEnd A = b.scopeEnd A := by
  unfold BasicBlock.scopeEnd
  rw [BasicBlock.scope_mapOperands]
  show _ ∪ {r | r ∈ instrDefs (b.instrs.map (·.mapOperands θ))} = _
  rw [instrDefs_mapOperands]

theorem BasicBlock.defs_mapOperands (θ : Operand → Operand) (b : BasicBlock Fn Op) :
    (b.mapOperands θ).defs = b.defs := by
  unfold BasicBlock.defs
  rw [BasicBlock.phiDefs_mapOperands]
  show _ ++ (instrDefs (b.instrs.map (·.mapOperands θ)) ++ (b.term.mapOperands θ).dst.toList) = _
  rw [instrDefs_mapOperands, Term.dst_mapOperands]

theorem Func.defs_mapOperands (θ : Operand → Operand) (F : Func Fn Op) : (F.mapOperands θ).defs = F.defs := by
  unfold Func.defs Func.mapOperands
  rw [List.flatMap_map]
  congr 1
  funext b
  exact BasicBlock.defs_mapOperands θ b

theorem InScope.mapOperands (hθ : ∀ {o : Operand} {s : Set ℕ}, X ⊆ s → o.In s → (θ o).In s) :
    ∀ {is : List (Instr Fn Op)} {s : Set ℕ}, X ⊆ s → InScope s is → InScope s (is.map (·.mapOperands θ))
  | [], _, _, _ => trivial
  | i :: is, s, hX, h => by
    refine ⟨fun o ho => ?_, ?_⟩
    · rw [Instr.operands_mapOperands] at ho
      obtain ⟨o', ho', rfl⟩ := List.mem_map.mp ho
      exact hθ hX (h.1 o' ho')
    · rw [Instr.dst_mapOperands]
      exact InScope.mapOperands hθ (hX.trans Set.subset_union_left) h.2

/-- **Operands renamed**, to registers that are there at the entry as well. -/
theorem Func.ScopedBy.mapOperands {F : Func Fn Op} {Y : Set ℕ} (h : F.ScopedBy A Y)
    (hθ : ∀ {o : Operand} {s : Set ℕ}, X ⊆ s → o.In s → (θ o).In s) :
    (F.mapOperands θ).ScopedBy (fun l => A l ∪ X) (Y ∪ X) := by
  have hscope : ∀ b : BasicBlock Fn Op, b.scope A ⊆ b.scope fun l => A l ∪ X :=
    fun b => BasicBlock.scope_mono Set.subset_union_left
  have hend : ∀ b : BasicBlock Fn Op, b.scopeEnd A ⊆ b.scopeEnd fun l => A l ∪ X :=
    fun b => BasicBlock.scopeEnd_mono Set.subset_union_left
  have hX : ∀ b : BasicBlock Fn Op, X ⊆ b.scope fun l => A l ∪ X :=
    fun b => Set.subset_union_right.trans Set.subset_union_left
  have hXend : ∀ b : BasicBlock Fn Op, X ⊆ b.scopeEnd fun l => A l ∪ X :=
    fun b => (hX b).trans Set.subset_union_left
  refine ⟨fun b hb => ?_, fun b hb => ?_⟩
  · unfold Func.mapOperands at hb
    rw [List.head?_map] at hb
    obtain ⟨b', hb', rfl⟩ := Option.map_eq_some_iff.mp (Option.mem_def.mp hb)
    exact Set.union_subset_union_left _ (h.entry b' hb')
  · obtain ⟨b, hmem, rfl⟩ := List.mem_map.mp hb
    have hs := h.blocks b hmem
    refine ⟨?_, ?_, ?_, ?_⟩
    · rw [BasicBlock.scope_mapOperands]
      exact InScope.mapOperands hθ (hX b) (hs.instrs.mono (hscope b))
    · intro o ho
      change o ∈ (b.term.mapOperands θ).operands at ho
      rw [Term.operands_mapOperands] at ho
      obtain ⟨o', ho', rfl⟩ := List.mem_map.mp ho
      rw [BasicBlock.scopeEnd_mapOperands]
      exact hθ (hXend b) ((hs.term o' ho').mono (hend b))
    · intro l hl
      change l ∈ (b.term.mapOperands θ).targets at hl
      rw [Term.targets_mapOperands] at hl
      rw [BasicBlock.scopeEnd_mapOperands]
      show _ ⊆ _ ∪ (b.term.mapOperands θ).defines l
      rw [Term.defines_mapOperands]
      exact Set.union_subset ((hs.targets l hl).trans (Set.union_subset_union_left _ (hend b)))
        ((hXend b).trans Set.subset_union_left)
    · intro b' hb' hl φ hφ
      obtain ⟨b₁, hb₁, rfl⟩ := List.mem_map.mp hb'
      obtain ⟨φ₁, hφ₁, rfl⟩ := List.mem_map.mp hφ
      change b₁.label ∈ (b.term.mapOperands θ).targets at hl
      rw [Term.targets_mapOperands] at hl
      obtain ⟨o, ho, hin⟩ := hs.phis b₁ hb₁ hl φ₁ hφ₁
      refine ⟨θ o, ?_, ?_⟩
      · show (φ₁.incoming.map fun x => (x.1, θ x.2)).lookup b.label = _
        rw [lookup_map_snd, ho]
        rfl
      · rw [BasicBlock.scopeEnd_mapOperands]
        show (θ o).In (_ ∪ (b.term.mapOperands θ).defines b₁.label)
        rw [Term.defines_mapOperands]
        exact hθ ((hXend b).trans Set.subset_union_left) (hin.mono (Set.union_subset_union_left _ (hend b)))

end Map

theorem Func.ScopedBy.mono {F : Func Fn Op} {Y : Set ℕ} (h : F.ScopedBy A Y) (X : Set ℕ) :
    F.ScopedBy (fun l => A l ∪ X) (Y ∪ X) := by
  have hm := h.mapOperands (X := X) (θ := id) fun _ ho => ho
  rwa [Func.mapOperands_id] at hm

/-! ### The entry and the returns -/

/-- **Instructions at the entry**: what they write is there in every block. -/
theorem Func.ScopedBy.insertEntry {F : Func Fn Op} {is : List (Instr Fn Op)} (hentry : F.EntryWf)
    (hlabels : (F.blocks.map (·.label)).Nodup) (h : F.ScopedBy A {r | r ∈ instrDefs is})
    (hA : ∀ l, {r | r ∈ instrDefs is} ⊆ A l) (his : InScope ∅ is) :
    ∃ A', (F.insertEntry is).ScopedBy A' ∅ ∧
      ∀ b ∈ (F.insertEntry is).blocks, {r | r ∈ instrDefs is} ⊆ b.scopeEnd A' := by
  unfold Func.EntryWf at hentry
  rcases hbs : F.blocks with _ | ⟨b₀, bs⟩
  · rw [hbs] at hentry
    exact hentry.elim
  rw [hbs, List.map_cons, List.nodup_cons] at hlabels
  rw [hbs] at hentry
  obtain ⟨hφ, hback⟩ := hentry
  have hblocks : (F.insertEntry is).blocks = { b₀ with instrs := is ++ b₀.instrs } :: bs := by
    unfold Func.insertEntry
    rw [hbs]
  have hs₀ := h.blocks b₀ (hbs ▸ List.mem_cons_self)
  have hX : A b₀.label ⊆ {r | r ∈ instrDefs is} := h.entry b₀ (by rw [hbs]; rfl)
  obtain ⟨A', hA₀, hA₁⟩ : ∃ A' : ℕ → Set ℕ, A' b₀.label = ∅ ∧ ∀ l, l ≠ b₀.label → A' l = A l :=
    ⟨Function.update A b₀.label ∅, Function.update_self .., fun l hl => Function.update_of_ne hl _ _⟩
  have hne : ∀ b ∈ bs, b.label ≠ b₀.label := fun b hb he => hlabels.1 (List.mem_map.mpr ⟨b, hb, he⟩)
  -- the entry has its own instructions after the new ones
  have hend : b₀.scopeEnd A ⊆ BasicBlock.scopeEnd A' { b₀ with instrs := is ++ b₀.instrs } := by
    intro r hr
    show r ∈ _ ∪ {r | r ∈ instrDefs (is ++ b₀.instrs)}
    rw [instrDefs_append]
    rcases hr with (hr | hr) | hr
    · exact .inr (List.mem_append_left _ (hX hr))
    · rw [hφ] at hr
      cases hr
    · exact .inr (List.mem_append_right _ hr)
  have hold : ∀ b ∈ bs, b.scope A' = b.scope A := fun b hb => by
    unfold BasicBlock.scope
    rw [hA₁ _ (hne b hb)]
  have holdEnd : ∀ b ∈ bs, b.scopeEnd A' = b.scopeEnd A := fun b hb => by
    unfold BasicBlock.scopeEnd
    rw [hold b hb]
  have hphis : ∀ b' ∈ (F.insertEntry is).blocks, ∀ φ ∈ b'.phis, b' ∈ bs := by
    intro b' hb' φ hmem
    rw [hblocks] at hb'
    rcases List.mem_cons.mp hb' with rfl | hb'
    · change φ ∈ b₀.phis at hmem
      rw [hφ] at hmem
      cases hmem
    · exact hb'
  refine ⟨A', ⟨fun b hb => ?_, fun b hb => ?_⟩, fun b hb => ?_⟩
  · rw [hblocks] at hb
    cases hb
    exact hA₀.le
  · rw [hblocks] at hb
    rcases List.mem_cons.mp hb with rfl | hb
    · refine ⟨InScope.append (his.mono (Set.empty_subset _)) (hs₀.instrs.mono fun r hr => ?_), fun o ho =>
        (hs₀.term o ho).mono hend, fun l hl => ?_, fun b' hb' hl φ hmem => ?_⟩
      · rcases hr with hr | hr
        · exact .inr (hX hr)
        · rw [hφ] at hr
          cases hr
      · rw [hA₁ l fun he => hback b₀ List.mem_cons_self (he ▸ hl)]
        exact (hs₀.targets l hl).trans (Set.union_subset_union_left _ hend)
      · obtain ⟨o, ho, hin⟩ := hs₀.phis b' (hbs ▸ List.mem_cons_of_mem _ (hphis b' hb' φ hmem)) hl φ hmem
        exact ⟨o, ho, hin.mono (Set.union_subset_union_left _ hend)⟩
    · have hs := h.blocks b (hbs ▸ List.mem_cons_of_mem _ hb)
      refine ⟨by rw [hold b hb]; exact hs.instrs, by rw [holdEnd b hb]; exact hs.term, fun l hl => ?_,
        fun b' hb' hl φ hmem => ?_⟩
      · rw [hA₁ l fun he => hback b (List.mem_cons_of_mem _ hb) (he ▸ hl), holdEnd b hb]
        exact hs.targets l hl
      · rw [holdEnd b hb]
        exact hs.phis b' (hbs ▸ List.mem_cons_of_mem _ (hphis b' hb' φ hmem)) hl φ hmem
  · rw [hblocks] at hb
    rcases List.mem_cons.mp hb with rfl | hb
    · intro r hr
      refine .inr ?_
      show r ∈ instrDefs (is ++ b₀.instrs)
      rw [instrDefs_append]
      exact List.mem_append_left _ hr
    · rw [holdEnd b hb]
      exact (hA _).trans (Set.subset_union_left.trans Set.subset_union_left)

/-- The block with some more instructions at its end, and the terminator that
reads what is there then. -/
structure BasicBlock.Extends (A : ℕ → Set ℕ) (b b' : BasicBlock Fn Op) : Prop where
  label : b'.label = b.label
  phis : b'.phis = b.phis
  instrs : ∃ is, b'.instrs = b.instrs ++ is ∧ InScope (b.scopeEnd A) is
  targets : b'.term.targets = b.term.targets
  defines : ∀ l, b'.term.defines l = b.term.defines l
  operands : ∀ o ∈ b'.term.operands, o.In (b'.scopeEnd A)
  terminated : b.term ≠ .missing → b'.term ≠ .missing

theorem BasicBlock.Extends.scope {b b' : BasicBlock Fn Op} (h : b.Extends A b') : b'.scope A = b.scope A := by
  unfold BasicBlock.scope
  rw [h.label, h.phis]

theorem BasicBlock.Extends.scopeEnd {b b' : BasicBlock Fn Op} (h : b.Extends A b') : b.scopeEnd A ⊆ b'.scopeEnd A := by
  obtain ⟨is, he, -⟩ := h.instrs
  unfold BasicBlock.scopeEnd
  rw [h.scope, he, instrDefs_append]
  intro r hr
  rcases hr with hr | hr
  · exact .inl hr
  · exact .inr (List.mem_append_left _ hr)

theorem mem_forall₂ {bs bs' : List (BasicBlock Fn Op)} (h : List.Forall₂ (BasicBlock.Extends A) bs bs') :
    ∀ b' ∈ bs', ∃ b ∈ bs, b.Extends A b' := by
  induction h with
  | nil => exact fun b' hb' => absurd hb' List.not_mem_nil
  | @cons b b₁ bs bs' hb _ ih =>
    intro b' hb'
    rcases List.mem_cons.mp hb' with rfl | hb'
    · exact ⟨b, List.mem_cons_self, hb⟩
    · obtain ⟨b₂, hb₂, he⟩ := ih b' hb'
      exact ⟨b₂, List.mem_cons_of_mem _ hb₂, he⟩

/-- **Instructions at the end of the blocks.** -/
theorem Func.ScopedBy.extend {F F' : Func Fn Op} (h : F.ScopedBy A X)
    (hall : List.Forall₂ (BasicBlock.Extends A) F.blocks F'.blocks) : F'.ScopedBy A X := by
  have hof := mem_forall₂ hall
  refine ⟨fun b' hb' => ?_, fun b' hb' => ?_⟩
  · generalize hbs : F.blocks = bs at hall
    generalize F'.blocks = bs' at hall hb'
    cases hall with
    | nil => cases hb'
    | @cons b b'' bs bs' hb _ =>
      cases hb'
      rw [hb.label]
      exact h.entry b (by rw [hbs]; rfl)
  · obtain ⟨b, hb, he⟩ := hof b' hb'
    have hs := h.blocks b hb
    refine ⟨?_, he.operands, fun l hl => ?_, fun b₂ hb₂ hl φ hφ => ?_⟩
    · obtain ⟨is, hi, hin⟩ := he.instrs
      rw [he.scope, hi]
      exact hs.instrs.append hin
    · rw [he.targets] at hl
      rw [he.defines]
      exact (hs.targets l hl).trans (Set.union_subset_union_left _ he.scopeEnd)
    · obtain ⟨b₃, hb₃, he₃⟩ := hof b₂ hb₂
      rw [he.targets, he₃.label] at hl
      rw [he₃.phis] at hφ
      obtain ⟨o, ho, hin⟩ := hs.phis b₃ hb₃ hl φ hφ
      rw [he.label, he.defines, he₃.label]
      exact ⟨o, ho, hin.mono (Set.union_subset_union_left _ he.scopeEnd)⟩

/-- **New blocks before the entry**; they have the labels from `m` on. -/
theorem Func.ScopedBy.prepend {F : Func Fn Op} {A' : ℕ → Set ℕ} {m : ℕ} {e : BasicBlock Fn Op}
    {new : List (BasicBlock Fn Op)} (h : F.ScopedBy A X)
    (hF : ∀ b ∈ F.blocks, b.label < m ∧ ∀ l ∈ b.term.targets, l < m) (hA : ∀ l < m, A' l = A l)
    (hentry : A' e.label = ∅) (hnew : ∀ b ∈ e :: new, m ≤ b.label ∧ b.Scoped A' (F.prepend (e :: new))) :
    (F.prepend (e :: new)).ScopedBy A' ∅ := by
  have hscope : ∀ b ∈ F.blocks, b.scope A' = b.scope A := fun b hb => by
    unfold BasicBlock.scope
    rw [hA _ (hF b hb).1]
  have hend : ∀ b ∈ F.blocks, b.scopeEnd A' = b.scopeEnd A := fun b hb => by
    unfold BasicBlock.scopeEnd
    rw [hscope b hb]
  refine ⟨fun b hb => ?_, fun b hb => ?_⟩
  · cases hb
    exact hentry.le
  · rcases List.mem_append.mp hb with hb | hb
    · exact (hnew b hb).2
    · have hs := h.blocks b hb
      refine ⟨by rw [hscope b hb]; exact hs.instrs, by rw [hend b hb]; exact hs.term, fun l hl => ?_,
        fun b' hb' hl φ hφ => ?_⟩
      · rw [hend b hb, hA l ((hF b hb).2 l hl)]
        exact hs.targets l hl
      · rw [hend b hb]
        rcases List.mem_append.mp hb' with hb' | hb'
        · have := (hnew b' hb').1
          have := (hF b hb).2 _ hl
          omega
        · exact hs.phis b' hb' hl φ hφ

/-! ### Bounds -/

theorem Operand.Below.mono {o : Operand} {n n' : ℕ} (h : o.Below n) (hn : n ≤ n') : o.Below n' := by
  cases o with
  | reg r => exact Nat.lt_of_lt_of_le h hn
  | _ => trivial

theorem Instr.Wf.mono {i : Instr Fn Op} {n n' : ℕ} (h : i.Wf n) (hn : n ≤ n') : i.Wf n' :=
  ⟨fun o ho => (h.operands o ho).mono hn, fun r hr => Nat.lt_of_lt_of_le (h.dst r hr) hn, h.fresh⟩

theorem BasicBlock.Wf.mono {b : BasicBlock Fn Op} {n n' m m' : ℕ} (h : b.Wf n m) (hn : n ≤ n')
    (hm : m ≤ m') : b.Wf n' m' where
  label := Nat.lt_of_lt_of_le h.label hm
  phis φ hφ := ⟨Nat.lt_of_lt_of_le (h.phis φ hφ).1 hn, fun x hx => ((h.phis φ hφ).2 x hx).mono hn⟩
  instrs i hi := (h.instrs i hi).mono hn
  operands o ho := (h.operands o ho).mono hn
  dst r hr := Nat.lt_of_lt_of_le (h.dst r hr) hn
  targets l hl := Nat.lt_of_lt_of_le (h.targets l hl) hm

/-- A new register in the place of an argument. -/
theorem BasicBlock.Wf.replaceArg {b : BasicBlock Fn Op} {n n' m x : ℕ} (h : b.Wf n m) (hx : n ≤ x)
    (hn : x < n') (a : ℕ) :
    (b.mapOperands (replaceArg a (.reg x))).Wf n' m := by
  have hbelow : ∀ {o : Operand}, o.Below n → (Ssa.replaceArg a (.reg x) o).Below n' := by
    intro o ho
    unfold Ssa.replaceArg
    split
    · exact hn
    · exact ho.mono (by omega)
  refine ⟨h.label, fun φ hφ => ?_, fun i hi => ?_, fun o ho => ?_, fun r hr => ?_, fun l hl => ?_⟩
  · obtain ⟨φ, hφ₁, rfl⟩ := List.mem_map.mp hφ
    refine ⟨by have := (h.phis φ hφ₁).1; show φ.dst < n'; omega, fun y hy => ?_⟩
    obtain ⟨y, hy₁, rfl⟩ := List.mem_map.mp hy
    exact hbelow ((h.phis φ hφ₁).2 y hy₁)
  · obtain ⟨i, hi₁, rfl⟩ := List.mem_map.mp hi
    have hw := h.instrs i hi₁
    refine ⟨fun o ho => ?_, fun r hr => ?_, fun r hr hmem => ?_⟩
    · rw [Instr.operands_mapOperands] at ho
      obtain ⟨o, ho₁, rfl⟩ := List.mem_map.mp ho
      exact hbelow (hw.operands o ho₁)
    · rw [Instr.dst_mapOperands] at hr
      have := hw.dst r hr
      omega
    · rw [Instr.dst_mapOperands] at hr
      rw [Instr.operands_mapOperands] at hmem
      obtain ⟨o, ho₁, he⟩ := List.mem_map.mp hmem
      unfold Ssa.replaceArg at he
      split at he
      · have := hw.dst r hr
        have := Operand.reg.inj he
        omega
      · exact hw.fresh r hr (he ▸ ho₁)
  · change o ∈ (b.term.mapOperands _).operands at ho
    rw [Term.operands_mapOperands] at ho
    obtain ⟨o, ho₁, rfl⟩ := List.mem_map.mp ho
    exact hbelow (h.operands o ho₁)
  · change r ∈ (b.term.mapOperands _).dst at hr
    rw [Term.dst_mapOperands] at hr
    have := h.dst r hr
    omega
  · change l ∈ (b.term.mapOperands _).targets at hl
    rw [Term.targets_mapOperands] at hl
    exact h.targets l hl

/-- The registers that a block within the bounds writes. -/
theorem BasicBlock.Wf.defs {b : BasicBlock Fn Op} {n m r : ℕ} (h : b.Wf n m) (hr : r ∈ b.defs) : r < n := by
  unfold BasicBlock.defs at hr
  rcases List.mem_append.mp hr with hr | hr
  · obtain ⟨φ, hφ, rfl⟩ := List.mem_map.mp hr
    exact (h.phis φ hφ).1
  rcases List.mem_append.mp hr with hr | hr
  · obtain ⟨i, hi, hd⟩ := List.mem_filterMap.mp hr
    exact (h.instrs i hi).dst r hd
  · exact h.dst r (Option.mem_toList.mp hr)

theorem Func.Wf.defs {F : Func Fn Op} (h : F.Wf) {r : ℕ} (hr : r ∈ F.defs) : r < F.nextReg := by
  obtain ⟨b, hb, hd⟩ := List.mem_flatMap.mp hr
  exact (h.blocks b hb).defs hd

/-! ### Verified functions -/

/-- Instructions that may stand at the entry of a function: they read what
they wrote, and write registers from `n` to `m`. -/
structure EntryCode (n m : ℕ) (is : List (Instr Fn Op)) : Prop where
  le : n ≤ m
  wf : ∀ i ∈ is, i.Wf m
  reads : InScope ∅ is
  nodup : (instrDefs is).Nodup
  ge : ∀ r ∈ instrDefs is, n ≤ r

/-- The function is one that a verifier passes after the instructions `is`,
whose registers are below `n`. -/
structure Func.VerifiedAfter (is : List (Instr Fn Op)) (n : ℕ) (F : Func Fn Op) : Prop where
  blocks : ∀ b ∈ F.blocks, b.Wf n F.nextLabel
  entry : F.EntryWf
  terminated : ∀ b ∈ F.blocks, b.term ≠ .missing
  labels : (F.blocks.map (·.label)).Nodup
  defs : (instrDefs is ++ F.defs).Nodup
  reads : ∃ A, F.ScopedBy A {r | r ∈ instrDefs is} ∧ ∀ l, {r | r ∈ instrDefs is} ⊆ A l

section Verified

variable {F : Func Fn Op} {is : List (Instr Fn Op)} {n : ℕ}

theorem EntryCode.nodup_append (h : EntryCode F.nextReg n is) (hF : F.Verified) :
    (instrDefs is ++ F.defs).Nodup := by
  refine List.nodup_append.mpr ⟨h.nodup, hF.defs, fun r hr r' hr' => ?_⟩
  have := h.ge r hr
  have := hF.toWf.defs hr'
  omega

theorem Func.Verified.after (hF : F.Verified) (h : EntryCode F.nextReg n is) : F.VerifiedAfter is n := by
  obtain ⟨A, hA⟩ := hF.reads
  refine ⟨fun b hb => (hF.blocks b hb).mono h.le (Nat.le_refl _), hF.entry, hF.terminated, hF.labels,
    h.nodup_append hF, fun l => A l ∪ {r | r ∈ instrDefs is}, ?_, fun l => Set.subset_union_right⟩
  have hm := hA.mono {r | r ∈ instrDefs is}
  rwa [Set.empty_union] at hm

/-- An argument replaced by a register of the entry. -/
theorem Func.Verified.replaceArg (hF : F.Verified) (h : EntryCode F.nextReg n is) {x : ℕ}
    (hx : x ∈ instrDefs is) (a : ℕ) : (F.mapOperands (replaceArg a (.reg x))).VerifiedAfter is n := by
  obtain ⟨A, hA⟩ := hF.reads
  have hxn : x < n := by
    obtain ⟨i, hi, hd⟩ := List.mem_filterMap.mp hx
    exact (h.wf i hi).dst x hd
  have hlabels : (F.mapOperands (Ssa.replaceArg a (.reg x))).blocks.map (·.label) = F.blocks.map (·.label) := by
    show (F.blocks.map _).map _ = _
    rw [List.map_map]
    rfl
  refine ⟨fun b hb => ?_, hF.entry.mapOperands _, fun b hb => ?_, by rw [hlabels]; exact hF.labels, ?_,
    fun l => A l ∪ {r | r ∈ instrDefs is}, ?_, fun l => Set.subset_union_right⟩
  · obtain ⟨b, hmem, rfl⟩ := List.mem_map.mp hb
    exact (hF.blocks b hmem).replaceArg (h.ge x hx) hxn a
  · obtain ⟨b, hmem, rfl⟩ := List.mem_map.mp hb
    have := hF.terminated b hmem
    intro hm
    change b.term.mapOperands _ = _ at hm
    cases ht : b.term with
    | missing => exact this ht
    | _ =>
      rw [ht] at hm
      cases hm
  · rw [Func.defs_mapOperands]
    exact h.nodup_append hF
  · have hm := hA.mapOperands (X := {r | r ∈ instrDefs is}) (θ := Ssa.replaceArg a (.reg x)) fun hX ho => by
      unfold Ssa.replaceArg
      split
      · exact hX hx
      · exact ho
    rwa [Set.empty_union] at hm

theorem Func.blocks_insertEntry {b : BasicBlock Fn Op} {bs : List (BasicBlock Fn Op)} (is : List (Instr Fn Op))
    (h : F.blocks = b :: bs) :
    (F.insertEntry is).blocks = { b with instrs := is ++ b.instrs } :: bs := by
  unfold Func.insertEntry
  rw [h]

theorem Func.EntryWf.blocks_eq (h : F.EntryWf) : ∃ b bs, F.blocks = b :: bs ∧ b.phis = [] ∧
    ∀ b' ∈ F.blocks, b.label ∉ b'.term.targets := by
  unfold Func.EntryWf at h
  split at h
  · exact h.elim
  · exact ⟨_, _, ‹_›, h⟩

theorem Func.EntryWf.of_blocks {b : BasicBlock Fn Op} {bs : List (BasicBlock Fn Op)} (h : F.blocks = b :: bs)
    (hφ : b.phis = []) (hback : ∀ b' ∈ b :: bs, b.label ∉ b'.term.targets) : F.EntryWf := by
  unfold Func.EntryWf
  rw [h]
  exact ⟨hφ, hback⟩

/-- **Instructions at the entry** make a verified function of one that is
verified after them. -/
theorem Func.VerifiedAfter.insertEntry (hF : F.VerifiedAfter is n) {n₀ : ℕ} (h : EntryCode n₀ n is) :
    ({ F.insertEntry is with nextReg := n } : Func Fn Op).Verified ∧
      ∃ A, (F.insertEntry is).ScopedBy A ∅ ∧
        ∀ b ∈ (F.insertEntry is).blocks, {r | r ∈ instrDefs is} ⊆ b.scopeEnd A := by
  obtain ⟨A, hA, hX⟩ := hF.reads
  obtain ⟨A', hA', hX'⟩ := hA.insertEntry hF.entry hF.labels hX h.reads
  obtain ⟨b, bs, hbs, hφ, hback⟩ := hF.entry.blocks_eq
  have hblocks := Func.blocks_insertEntry is hbs
  refine ⟨⟨⟨fun b' hb' => ?_, ?_⟩, fun b' hb' => ?_, ?_, ?_, ⟨A', hA'.entry, fun b' hb' => ?_⟩⟩, A', hA', hX'⟩
  · change b' ∈ (F.insertEntry is).blocks at hb'
    rw [hblocks] at hb'
    rcases List.mem_cons.mp hb' with rfl | hb'
    · have hw := hF.blocks b (hbs ▸ List.mem_cons_self)
      refine ⟨hw.label, hw.phis, fun i hi => ?_, hw.operands, hw.dst, hw.targets⟩
      rcases List.mem_append.mp hi with hi | hi
      · exact h.wf i hi
      · exact hw.instrs i hi
    · exact hF.blocks b' (hbs ▸ List.mem_cons_of_mem _ hb')
  · refine .of_blocks hblocks hφ fun b' hb' => ?_
    rcases List.mem_cons.mp hb' with rfl | hb'
    · exact hback b (hbs ▸ List.mem_cons_self)
    · exact hback b' (hbs ▸ List.mem_cons_of_mem _ hb')
  · change b' ∈ (F.insertEntry is).blocks at hb'
    rw [hblocks] at hb'
    rcases List.mem_cons.mp hb' with rfl | hb'
    · exact hF.terminated b (hbs ▸ List.mem_cons_self)
    · exact hF.terminated b' (hbs ▸ List.mem_cons_of_mem _ hb')
  · show ((F.insertEntry is).blocks.map _).Nodup
    have := hF.labels
    rw [hbs] at this
    rw [hblocks]
    exact this
  · show ((F.insertEntry is).blocks.flatMap _).Nodup
    have := hF.defs
    unfold Func.defs at this
    rw [hbs] at this
    rw [hblocks]
    simpa [BasicBlock.defs, hφ, instrDefs_append] using this
  · exact ⟨(hA'.blocks b' hb').instrs, (hA'.blocks b' hb').term, (hA'.blocks b' hb').targets, (hA'.blocks b' hb').phis⟩

theorem labels_forall₂ {bs bs' : List (BasicBlock Fn Op)} (h : List.Forall₂ (BasicBlock.Extends A) bs bs') :
    bs'.map (·.label) = bs.map (·.label) := by
  induction h with
  | nil => rfl
  | cons hb _ ih => rw [List.map_cons, List.map_cons, hb.label, ih]


/-- **Instructions at the end of the blocks** of a verified function. -/
theorem Func.Verified.extend (hF : F.Verified) (hA : F.ScopedBy A ∅) {F' : Func Fn Op}
    (hall : List.Forall₂ (BasicBlock.Extends A) F.blocks F'.blocks)
    (hblocks : ∀ b ∈ F'.blocks, b.Wf F'.nextReg F'.nextLabel)
    (hdefs : F'.defs.Nodup) : F'.Verified := by
  have hof := mem_forall₂ hall
  refine ⟨⟨hblocks, ?_⟩, fun b' hb' => ?_, ?_, hdefs, A, hA.extend hall⟩
  · obtain ⟨b, bs, hbs, hφ, hback⟩ := hF.entry.blocks_eq
    unfold Func.EntryWf
    rw [hbs] at hall
    generalize hbs' : F'.blocks = bs' at hall hof
    cases hall with
    | @cons _ b' _ bs' hb _ =>
      refine ⟨hb.phis.trans hφ, fun b₁ hb₁ hl => ?_⟩
      obtain ⟨b₂, hb₂, he⟩ := hof b₁ hb₁
      rw [he.targets, hb.label] at hl
      exact hback b₂ hb₂ hl
  · obtain ⟨b, hb, he⟩ := hof b' hb'
    exact he.terminated (hF.terminated b hb)
  · rw [labels_forall₂ hall]
    exact hF.labels

/-- A block that only returns. -/
structure BasicBlock.Leaf (b : BasicBlock Fn Op) : Prop where
  phis : b.phis = []
  instrs : b.instrs = []
  operands : ∀ o ∈ b.term.operands, ∀ r, o ≠ .reg r
  dst : b.term.dst = none
  targets : b.term.targets = []
  terminated : b.term ≠ .missing

theorem Operand.in_of_ne_reg {o : Operand} (h : ∀ r, o ≠ .reg r) (s : Set ℕ) : o.In s := by
  cases o with
  | reg r => exact absurd rfl (h r)
  | _ => trivial

theorem Operand.below_of_ne_reg {o : Operand} (h : ∀ r, o ≠ .reg r) (n : ℕ) : o.Below n := by
  cases o with
  | reg r => exact absurd rfl (h r)
  | _ => trivial

/-- **A new entry**, which goes on to the old one or to a new block that
returns, makes a verified function of one that is verified after it. -/
theorem Func.VerifiedAfter.prepend (hF : F.VerifiedAfter is n) {n₀ m' : ℕ} (h : EntryCode n₀ n is)
    {entry : BasicBlock Fn Op} (hhead : F.blocks.head? = some entry) {t : Term Fn} {new : List (BasicBlock Fn Op)}
    (hops : ∀ o ∈ t.operands, o.In {r | r ∈ instrDefs is}) (hdst : t.dst = none) (hterm : t ≠ .missing)
    (htargets : ∀ l ∈ t.targets, l = entry.label ∨ l ∈ new.map (·.label)) (hm' : F.nextLabel < m')
    (hnew : ∀ b ∈ new, b.Leaf ∧ F.nextLabel < b.label ∧ b.label < m') (hlabels : (new.map (·.label)).Nodup) :
    (({ F with nextReg := n, nextLabel := m' } : Func Fn Op).prepend (⟨F.nextLabel, [], is, t⟩ :: new)).Verified := by
  obtain ⟨A, hA, hX⟩ := hF.reads
  have hmem : entry ∈ F.blocks := List.mem_of_mem_head? hhead
  have hbounds : ∀ b ∈ F.blocks, b.label < F.nextLabel ∧ ∀ l ∈ b.term.targets, l < F.nextLabel :=
    fun b hb => ⟨(hF.blocks b hb).label, (hF.blocks b hb).targets⟩
  have hentry := (hbounds entry hmem).1
  have hafter : ∀ l ∈ new.map (·.label), F.nextLabel < l ∧ l < m' := fun l hl => by
    obtain ⟨b, hb, rfl⟩ := List.mem_map.mp hl
    exact (hnew b hb).2
  have htarget : ∀ l ∈ t.targets, l ≠ F.nextLabel ∧ l < m' := fun l hl => by
    rcases htargets l hl with rfl | hl
    · omega
    · have := hafter l hl
      omega
  -- only the old entry has one of the labels, and it has no phis
  have hphis : ∀ b' ∈ ⟨F.nextLabel, [], is, t⟩ :: new ++ F.blocks, b'.label ∈ t.targets → b'.phis = [] := by
    intro b' hb' hl
    rcases List.mem_append.mp hb' with hb' | hb'
    · rcases List.mem_cons.mp hb' with rfl | hb'
      · rfl
      · exact (hnew b' hb').1.phis
    · obtain ⟨b₀, bs, hbs, hφ, -⟩ := hF.entry.blocks_eq
      rcases htargets _ hl with he | hl
      · have hb₀ : b₀ = entry := by
          rw [hbs] at hhead
          exact Option.some.inj hhead
        have hn := hF.labels
        rw [hbs, List.map_cons, List.nodup_cons] at hn
        rw [hbs] at hb'
        rcases List.mem_cons.mp hb' with rfl | hb'
        · exact hφ
        · exact absurd (List.mem_map.mpr ⟨b', hb', he.trans (congrArg _ hb₀.symm)⟩) hn.1
      · have := (hbounds b' hb').1
        have := hafter _ hl
        omega
  obtain ⟨A', hA', hA₀⟩ : ∃ A' : ℕ → Set ℕ, (∀ l < F.nextLabel, A' l = A l) ∧ ∀ l, F.nextLabel ≤ l → A' l = ∅ := by
    refine ⟨fun l => {r | l < F.nextLabel ∧ r ∈ A l}, fun l hl => ?_, fun l hl => ?_⟩
    · ext r
      exact and_iff_right hl
    · ext r
      exact iff_of_false (fun hr => by have := hr.1; omega) id
  have hend : {r | r ∈ instrDefs is} ⊆ BasicBlock.scopeEnd A' ⟨F.nextLabel, [], is, t⟩ := Set.subset_union_right
  have hscoped : (F.prepend (⟨F.nextLabel, [], is, t⟩ :: new)).ScopedBy A' ∅ := by
    refine hA.prepend hbounds hA' (hA₀ _ (Nat.le_refl _)) fun b hb => ?_
    rcases List.mem_cons.mp hb with rfl | hb
    · refine ⟨Nat.le_refl _, h.reads.mono (Set.empty_subset _), fun o ho => (hops o ho).mono hend, fun l hl => ?_,
        fun b' hb' hl φ hφ => ?_⟩
      · rcases htargets l hl with rfl | hl
        · rw [hA' _ hentry]
          exact (hA.entry entry hhead).trans (hend.trans Set.subset_union_left)
        · rw [hA₀ l (Nat.le_of_lt (hafter l hl).1)]
          exact Set.empty_subset _
      · rw [hphis b' hb' hl] at hφ
        cases hφ
    · obtain ⟨hleaf, hlt, -⟩ := hnew b hb
      refine ⟨Nat.le_of_lt hlt, ?_, fun o ho => Operand.in_of_ne_reg (hleaf.operands o ho) _, fun l hl => ?_,
        fun b' _ hl => ?_⟩
      · rw [hleaf.instrs]
        trivial
      · rw [hleaf.targets] at hl
        cases hl
      · rw [hleaf.targets] at hl
        cases hl
  refine ⟨⟨fun b hb => ?_, rfl, fun b hb hl => ?_⟩, fun b hb => ?_, ?_, ?_, A', hscoped.entry, fun b hb => ?_⟩
  · rcases List.mem_append.mp hb with hb | hb
    · rcases List.mem_cons.mp hb with rfl | hb
      · refine ⟨hm', fun φ hφ => absurd hφ List.not_mem_nil, h.wf, fun o ho => ?_, fun r hr => ?_,
          fun l hl => (htarget l hl).2⟩
        · cases o with
          | reg r =>
            obtain ⟨i, hi, hd⟩ := List.mem_filterMap.mp (hops _ ho)
            exact (h.wf i hi).dst r hd
          | _ => trivial
        · change r ∈ t.dst at hr
          rw [hdst] at hr
          cases hr
      · obtain ⟨hleaf, -, hlt⟩ := hnew b hb
        refine ⟨hlt, fun φ hφ => ?_, fun i hi => ?_, fun o ho => Operand.below_of_ne_reg (hleaf.operands o ho) _,
          fun r hr => ?_, fun l hl => ?_⟩
        · rw [hleaf.phis] at hφ
          cases hφ
        · rw [hleaf.instrs] at hi
          cases hi
        · rw [hleaf.dst] at hr
          cases hr
        · rw [hleaf.targets] at hl
          cases hl
    · exact (hF.blocks b hb).mono (Nat.le_refl n) (Nat.le_of_lt hm')
  · rcases List.mem_append.mp hb with hb | hb
    · rcases List.mem_cons.mp hb with rfl | hb
      · exact (htarget _ hl).1 rfl
      · rw [(hnew b hb).1.targets] at hl
        cases hl
    · exact Nat.lt_irrefl _ ((hbounds b hb).2 _ hl)
  · rcases List.mem_append.mp hb with hb | hb
    · rcases List.mem_cons.mp hb with rfl | hb
      · exact hterm
      · exact (hnew b hb).1.terminated
    · exact hF.terminated b hb
  · show ((⟨F.nextLabel, [], is, t⟩ :: new ++ F.blocks).map _).Nodup
    rw [List.map_append, List.map_cons, List.cons_append, List.nodup_cons, List.nodup_append]
    refine ⟨fun hm => ?_, hlabels, hF.labels, fun l hl l' hl' => ?_⟩
    · rcases List.mem_append.mp hm with hm | hm
      · exact Nat.lt_irrefl _ (hafter _ hm).1
      · obtain ⟨b, hb, he⟩ := List.mem_map.mp hm
        have := (hbounds b hb).1
        change b.label = F.nextLabel at he
        omega
    · obtain ⟨b, hb, rfl⟩ := List.mem_map.mp hl'
      have := (hbounds b hb).1
      have := hafter l hl
      omega
  · show ((⟨F.nextLabel, [], is, t⟩ :: new ++ F.blocks).flatMap _).Nodup
    have hnil : new.flatMap (·.defs) = [] := by
      apply List.flatMap_eq_nil_iff.mpr
      intro b hb
      obtain ⟨hleaf, -⟩ := hnew b hb
      simp [BasicBlock.defs, hleaf.phis, hleaf.instrs, hleaf.dst, instrDefs]
    rw [List.flatMap_append, List.flatMap_cons, hnil, List.append_nil]
    have := hF.defs
    simpa [BasicBlock.defs, hdst, Func.defs] using this
  · have hs := hscoped.blocks b hb
    exact ⟨hs.instrs, hs.term, hs.targets, hs.phis⟩

end Verified

/-- **A function of one block** that returns is verified when its code is. -/
theorem Func.verified_singleton {F : Func Fn Op} {b : BasicBlock Fn Op} (hb : F.blocks = [b]) (hφ : b.phis = [])
    (hl : b.label < F.nextLabel) (hcode : EntryCode 0 F.nextReg b.instrs) {v : Option Operand}
    (ht : b.term = .ret v) (hv : ∀ o ∈ v, o.In {r | r ∈ instrDefs b.instrs}) : F.Verified := by
  have hof : ∀ b' ∈ F.blocks, b' = b := fun b' hb' => List.mem_singleton.mp (hb ▸ hb')
  have hops : b.term.operands = v.toList := by rw [ht]; rfl
  have htargets : b.term.targets = [] := by rw [ht]; rfl
  have hdst : b.term.dst = none := by rw [ht]; rfl
  refine ⟨⟨fun b' hb' => ?_, .of_blocks hb hφ fun b' hb' => ?_⟩, fun b' hb' => ?_, ?_, ?_, fun _ => ∅, fun b' hb' => ?_,
    fun b' hb' => ?_⟩
  · obtain rfl := hof b' hb'
    refine ⟨hl, fun φ h => ?_, hcode.wf, fun o ho => ?_, fun r hr => ?_, fun l hl => ?_⟩
    · rw [hφ] at h
      cases h
    · rw [hops] at ho
      cases o with
      | reg r =>
        obtain ⟨i, hi, hd⟩ := List.mem_filterMap.mp (hv _ (Option.mem_toList.mp ho))
        exact (hcode.wf i hi).dst r hd
      | _ => trivial
    · rw [hdst] at hr
      cases hr
    · rw [htargets] at hl
      cases hl
  · obtain rfl := List.mem_singleton.mp hb'
    rw [htargets]
    exact List.not_mem_nil
  · obtain rfl := hof b' hb'
    rw [ht]
    simp
  · rw [hb]
    exact List.pairwise_singleton _ _
  · unfold Func.defs
    rw [hb, List.flatMap_cons, List.flatMap_nil, List.append_nil]
    unfold BasicBlock.defs
    rw [hφ, hdst]
    simpa using hcode.nodup
  · exact Set.empty_subset _
  · obtain rfl := hof b' hb'
    refine ⟨hcode.reads.mono (Set.empty_subset _), fun o ho => ?_, fun l hl => ?_, fun b₁ _ hl => ?_⟩
    · rw [hops] at ho
      exact (hv o (Option.mem_toList.mp ho)).mono Set.subset_union_right
    · rw [htargets] at hl
      cases hl
    · rw [htargets] at hl
      cases hl

/-! ### Instructions after instructions -/

section InsertAfter

variable {F : Func Fn Op} {h : Instr Fn Op → List (Instr Fn Op)}

/-- Code after `i` that writes nothing and reads what `i` reads. -/
def Trails (i : Instr Fn Op) (js : List (Instr Fn Op)) : Prop :=
  ∀ j ∈ js, j.dst = none ∧ ∀ o ∈ j.operands, o ∈ i.operands

theorem Trails.instrDefs {i : Instr Fn Op} {js : List (Instr Fn Op)} (h : Trails i js) : instrDefs js = [] :=
  List.filterMap_eq_nil_iff.mpr fun j hj => (h j hj).1

theorem Trails.inScope {i : Instr Fn Op} {js : List (Instr Fn Op)} (h : Trails i js) (hi : ∀ o ∈ i.operands, o.In s) :
    InScope s js := by
  induction js with
  | nil => trivial
  | cons j js ih =>
    obtain ⟨-, hops⟩ := h j List.mem_cons_self
    refine ⟨fun o ho => hi o (hops o ho), ?_⟩
    exact (ih fun j' hj' => h j' (List.mem_cons_of_mem _ hj')).mono Set.subset_union_left

theorem instrDefs_flatMap {is : List (Instr Fn Op)} (hh : ∀ i ∈ is, Trails i (h i)) :
    instrDefs (is.flatMap fun i => i :: h i) = instrDefs is := by
  induction is with
  | nil => rfl
  | cons i is ih =>
    rw [List.flatMap_cons, instrDefs_append, ih fun j hj => hh j (List.mem_cons_of_mem _ hj)]
    have hi : instrDefs (i :: h i) = instrDefs [i] := by
      rw [← List.singleton_append, instrDefs_append, (hh i List.mem_cons_self).instrDefs, List.append_nil]
    rw [hi, ← instrDefs_append]
    rfl

theorem InScope.flatMap {is : List (Instr Fn Op)} (hs : InScope s is) (hh : ∀ i ∈ is, Trails i (h i)) :
    InScope s (is.flatMap fun i => i :: h i) := by
  induction is generalizing s with
  | nil => trivial
  | cons i is ih =>
    have hi := hh i List.mem_cons_self
    rw [List.flatMap_cons, List.cons_append]
    refine ⟨hs.1, (hi.inScope fun o ho => (hs.1 o ho).mono Set.subset_union_left).append ?_⟩
    rw [hi.instrDefs]
    exact (ih hs.2 fun j hj => hh j (List.mem_cons_of_mem _ hj)).mono Set.subset_union_left

theorem BasicBlock.instrDefs_insertAfter {b : BasicBlock Fn Op} (hb : ∀ i ∈ b.instrs, Trails i (h i)) :
    instrDefs (b.insertAfter h).instrs = instrDefs b.instrs := instrDefs_flatMap hb

theorem BasicBlock.scopeEnd_insertAfter {b : BasicBlock Fn Op} (hb : ∀ i ∈ b.instrs, Trails i (h i)) :
    (b.insertAfter h).scopeEnd A = b.scopeEnd A := by
  unfold BasicBlock.scopeEnd
  rw [instrDefs_insertAfter hb]
  rfl

theorem BasicBlock.defs_insertAfter {b : BasicBlock Fn Op} (hb : ∀ i ∈ b.instrs, Trails i (h i)) :
    (b.insertAfter h).defs = b.defs := by
  unfold BasicBlock.defs
  rw [instrDefs_insertAfter hb]
  rfl

theorem BasicBlock.Wf.insertAfter {b : BasicBlock Fn Op} {n m : ℕ} (hw : b.Wf n m)
    (hb : ∀ i ∈ b.instrs, Trails i (h i)) : (b.insertAfter h).Wf n m := by
  refine ⟨hw.label, hw.phis, fun j hj => ?_, hw.operands, hw.dst, hw.targets⟩
  obtain ⟨i, hi, hj⟩ := List.mem_flatMap.mp hj
  rcases List.mem_cons.mp hj with rfl | hj
  · exact hw.instrs j hi
  · obtain ⟨hd, hops⟩ := hb i hi j hj
    refine ⟨fun o ho => (hw.instrs i hi).operands o (hops o ho), fun r hr => ?_, fun r hr => ?_⟩
    · rw [hd] at hr
      cases hr
    · rw [hd] at hr
      cases hr

/-- **Code after instructions** of a verified function. -/
theorem Func.Verified.insertAfter (hF : F.Verified) (hh : ∀ b ∈ F.blocks, ∀ i ∈ b.instrs, Trails i (h i)) :
    (F.insertAfter h).Verified := by
  obtain ⟨A, hA⟩ := hF.reads
  have hof : ∀ b' ∈ (F.insertAfter h).blocks, ∃ b ∈ F.blocks, b.insertAfter h = b' :=
    fun b' hb' => List.mem_map.mp hb'
  obtain ⟨b₀, bs, hbs, hφ, hback⟩ := hF.entry.blocks_eq
  have hbs' : (F.insertAfter h).blocks = b₀.insertAfter h :: bs.map (·.insertAfter h) := by
    show F.blocks.map _ = _
    rw [hbs, List.map_cons]
  refine ⟨⟨fun b' hb' => ?_, .of_blocks hbs' hφ fun b' hb' => ?_⟩, fun b' hb' => ?_, ?_, ?_, A, fun b' hb' => ?_,
    fun b' hb' => ?_⟩
  · obtain ⟨b, hb, rfl⟩ := hof b' hb'
    exact (hF.blocks b hb).insertAfter (hh b hb)
  · obtain ⟨b, hb, rfl⟩ := hof b' (hbs' ▸ hb')
    exact hback b hb
  · obtain ⟨b, hb, rfl⟩ := hof b' hb'
    exact hF.terminated b hb
  · have he : (F.insertAfter h).blocks.map (·.label) = F.blocks.map (·.label) := List.map_map
    rw [he]
    exact hF.labels
  · have he : (F.insertAfter h).defs = F.defs := by
      show (F.blocks.map _).flatMap _ = _
      rw [List.flatMap_map]
      exact List.flatMap_congr fun b hb => BasicBlock.defs_insertAfter (hh b hb)
    rw [he]
    exact hF.defs
  · rw [hbs'] at hb'
    cases hb'
    exact hA.entry b₀ (by rw [hbs]; rfl)
  · obtain ⟨b, hb, rfl⟩ := hof b' hb'
    have hs := hA.blocks b hb
    have hend : (b.insertAfter h).scopeEnd A = b.scopeEnd A := BasicBlock.scopeEnd_insertAfter (hh b hb)
    refine ⟨hs.instrs.flatMap (hh b hb), ?_, ?_, fun b₂ hb₂ hl φ hφ => ?_⟩
    · rw [hend]
      exact hs.term
    · rw [hend]
      exact hs.targets
    · obtain ⟨b₃, hb₃, rfl⟩ := hof b₂ hb₂
      rw [hend]
      exact hs.phis b₃ hb₃ hl φ hφ

end InsertAfter

/-! ### Reads of what is not there yet -/

/-- An instruction reads a register that it or a later one writes. -/
def ReadsAhead (is : List (Instr Fn Op)) : Prop :=
  ∃ pre i post r, is = pre ++ i :: post ∧ .reg r ∈ i.operands ∧ r ∈ instrDefs (i :: post)

theorem ReadsAhead.append {is : List (Instr Fn Op)} (h : ReadsAhead is) (js : List (Instr Fn Op)) :
    ReadsAhead (is ++ js) := by
  obtain ⟨pre, i, post, r, rfl, hr, hd⟩ := h
  refine ⟨pre, i, post ++ js, r, by rw [List.append_assoc, List.cons_append], hr, ?_⟩
  rw [← List.cons_append, instrDefs_append]
  exact List.mem_append_left _ hd

theorem mem_instrDefs_flatMap {f : Instr Fn Op → List (Instr Fn Op)} {r : ℕ} {is : List (Instr Fn Op)}
    (h : r ∈ instrDefs is) : r ∈ instrDefs (is.flatMap fun i => i :: f i) := by
  obtain ⟨i, hi, hd⟩ := List.mem_filterMap.mp h
  exact List.mem_filterMap.mpr ⟨i, List.mem_flatMap.mpr ⟨i, hi, List.mem_cons_self⟩, hd⟩

theorem ReadsAhead.flatMap {is : List (Instr Fn Op)} (h : ReadsAhead is) (f : Instr Fn Op → List (Instr Fn Op)) :
    ReadsAhead (is.flatMap fun i => i :: f i) := by
  obtain ⟨pre, i, post, r, rfl, hr, hd⟩ := h
  refine ⟨pre.flatMap fun i => i :: f i, i, f i ++ post.flatMap fun i => i :: f i, r, ?_, hr, ?_⟩
  · rw [List.flatMap_append, List.flatMap_cons, List.cons_append]
  · exact mem_instrDefs_flatMap hd

/-- What an instruction reads was there before the list or is written before it. -/
theorem InScope.operands : ∀ {pre : List (Instr Fn Op)} {i : Instr Fn Op} {post : List (Instr Fn Op)} {s : Set ℕ},
    InScope s (pre ++ i :: post) → ∀ o ∈ i.operands, o.In (s ∪ {r | r ∈ instrDefs pre})
  | [], _, _, _, h, o, ho => (h.1 o ho).mono Set.subset_union_left
  | j :: pre, _, _, s, h, o, ho => by
    refine (h.2.operands o ho).mono ?_
    rintro r ((hr | hr) | hr)
    · exact .inl hr
    · exact .inr (List.mem_filterMap.mpr ⟨j, List.mem_cons_self, hr⟩)
    · obtain ⟨k, hk, hd⟩ := List.mem_filterMap.mp hr
      exact .inr (List.mem_filterMap.mpr ⟨k, List.mem_cons_of_mem j hk, hd⟩)

/-- **The entry of a verified function** reads nothing ahead: no register is there
before it, and what is written there is written once. -/
theorem Func.Verified.not_readsAhead {F : Func Fn Op} (hF : F.Verified) {b : BasicBlock Fn Op}
    (hb : F.blocks.head? = some b) : ¬ ReadsAhead b.instrs := by
  rintro ⟨pre, i, post, r, he, hr, hd⟩
  obtain ⟨A, hA⟩ := hF.reads
  have hmem : b ∈ F.blocks := List.mem_of_mem_head? hb
  obtain ⟨b', bs, hbs, hφ, -⟩ := hF.entry.blocks_eq
  rw [hbs] at hb
  obtain rfl : b' = b := Option.some.inj hb
  have hscope := (hA.blocks b' hmem).instrs
  rw [he] at hscope
  have hnodup : b'.defs.Nodup := (List.pairwise_flatMap.mp hF.defs).1 b' hmem
  rcases hscope.operands _ hr with (hr | hr) | hr
  · exact hA.entry b' (hbs ▸ rfl) hr
  · change r ∈ b'.phis.map (·.dst) at hr
    rw [hφ] at hr
    exact absurd hr List.not_mem_nil
  · -- the register would be written twice
    unfold BasicBlock.defs at hnodup
    rw [he, instrDefs_append] at hnodup
    have hboth := (List.nodup_append.mp (List.nodup_append.mp (List.nodup_append.mp hnodup).2.1).1).2.2
    exact hboth r hr r hd rfl

end Ssa
end Lib
end Cmasan
