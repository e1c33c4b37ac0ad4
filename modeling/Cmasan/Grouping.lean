/-
# Grouping the ALLOCs into families

`analyze.py` takes the confirmed ALLOCs one after the other. One that is still
there opens a family: the ALLOCs from it on that are among its candidates are
moved into the family's identified list, and taken out of the candidates,
which are a list of the family map itself. The opener stays where it is, as it
is none of its own candidates.

So the openers and the identified members together are the confirmed ALLOCs
(`groupFamilies_perm`), and the identified members alone are so only if there
are no openers: the families of one ALLOC or more always miss one.

Key definitions: `moveMembers`, `groupFamilies`, `familiesOf`, `GroupsEach`.
Key theorems: `moveMembers_perm`, `groupFamilies_perm`, `groupsEach_iff_none_confirmed`.
-/
import Cmasan.Identification
import Mathlib.Logic.Function.Basic
import Mathlib.Data.List.Perm.Basic

namespace Cmasan
namespace Identification

open Lib

/-- `family_map`: the candidates of each ALLOC candidate. -/
abbrev FamilyMap := Function → List Function

/-- What the inner loop makes of the ALLOCs from `i` on. -/
structure Moved where
  identified : List CMAInfo
  candidates : List Function
  left : List (Option CMAInfo)

/-- The inner loop: an ALLOC among the candidates is moved, its place is
`None` and the candidate is removed, the first one of them. -/
def moveMembers : List (Option CMAInfo) → List Function → Moved
  | [], candidates => ⟨[], candidates, []⟩
  | none :: rest, candidates =>
    let r := moveMembers rest candidates
    { r with left := none :: r.left }
  | some info :: rest, candidates =>
    if getFunctionInfo info ∈ candidates then
      let r := moveMembers rest (candidates.erase (getFunctionInfo info))
      { r with identified := info :: r.identified, left := none :: r.left }
    else
      let r := moveMembers rest candidates
      { r with left := some info :: r.left }

/-- A family with the ALLOC that opened it, whose list in the map it shares. -/
structure Opened where
  opener : CMAInfo
  identified : List CMAInfo

/-- The outer loop, with `n` places left from `i` on; what is before `i` is
not looked at again. -/
def groupFamilies : ℕ → List (Option CMAInfo) → FamilyMap → List Opened × FamilyMap
  | 0, _, familyMap => ([], familyMap)
  | _ + 1, [], familyMap => ([], familyMap)
  | n + 1, none :: rest, familyMap => groupFamilies n rest familyMap
  | n + 1, some info :: rest, familyMap =>
    let r := moveMembers (some info :: rest) (familyMap (getFunctionInfo info))
    let (families, familyMap) :=
      groupFamilies n r.left.tail (Function.update familyMap (getFunctionInfo info) r.candidates)
    (⟨info, r.identified⟩ :: families, familyMap)

/-- `families` after the grouping; a family's candidates are its opener's list
as it is then. -/
def familiesOf (allocIdentified : List CMAInfo) (familyMap : FamilyMap) : List FamilyEntry :=
  let (families, familyMap) := groupFamilies allocIdentified.length (allocIdentified.map some) familyMap
  families.map fun f => ⟨f.identified, familyMap (getFunctionInfo f.opener)⟩

/-- Each confirmed ALLOC is identified in one family, as often as it was
confirmed, and each family has one. -/
def GroupsEach (allocIdentified : List CMAInfo) (families : List FamilyEntry) : Prop :=
  (families.flatMap FamilyEntry.identified).Perm allocIdentified ∧ ∀ f ∈ families, f.identified ≠ []

/-! ### The inner loop -/

/-- The ALLOCs that are there. -/
def present (l : List (Option CMAInfo)) : List CMAInfo := l.filterMap id

/-- **The inner loop** loses no ALLOC and doubles none. -/
theorem moveMembers_perm : ∀ (l : List (Option CMAInfo)) (candidates : List Function),
    ((moveMembers l candidates).identified ++ present (moveMembers l candidates).left).Perm (present l)
  | [], _ => .refl _
  | none :: rest, candidates => moveMembers_perm rest candidates
  | some info :: rest, candidates => by
    unfold moveMembers
    split
    · exact (moveMembers_perm rest _).cons info
    · calc ((moveMembers rest candidates).identified ++ info :: present (moveMembers rest candidates).left).Perm
            (info :: ((moveMembers rest candidates).identified ++ present (moveMembers rest candidates).left)) :=
          List.perm_middle
        List.Perm _ (info :: present rest) := (moveMembers_perm rest candidates).cons info

theorem length_moveMembers : ∀ (l : List (Option CMAInfo)) (candidates : List Function),
    (moveMembers l candidates).left.length = l.length
  | [], _ => rfl
  | none :: rest, candidates => congrArg (· + 1) (length_moveMembers rest candidates)
  | some info :: rest, candidates => by
    unfold moveMembers
    split
    · exact congrArg (· + 1) (length_moveMembers rest _)
    · exact congrArg (· + 1) (length_moveMembers rest candidates)

theorem moveMembers_subset : ∀ (l : List (Option CMAInfo)) (candidates : List Function),
    (moveMembers l candidates).candidates ⊆ candidates
  | [], _ => List.Subset.refl _
  | none :: rest, candidates => moveMembers_subset rest candidates
  | some info :: rest, candidates => by
    unfold moveMembers
    split
    · exact fun f hf => List.mem_of_mem_erase (moveMembers_subset rest _ hf)
    · exact moveMembers_subset rest candidates

/-- The opener is none of its candidates and stays. -/
theorem moveMembers_opener {info : CMAInfo} {candidates : List Function}
    (h : getFunctionInfo info ∉ candidates) (rest : List (Option CMAInfo)) :
    moveMembers (some info :: rest) candidates =
      { moveMembers rest candidates with left := some info :: (moveMembers rest candidates).left } := by
  rw [moveMembers, if_neg h]

/-! ### The outer loop -/

/-- **The openers and the members** together are the ALLOCs. -/
theorem groupFamilies_perm : ∀ (n : ℕ) (l : List (Option CMAInfo)) (familyMap : FamilyMap),
    l.length ≤ n → (∀ f, f ∉ familyMap f) →
    (((groupFamilies n l familyMap).1.map Opened.opener) ++
      (groupFamilies n l familyMap).1.flatMap Opened.identified).Perm (present l)
  | 0, [], _, _, _ => .refl _
  | _ + 1, [], _, _, _ => .refl _
  | n + 1, none :: rest, familyMap, hn, hown =>
    groupFamilies_perm n rest familyMap (Nat.le_of_succ_le_succ hn) hown
  | n + 1, some info :: rest, familyMap, hn, hown => by
    have hopener := moveMembers_opener (hown (getFunctionInfo info)) rest
    have hmoved := moveMembers_perm rest (familyMap (getFunctionInfo info))
    have hlen := length_moveMembers rest (familyMap (getFunctionInfo info))
    have hsub := moveMembers_subset rest (familyMap (getFunctionInfo info))
    unfold groupFamilies
    rw [hopener]
    dsimp only
    rw [List.tail_cons]
    have hown' : ∀ f, f ∉ Function.update familyMap (getFunctionInfo info)
        (moveMembers rest (familyMap (getFunctionInfo info))).candidates f := by
      intro f
      by_cases hf : f = getFunctionInfo info
      · subst hf
        rw [Function.update_self]
        exact fun h => hown _ (hsub h)
      · rw [Function.update_of_ne hf]
        exact hown f
    have ih := groupFamilies_perm n (moveMembers rest (familyMap (getFunctionInfo info))).left _
      (hlen.trans_le (Nat.le_of_succ_le_succ hn)) hown'
    generalize groupFamilies n (moveMembers rest (familyMap (getFunctionInfo info))).left _ = g at ih ⊢
    obtain ⟨families, familyMap'⟩ := g
    dsimp only at ih ⊢
    rw [List.map_cons, List.flatMap_cons, List.cons_append]
    apply List.Perm.cons
    calc (families.map Opened.opener ++ ((moveMembers rest _).identified ++ families.flatMap Opened.identified)).Perm
          ((moveMembers rest _).identified ++ (families.map Opened.opener ++ families.flatMap Opened.identified)) :=
        List.perm_append_comm_assoc _ _ _
      List.Perm _ ((moveMembers rest _).identified ++ present (moveMembers rest _).left) := ih.append_left _
      List.Perm _ (present rest) := hmoved

theorem present_map_some (allocIdentified : List CMAInfo) : present (allocIdentified.map some) = allocIdentified := by
  simp [present]

/-- **Each confirmed ALLOC is in one family's list iff none was confirmed.** -/
theorem groupsEach_iff_none_confirmed {familyMap : FamilyMap} (hown : ∀ f, f ∉ familyMap f)
    (allocIdentified : List CMAInfo) :
    GroupsEach allocIdentified (familiesOf allocIdentified familyMap) ↔ allocIdentified = [] := by
  constructor
  · intro ⟨hperm, _⟩
    have hpart := groupFamilies_perm allocIdentified.length (allocIdentified.map some) familyMap
      (List.length_map _).le hown
    rw [present_map_some] at hpart
    unfold familiesOf at hperm
    generalize groupFamilies allocIdentified.length (allocIdentified.map some) familyMap = g at hperm hpart
    obtain ⟨families, familyMap'⟩ := g
    have hflat : (families.map fun f => (⟨f.identified, familyMap' (getFunctionInfo f.opener)⟩ :
        FamilyEntry)).flatMap FamilyEntry.identified = families.flatMap Opened.identified := by
      rw [List.flatMap_map]
    dsimp only at hperm hpart
    rw [hflat] at hperm
    -- the members alone are as many as the openers and the members
    have hlen := hpart.length_eq
    rw [List.length_append, List.length_map, hperm.length_eq] at hlen
    have hnil : families = [] := List.length_eq_zero_iff.mp (by omega)
    subst hnil
    exact hperm.nil_eq.symm
  · intro h
    subst h
    exact ⟨.refl _, fun _ hf => absurd hf List.not_mem_nil⟩

/-- An ALLOC of one argument. -/
def exampleAlloc (name : Text) : CMAInfo :=
  ⟨name, "a.c".toList, "1".toList, "2".toList, 0, -1, -1, -1, -1, .alloc⟩

/-- `g` is a candidate of `f`. -/
def exampleMap : FamilyMap := fun f =>
  if f = getFunctionInfo (exampleAlloc ['f']) then [getFunctionInfo (exampleAlloc ['g'])] else []

/-- `g` is moved to the family that `f` opens, which does not list `f`. -/
theorem groupsEach_two : ¬ GroupsEach [exampleAlloc ['f'], exampleAlloc ['g']]
    (familiesOf [exampleAlloc ['f'], exampleAlloc ['g']] exampleMap) := by
  have hown : ∀ f, f ∉ exampleMap f := by
    intro f hf
    unfold exampleMap at hf
    split at hf
    · rename_i he
      subst he
      exact absurd hf (by decide)
    · cases hf
  intro h
  cases (groupsEach_iff_none_confirmed hown _).mp h

/-- One confirmed ALLOC opens a family that does not list it, and the
assertion on that family fails. -/
theorem groupFamilies_misses_opener :
    ¬ GroupsEach [exampleAlloc ['f']] (familiesOf [exampleAlloc ['f']] fun _ => []) ∧
    ∀ (W : Files) (answers : ℕ → FamilyAnswer) (fuel : ℕ) (s : Session W),
      familyLoops answers fuel (familiesOf [exampleAlloc ['f']] fun _ => []) s = .raised .assertionError := by
  constructor
  · intro h
    exact h.2 _ List.mem_cons_self rfl
  · intro W answers fuel s
    rfl

end Identification
end Cmasan
