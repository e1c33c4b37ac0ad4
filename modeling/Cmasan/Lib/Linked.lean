/-
# A first-in first-out queue linked by hand

A heap of nodes, each with a value and the name of the next node; a queue is
two names, `first` and `last`. `IsQueue node first last ns` says that the
chain from `first` is exactly the nodes `ns`, all different, ended by a null
link, and that `last` names the last of them. Appending a fresh node behind
`last` and unlinking `first` keep it; on a nonempty queue `first = last` says
that one node is left.

Key definitions: `Node`, `Chain`, `IsQueue`, `walk`.
Key theorems: `IsQueue.push_nil`, `IsQueue.push_cons`, `IsQueue.pop`,
`IsQueue.single_iff`, `IsQueue.ends`, `walk_eq`.
-/
import Mathlib.Data.List.Nodup
import Mathlib.Logic.Function.Basic

namespace Cmasan
namespace Lib

/-- A node of a list linked by hand. -/
structure Node (α : Type*) where
  next : Option ℕ
  val : α

variable {α : Type*}

/-- The chain of links from `p` is the nodes `ns`, then null. -/
def Chain (node : ℕ → Node α) : Option ℕ → List ℕ → Prop
  | p, [] => p = none
  | p, n :: ns => p = some n ∧ Chain node (node n).next ns

/-- The nodes a walk from `p` passes, at most `fuel` of them. -/
def walk (node : ℕ → Node α) : ℕ → Option ℕ → List ℕ
  | 0, _ => []
  | _ + 1, none => []
  | fuel + 1, some n => n :: walk node fuel (node n).next

/-- `first` and `last` are the ends of the chain `ns` of different nodes. -/
structure IsQueue (node : ℕ → Node α) (first last : Option ℕ) (ns : List ℕ) : Prop where
  chain : Chain node first ns
  last_eq : last = ns.getLast?
  nodup : ns.Nodup

theorem walk_eq {node : ℕ → Node α} : ∀ {ns : List ℕ} {p : Option ℕ} {fuel : ℕ},
    Chain node p ns → ns.length ≤ fuel → walk node fuel p = ns
  | [], p, fuel, h, _ => by
    obtain rfl : p = none := h
    cases fuel <;> rfl
  | n :: ns, p, fuel, h, hf => by
    obtain ⟨rfl, h⟩ := h
    cases fuel with
    | zero => simp at hf
    | succ fuel => simp only [walk, walk_eq h (by simpa using hf)]

theorem Chain.congr {node node' : ℕ → Node α} : ∀ {ns : List ℕ} {p : Option ℕ},
    Chain node p ns → (∀ n ∈ ns, node' n = node n) → Chain node' p ns
  | [], _, h, _ => h
  | n :: ns, p, h, hc => by
    refine ⟨h.1, ?_⟩
    rw [hc n List.mem_cons_self]
    exact h.2.congr fun m hm => hc m (List.mem_cons_of_mem _ hm)

theorem IsQueue.congr {node node' : ℕ → Node α} {first last : Option ℕ} {ns : List ℕ}
    (h : IsQueue node first last ns) (hc : ∀ n ∈ ns, node' n = node n) :
    IsQueue node' first last ns :=
  ⟨h.chain.congr hc, h.last_eq, h.nodup⟩

theorem IsQueue.nil (node : ℕ → Node α) : IsQueue node none none [] := ⟨rfl, rfl, List.nodup_nil⟩

theorem IsQueue.eq_nil_iff {node : ℕ → Node α} {first last : Option ℕ} {ns : List ℕ}
    (h : IsQueue node first last ns) : first = none ↔ ns = [] := by
  cases ns with
  | nil => exact ⟨fun _ => rfl, fun _ => h.chain⟩
  | cons n ns => simp [h.chain.1]

/-- A chain whose last node is relinked to the fresh end node `k` is the chain with
`k` appended. -/
theorem Chain.append {node : ℕ → Node α} {k : ℕ} : ∀ {ns : List ℕ} {p : Option ℕ} {l : ℕ},
    Chain node p ns → ns.getLast? = some l → ns.Nodup → k ∉ ns → (node k).next = none →
    Chain (Function.update node l { node l with next := some k }) p (ns ++ [k])
  | [], _, _, _, hl, _, _, _ => by simp at hl
  | [n], p, l, h, hl, _, hk, hkn => by
    obtain rfl : n = l := by simpa using hl
    have hkn' : k ≠ n := by simpa using hk
    exact ⟨h.1, by simp [Chain, Function.update_of_ne hkn', hkn]⟩
  | n :: m :: ns, p, l, h, hl, hd, hk, hkn => by
    have hl' : (m :: ns).getLast? = some l := by simpa [List.getLast?_cons_cons] using hl
    have hne : n ≠ l := by
      rintro rfl
      exact (List.nodup_cons.mp hd).1 (List.mem_of_getLast? hl')
    refine ⟨h.1, ?_⟩
    rw [Function.update_of_ne hne]
    exact h.2.append hl' (List.nodup_cons.mp hd).2 (fun hm => hk (List.mem_cons_of_mem _ hm)) hkn

theorem IsQueue.push_nil {node : ℕ → Node α} {k : ℕ} (hk : (node k).next = none) :
    IsQueue node (some k) (some k) [k] :=
  ⟨⟨rfl, hk⟩, rfl, List.nodup_singleton k⟩

/-- **Appending behind `last`** a fresh node whose link is null. -/
theorem IsQueue.push_cons {node : ℕ → Node α} {first : Option ℕ} {l k : ℕ} {ns : List ℕ}
    (h : IsQueue node first (some l) ns) (hk : k ∉ ns) (hkn : (node k).next = none) :
    IsQueue (Function.update node l { node l with next := some k }) first (some k) (ns ++ [k]) :=
  ⟨h.chain.append h.last_eq.symm h.nodup hk hkn, by simp,
    List.nodup_append.mpr ⟨h.nodup, List.nodup_singleton k,
      fun a ha b hb => by rw [List.mem_singleton.mp hb]; exact fun he => hk (he ▸ ha)⟩⟩

/-- `first = last` on a nonempty queue: one node is left. -/
theorem IsQueue.single_iff {node : ℕ → Node α} {first last : Option ℕ} {n : ℕ} {ns : List ℕ}
    (h : IsQueue node first last (n :: ns)) : first = last ↔ ns = [] := by
  rw [h.chain.1, h.last_eq]
  cases ns with
  | nil => simp
  | cons m ns =>
    have hnot : n ∉ m :: ns := (List.nodup_cons.mp h.nodup).1
    simp only [List.getLast?_cons_cons, reduceCtorEq, iff_false]
    exact fun he => hnot (List.mem_of_getLast? he.symm)

/-- **Unlinking `first`.** -/
theorem IsQueue.pop {node : ℕ → Node α} {first last : Option ℕ} {n : ℕ} {ns : List ℕ}
    (h : IsQueue node first last (n :: ns)) :
    IsQueue node (if first = last then none else (node n).next) (if first = last then none else last)
      ns := by
  by_cases he : first = last
  · obtain rfl := h.single_iff.mp he
    simp only [if_pos he]
    exact .nil node
  · have hns : ns ≠ [] := fun hn => he (h.single_iff.mpr hn)
    simp only [if_neg he]
    refine ⟨h.chain.2, ?_, (List.nodup_cons.mp h.nodup).2⟩
    obtain ⟨m, ms, rfl⟩ := List.exists_cons_of_ne_nil hns
    simpa [List.getLast?_cons_cons] using h.last_eq

theorem Chain.last_next {node : ℕ → Node α} : ∀ {ns : List ℕ} {p : Option ℕ} {l : ℕ},
    Chain node p ns → ns.getLast? = some l → (node l).next = none
  | [], _, _, _, hl => by simp at hl
  | [n], _, l, h, hl => by
    obtain rfl : n = l := by simpa using hl
    exact h.2
  | n :: m :: ns, _, l, h, hl => by
    rw [List.getLast?_cons_cons] at hl
    exact h.2.last_next hl

/-- **The two ends of a queue** are both null, or are its first node and its
last one, whose link is null. -/
theorem IsQueue.ends {node : ℕ → Node α} {first last : Option ℕ} {ns : List ℕ}
    (h : IsQueue node first last ns) :
    (ns = [] ∧ first = none ∧ last = none) ∨
      ∃ n m, first = some n ∧ last = some m ∧ ns.head? = some n ∧ ns.getLast? = some m ∧
        (node m).next = none := by
  rcases ns with _ | ⟨n, ns⟩
  · exact .inl ⟨rfl, h.chain, h.last_eq⟩
  · have hl : (n :: ns).getLast? = some ((n :: ns).getLast (List.cons_ne_nil n ns)) :=
      List.getLast?_eq_some_getLast (List.cons_ne_nil n ns)
    exact .inr ⟨n, _, h.chain.1, h.last_eq.trans hl, rfl, hl, h.chain.last_next hl⟩

end Lib
end Cmasan
