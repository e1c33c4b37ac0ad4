/-
# A ledger of what is held

A custodian that delays frees: `held` is what the allocator has handed out and
not got back, `live` is what the program uses, `queued` is what the program
has freed and the custodian has not passed on. The ledger is in order if each
value in `live` or `queued` is held as often as it is there; then whatever the
custodian passes on from the queue is held (`Ledger.mem_held`).

Key definition: `Ledger`.
Key theorems: `Ledger.handOut`, `Ledger.retire`, `Ledger.reclaim`,
`Ledger.giveBack`.
-/
import Mathlib.Data.List.Count

namespace Cmasan
namespace Lib

variable {α : Type*} [DecidableEq α]

/-- What is live or queued is held, as often as it is there. -/
def Ledger (live queued held : List α) : Prop := ∀ a, live.count a + queued.count a ≤ held.count a

theorem Ledger.nil : Ledger ([] : List α) [] [] := fun _ => Nat.le_refl 0

theorem count_cons_eq (a b : α) (l : List α) : (a :: l).count b = l.count b + if a = b then 1 else 0 := by
  rw [List.count_cons]
  simp

variable {live queued held live' queued' held' : List α} {a : α}

theorem Ledger.handOut (h : Ledger live queued held) (a : α) : Ledger (a :: live) queued (a :: held) := by
  intro b
  have := h b
  rw [count_cons_eq, count_cons_eq]
  omega

/-- The program frees `a`, which is queued. -/
theorem Ledger.retire (h : Ledger live queued held) (hl : live.Perm (a :: live')) :
    Ledger live' (queued ++ [a]) held := by
  intro b
  have h1 := h b
  have h2 := hl.count_eq b
  rw [count_cons_eq] at h2
  rw [List.count_append, count_cons_eq, List.count_nil]
  omega

/-- The program frees `a`, which goes straight back to the allocator. -/
theorem Ledger.giveBack (h : Ledger live queued held) (hl : live.Perm (a :: live'))
    (hh : held.Perm (a :: held')) : Ledger live' queued held' := by
  intro b
  have h1 := h b
  have h2 := hl.count_eq b
  have h3 := hh.count_eq b
  rw [count_cons_eq] at h2 h3
  omega

/-- The allocator takes back `a`, which is neither live nor queued. -/
theorem Ledger.giveBack_other (h : Ledger live queued held) (hl : a ∉ live) (hq : a ∉ queued)
    (hh : held.Perm (a :: held')) : Ledger live queued held' := by
  intro b
  have h1 := h b
  have h3 := hh.count_eq b
  rw [count_cons_eq] at h3
  by_cases hb : a = b
  · subst hb
    rw [List.count_eq_zero.mpr hl, List.count_eq_zero.mpr hq]
    exact Nat.zero_le _
  · rw [if_neg hb] at h3
    omega

/-- Part of the live and queued values are forgotten, and stay held. -/
theorem Ledger.forget (h : Ledger live queued held) (hl : live'.Sublist live)
    (hq : queued'.Sublist queued) : Ledger live' queued' held := fun b =>
  Nat.le_trans (Nat.add_le_add (hl.count_le b) (hq.count_le b)) (h b)

theorem Ledger.mem_held (h : Ledger live queued held) (ha : a ∈ queued) : a ∈ held := by
  have h1 := h a
  have h2 := List.count_pos_iff.mpr ha
  exact List.count_pos_iff.mp (by omega)

theorem Ledger.mem_held_of_live (h : Ledger live queued held) (ha : a ∈ live) : a ∈ held := by
  have h1 := h a
  have h2 := List.count_pos_iff.mpr ha
  exact List.count_pos_iff.mp (by omega)

/-- The custodian passes on `a` from the queue, and the allocator takes it back. -/
theorem Ledger.reclaim (h : Ledger live (a :: queued) held) (hh : held.Perm (a :: held')) :
    Ledger live queued held' := by
  intro b
  have h1 := h b
  have h3 := hh.count_eq b
  rw [count_cons_eq] at h1 h3
  omega

end Lib
end Cmasan
