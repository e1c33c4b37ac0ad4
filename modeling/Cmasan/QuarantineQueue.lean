/-
# Quarantine zones are queues

The abstract quarantine is a list of chunks per id: a push appends, a pop
drops chunks from the front until a valid one, which it returns
(`dropInvalid`). The zones linked by hand refine it: `q.chunks id` is the
list of an id, every operation on the nodes is the operation on the lists, it
touches no other id's zone, and the pop loop ends (`pushPtr_spec`,
`popPtrIfMax_spec`). The counters are words, so they count modulo 2^64.

Key definitions: `Quarantine.chunks`, `Quarantine.Inv`, `dropInvalid`,
`QZone.Counts`.
Key theorems: `pushPtr_spec`, `popLoop_spec`, `popPtrIfMax_spec`,
`pushAndPop_spec`, `emptyQuarantineOnGC_spec`.
-/
import Cmasan.Quarantine
import Mathlib.Data.Nat.ModEq
import Mathlib.Data.List.Perm.Subperm

namespace Cmasan

open Lib

/-- The nodes on an id's queue. -/
def Quarantine.nodes (q : Quarantine) (id : ℕ) : List ℕ := walk q.node q.nextNode (q.zone id).firstChunk

/-- **An id's queue**, oldest chunk first. -/
def Quarantine.chunks (q : Quarantine) (id : ℕ) : List QChunk := (q.nodes id).map fun n => (q.node n).val

/-- The queues are well linked, over nodes in use, and share no node. -/
structure Quarantine.Inv (q : Quarantine) : Prop where
  queue : ∀ id, IsQueue q.node (q.zone id).firstChunk (q.zone id).lastChunk (q.nodes id)
  used : ∀ id, ∀ n ∈ q.nodes id, n < q.nextNode
  apart : ∀ id id' n, n ∈ q.nodes id → n ∈ q.nodes id' → id = id'

/-- The chunks a pop drops before it returns: the pointer of the first valid
one and what is behind it, or 0 and nothing. -/
def dropInvalid (valid : ℕ → Bool) : List QChunk → ℕ × List QChunk
  | [] => (0, [])
  | c :: cs => if valid c.ptr then (c.ptr, cs) else dropInvalid valid cs

/-- The bytes of some chunks. -/
def totalSize (cs : List QChunk) : ℕ := (cs.map (·.size)).sum

/-- What a zone's counters say if they count the chunks `cs`. -/
def QZone.Counts (z : QZone) (cs : List QChunk) : Prop :=
  z.currentCmaQuarantineNum = cs.length % 2 ^ 64 ∧
    z.currentCmaQuarantineSize = totalSize cs % 2 ^ 64

theorem dropInvalid_suffix (valid : ℕ → Bool) : ∀ cs, (dropInvalid valid cs).2 <:+ cs
  | [] => List.suffix_refl _
  | c :: cs => by
    unfold dropInvalid
    split
    · exact List.suffix_cons c cs
    · exact (dropInvalid_suffix valid cs).trans (List.suffix_cons c cs)

theorem dropInvalid_cases (valid : ℕ → Bool) : ∀ cs, (dropInvalid valid cs).1 = 0 ∨
    ∃ pre c, cs = pre ++ c :: (dropInvalid valid cs).2 ∧ c.ptr = (dropInvalid valid cs).1
  | [] => .inl rfl
  | c :: cs => by
    unfold dropInvalid
    split
    · exact .inr ⟨[], c, rfl, rfl⟩
    · rcases dropInvalid_cases valid cs with h | ⟨pre, d, hcs, hd⟩
      · exact .inl h
      · exact .inr ⟨c :: pre, d, by rw [List.cons_append, ← hcs], hd⟩

theorem dropInvalid_cons {valid : ℕ → Bool} {c : QChunk} {cs : List QChunk} (h : valid c.ptr = true) :
    dropInvalid valid (c :: cs) = (c.ptr, cs) := if_pos h

/-! ### Counters -/

theorem uadd_mod (a b : ℕ) : uadd (a % 2 ^ 64) b = (a + b) % 2 ^ 64 := by
  unfold uadd
  rw [Nat.mod_add_mod]

theorem usub_add_mod (a b : ℕ) : usub ((b + a) % 2 ^ 64) b = a % 2 ^ 64 := by
  unfold usub
  omega

theorem QZone.Counts.push {z : QZone} {cs : List QChunk} (h : z.Counts cs) (c : QChunk) :
    uadd z.currentCmaQuarantineNum 1 = (cs ++ [c]).length % 2 ^ 64 ∧
      uadd z.currentCmaQuarantineSize c.size = totalSize (cs ++ [c]) % 2 ^ 64 := by
  rw [h.1, h.2, uadd_mod, uadd_mod]
  simp [totalSize]

theorem QZone.Counts.pop {z : QZone} {c : QChunk} {cs : List QChunk} (h : z.Counts (c :: cs)) :
    usub z.currentCmaQuarantineNum 1 = cs.length % 2 ^ 64 ∧
      usub z.currentCmaQuarantineSize c.size = totalSize cs % 2 ^ 64 := by
  rw [h.1, h.2, totalSize, List.length_cons, List.map_cons, List.sum_cons, Nat.add_comm cs.length 1,
    usub_add_mod, usub_add_mod]
  exact ⟨rfl, rfl⟩

/-! ### Zones -/

/-- Lists of nodes that are well linked are the queues. -/
theorem Quarantine.Inv.of_nodes {q : Quarantine} (ns : ℕ → List ℕ)
    (hq : ∀ id, IsQueue q.node (q.zone id).firstChunk (q.zone id).lastChunk (ns id))
    (hu : ∀ id, ∀ n ∈ ns id, n < q.nextNode) (ha : ∀ id id' n, n ∈ ns id → n ∈ ns id' → id = id') :
    q.Inv ∧ ∀ id, q.nodes id = ns id := by
  have hns : ∀ id, q.nodes id = ns id := fun id => by
    apply walk_eq (hq id).chain
    have hsub : ns id ⊆ List.range q.nextNode := fun n hn => List.mem_range.mpr (hu id n hn)
    simpa using ((hq id).nodup.subperm hsub).length_le
  refine ⟨⟨fun id => ?_, fun id => ?_, fun id id' n => ?_⟩, hns⟩
  · rw [hns]
    exact hq id
  · rw [hns]
    exact hu id
  · rw [hns, hns]
    exact ha id id' n

theorem Quarantine.initial_inv : Quarantine.initial.Inv := by
  refine (Quarantine.Inv.of_nodes (fun _ => []) (fun id => ?_) (fun id n hn => ?_)
    fun id id' n hn => ?_).1
  · exact IsQueue.nil _
  · simp at hn
  · simp at hn

theorem Quarantine.chunks_initial (id : ℕ) : Quarantine.initial.chunks id = [] := rfl

/-- The pointer to an id's zone. -/
def Quarantine.Zoned (q : Quarantine) (id z : ℕ) : Prop := q.zones.map.find id = some z

theorem Quarantine.Zoned.cell {q : Quarantine} {id z : ℕ} (h : q.Zoned id z) : q.zones.cell z = q.zone id := by
  unfold Quarantine.zone Registry.view
  rw [show q.zones.map.find id = some z from h]

theorem Quarantine.Zoned.zone_setZone {q : Quarantine} {id z : ℕ} (h : q.Zoned id z) (zone : QZone)
    (id' : ℕ) : (q.setZone z zone).zone id' = if id' = id then zone else q.zone id' :=
  Registry.view_set h newQuarantineZone zone id'

/-- **`getQuarantineZone`** changes no queue. -/
theorem getQuarantineZone_spec (q : Quarantine) (id : ℕ) :
    ∃ z q', getQuarantineZone q id = (z, q') ∧ q'.Zoned id z ∧ (∀ id', q'.zone id' = q.zone id') ∧
      q'.node = q.node ∧ q'.nextNode = q.nextNode := by
  refine ⟨_, _, rfl, ?_, fun id' => ?_, rfl, rfl⟩
  · exact q.zones.find_getOrCreate newQuarantineZone id
  · exact q.zones.view_getOrCreate newQuarantineZone id id'

theorem Quarantine.Inv.congr {q q' : Quarantine} (h : q.Inv) (hz : ∀ id, q'.zone id = q.zone id)
    (hn : q'.node = q.node) (hx : q'.nextNode = q.nextNode) :
    q'.Inv ∧ (∀ id, q'.nodes id = q.nodes id) ∧ ∀ id, q'.chunks id = q.chunks id := by
  have hnodes : ∀ id, q'.nodes id = q.nodes id := fun id => by
    unfold Quarantine.nodes
    rw [hz, hn, hx]
  refine ⟨⟨fun id => ?_, fun id => ?_, fun id id' n => ?_⟩, hnodes, fun id => ?_⟩
  · rw [hnodes, hz, hn]
    exact h.queue id
  · rw [hnodes, hx]
    exact h.used id
  · rw [hnodes, hnodes]
    exact h.apart id id' n
  · unfold Quarantine.chunks
    rw [hnodes, hn]

/-- **One id's queue is replaced** by nodes it had or that are new. -/
theorem Quarantine.Inv.replace {q : Quarantine} (h : q.Inv) {id z : ℕ} (hz : q.Zoned id z)
    (node' : ℕ → Node QChunk) (nextNode' : ℕ) (zone : QZone) (ns : List ℕ)
    (hqueue : IsQueue node' zone.firstChunk zone.lastChunk ns)
    (hold : ∀ n ∈ ns, n ∈ q.nodes id ∨ q.nextNode ≤ n) (hused : ∀ n ∈ ns, n < nextNode')
    (hnext : q.nextNode ≤ nextNode')
    (hnode : ∀ id', id' ≠ id → ∀ n ∈ q.nodes id', node' n = q.node n) :
    let q' := Quarantine.setZone { q with node := node', nextNode := nextNode' } z zone
    q'.Inv ∧ q'.nodes id = ns ∧ (∀ id', q'.zone id' = if id' = id then zone else q.zone id') ∧
      ∀ id', q'.chunks id' = if id' = id then ns.map fun n => (node' n).val else q.chunks id' := by
  intro q'
  have hzone : ∀ id', q'.zone id' = if id' = id then zone else q.zone id' := fun id' =>
    Quarantine.Zoned.zone_setZone (q := { q with node := node', nextNode := nextNode' }) hz zone id'
  have hother : ∀ id' n, id' ≠ id → n ∈ ns → n ∉ q.nodes id' := fun id' n hid hn hm => by
    rcases hold n hn with hn | hn
    · exact hid (h.apart id' id n hm hn)
    · have := h.used id' n hm
      omega
  obtain ⟨hi, hns⟩ := Quarantine.Inv.of_nodes (q := q') (fun id' => if id' = id then ns else q.nodes id')
    (fun id' => by
      rw [hzone]
      by_cases hid : id' = id
      · rw [if_pos hid, if_pos hid]
        exact hqueue
      · rw [if_neg hid, if_neg hid]
        exact (h.queue id').congr (hnode id' hid))
    (fun id' n hn => by
      split at hn
      · exact hused n hn
      · exact Nat.lt_of_lt_of_le (h.used id' n hn) hnext)
    (fun id₁ id₂ n hn₁ hn₂ => by
      split at hn₁ <;> split at hn₂
      · simp [*]
      · rename_i hid
        exact absurd hn₂ (hother id₂ n hid hn₁)
      · rename_i hid _
        exact absurd hn₁ (hother id₁ n hid hn₂)
      · exact h.apart id₁ id₂ n hn₁ hn₂)
  refine ⟨hi, (hns id).trans (if_pos rfl), hzone, fun id' => ?_⟩
  unfold Quarantine.chunks
  rw [hns]
  by_cases hid : id' = id
  · rw [if_pos hid, if_pos hid]
    rfl
  · rw [if_neg hid, if_neg hid]
    exact List.map_congr_left fun n hn => congrArg Node.val (hnode id' hid n hn)

/-- A queue grows by the next node at its end, and its zone counts it. -/
theorem Quarantine.Inv.append {q : Quarantine} (h : q.Inv) {id z : ℕ} (hz : q.Zoned id z)
    {node' : ℕ → Node QChunk} {first last : Option ℕ} (c : QChunk)
    (hqueue : IsQueue node' first last (q.nodes id ++ [q.nextNode]))
    (hval : ∀ n ∈ q.nodes id, (node' n).val = (q.node n).val) (hnew : (node' q.nextNode).val = c)
    (hother : ∀ id', id' ≠ id → ∀ n ∈ q.nodes id', node' n = q.node n) :
    let q' := Quarantine.setZone { q with node := node', nextNode := q.nextNode + 1 } z
      ⟨uadd (q.zone id).currentCmaQuarantineSize c.size, uadd (q.zone id).currentCmaQuarantineNum 1,
        last, first⟩
    q'.Inv ∧ (∀ id', q'.chunks id' = if id' = id then q.chunks id ++ [c] else q.chunks id') ∧
      (∀ id', id' ≠ id → q'.zone id' = q.zone id') ∧
      (q'.zone id).currentCmaQuarantineSize = uadd (q.zone id).currentCmaQuarantineSize c.size ∧
      (q'.zone id).currentCmaQuarantineNum = uadd (q.zone id).currentCmaQuarantineNum 1 := by
  intro q'
  have hmem : ∀ n ∈ q.nodes id ++ [q.nextNode], n ∈ q.nodes id ∨ n = q.nextNode := fun n hn =>
    (List.mem_append.mp hn).imp_right List.mem_singleton.mp
  obtain ⟨hi, -, hzs, hc⟩ := h.replace hz node' (q.nextNode + 1)
    ⟨uadd (q.zone id).currentCmaQuarantineSize c.size, uadd (q.zone id).currentCmaQuarantineNum 1,
      last, first⟩ (q.nodes id ++ [q.nextNode]) hqueue
    (fun n hn => (hmem n hn).imp_right Eq.ge)
    (fun n hn => by
      rcases hmem n hn with hn | rfl
      · exact Nat.lt_succ_of_lt (h.used id n hn)
      · exact Nat.lt_succ_self _)
    (Nat.le_succ _) hother
  refine ⟨hi, fun id' => ?_, fun id' hid => ?_, ?_, ?_⟩
  · rw [hc, List.map_append, List.map_singleton, List.map_congr_left hval, hnew]
    rfl
  · rw [hzs, if_neg hid]
  · rw [hzs, if_pos rfl]
  · rw [hzs, if_pos rfl]

/-- **`pushPtr` appends to its id's queue.** -/
theorem pushPtr_spec {q : Quarantine} (h : q.Inv) (ptr size id : ℕ) :
    ∃ q', pushPtr q ptr size id = some q' ∧ q'.Inv ∧
      (∀ id', q'.chunks id' = if id' = id then q.chunks id ++ [⟨ptr, size⟩] else q.chunks id') ∧
      (∀ id', id' ≠ id → q'.zone id' = q.zone id') ∧
      (q'.zone id).currentCmaQuarantineSize = uadd (q.zone id).currentCmaQuarantineSize size ∧
      (q'.zone id).currentCmaQuarantineNum = uadd (q.zone id).currentCmaQuarantineNum 1 := by
  obtain ⟨z, q₁, he, hz, hzone, hnode, hnext⟩ := getQuarantineZone_spec q id
  obtain ⟨h₁, hnodes, hch⟩ := h.congr hzone hnode hnext
  simp only [← hzone, ← hch]
  have hq := h₁.queue id
  have hne : ∀ id', ∀ n ∈ q₁.nodes id', n ≠ q₁.nextNode := fun id' n hn => (h₁.used id' n hn).ne
  have hfresh : q₁.nextNode ∉ q₁.nodes id := fun hm => hne id _ hm rfl
  set node' := Function.update q₁.node q₁.nextNode ⟨none, ⟨ptr, size⟩⟩ with hnode'
  have hold : ∀ id', ∀ n ∈ q₁.nodes id', node' n = q₁.node n := fun id' n hn =>
    Function.update_of_ne (hne id' n hn) _ _
  have hnew : node' q₁.nextNode = ⟨none, ⟨ptr, size⟩⟩ := by rw [hnode', Function.update_self]
  unfold pushPtr
  rw [he]
  simp only [hz.cell]
  rcases hf : (q₁.zone id).firstChunk with _ | first
  · -- the queue was empty
    have hnil : q₁.nodes id = [] := hq.eq_nil_iff.mp hf
    have hqueue : IsQueue node' (some q₁.nextNode) (some q₁.nextNode) (q₁.nodes id ++ [q₁.nextNode]) := by
      rw [hnil]
      exact IsQueue.push_nil (by rw [hnew])
    exact ⟨_, rfl, h₁.append hz ⟨ptr, size⟩ hqueue (fun n hn => congrArg Node.val (hold id n hn))
      (congrArg Node.val hnew) fun id' _ => hold id'⟩
  · -- the new node is linked behind the last one
    have hns : q₁.nodes id ≠ [] := fun hn => by simp [hq.eq_nil_iff.mpr hn] at hf
    obtain ⟨last, hl⟩ : ∃ last, (q₁.zone id).lastChunk = some last := by
      rw [hq.last_eq]
      exact ⟨_, List.getLast?_eq_some_getLast hns⟩
    have hlast : last ∈ q₁.nodes id := List.mem_of_getLast? (hq.last_eq ▸ hl)
    have hq' : IsQueue node' (some first) (some last) (q₁.nodes id) := hf ▸ hl ▸ hq.congr (hold id)
    simp only [hl]
    refine ⟨_, rfl, h₁.append hz ⟨ptr, size⟩ (hq'.push_cons hfresh (by rw [hnew])) (fun n hn => ?_) ?_
      fun id' hid n hn => ?_⟩
    · -- the link of the last node changes, its chunk does not
      rw [← congrArg Node.val (hold id n hn)]
      by_cases hnl : n = last
      · rw [hnl, Function.update_self]
      · rw [Function.update_of_ne hnl]
    · rw [Function.update_of_ne (hne id last hlast).symm]
      exact congrArg Node.val hnew
    · have hnl : n ≠ last := fun he => hid (h₁.apart id' id n hn (he ▸ hlast))
      exact (Function.update_of_ne hnl _ _).trans (hold id' n hn)

/-! ### Pops -/

theorem Quarantine.Inv.unlink {q : Quarantine} (h : q.Inv) {id z n : ℕ} {ns : List ℕ} (hz : q.Zoned id z)
    (hns : q.nodes id = n :: ns) :
    let zone := q.zone id
    let isLast := zone.firstChunk = zone.lastChunk
    let q' := q.setZone z ⟨usub zone.currentCmaQuarantineSize (q.node n).val.size,
      usub zone.currentCmaQuarantineNum 1, if isLast then none else zone.lastChunk,
      if isLast then none else (q.node n).next⟩
    q'.Inv ∧ q'.nodes id = ns ∧ (∀ id', id' ≠ id → q'.zone id' = q.zone id') ∧
      (∀ id', id' ≠ id → q'.chunks id' = q.chunks id') ∧ q.chunks id = (q.node n).val :: q'.chunks id ∧
      ((q.zone id).Counts (q.chunks id) → (q'.zone id).Counts (q'.chunks id)) := by
  intro zone isLast q'
  have hmem : ∀ m ∈ ns, m ∈ q.nodes id := fun m hm => hns ▸ List.mem_cons_of_mem n hm
  have hpop := (hns ▸ h.queue id).pop
  obtain ⟨hi, hns', hzs, hc⟩ := h.replace hz q.node q.nextNode
    ⟨usub zone.currentCmaQuarantineSize (q.node n).val.size, usub zone.currentCmaQuarantineNum 1,
      if isLast then none else zone.lastChunk, if isLast then none else (q.node n).next⟩ ns hpop
    (fun m hm => .inl (hmem m hm)) (fun m hm => h.used id m (hmem m hm)) (le_refl _) fun _ _ _ _ => rfl
  have hch : q.chunks id = (q.node n).val :: q'.chunks id := by
    show (q.nodes id).map _ = _
    rw [hc, if_pos rfl, hns, List.map_cons]
  refine ⟨hi, hns', fun id' hid => ?_, fun id' hid => ?_, hch, fun hcnt => ?_⟩
  · rw [hzs, if_neg hid]
  · rw [hc, if_neg hid]
  · rw [hch] at hcnt
    have hpopped := hcnt.pop
    unfold QZone.Counts
    rw [hzs, if_pos rfl]
    exact hpopped

/-- **The pop loop** drops the oldest chunks up to the first valid one. -/
theorem popLoop_spec (t : Tlt) {id z fuel : ℕ} {q : Quarantine} (h : q.Inv) (hz : q.Zoned id z)
    (hf : (q.nodes id).length ≤ fuel) :
    ∃ q', popLoop t id z fuel q = some ((dropInvalid (isChunkValid t · id) (q.chunks id)).1, q') ∧
      q'.Inv ∧ (∀ id', id' ≠ id → q'.zone id' = q.zone id') ∧
      (∀ id', q'.chunks id' =
        if id' = id then (dropInvalid (isChunkValid t · id) (q.chunks id)).2 else q.chunks id') ∧
      ((q.zone id).Counts (q.chunks id) → (q'.zone id).Counts (q'.chunks id)) := by
  induction hns : q.nodes id generalizing q fuel with
  | nil =>
    have hch : q.chunks id = [] := by
      unfold Quarantine.chunks
      rw [hns, List.map_nil]
    unfold popLoop
    simp only [hz.cell]
    rw [(h.queue id).eq_nil_iff.mpr hns, hch]
    refine ⟨q, rfl, h, fun _ _ => rfl, fun id' => ?_, fun hc => hch ▸ hc⟩
    split
    · rename_i hid
      rw [hid, hch]
      rfl
    · rfl
  | cons n ns ih =>
    rw [hns, List.length_cons] at hf
    obtain ⟨fuel, rfl⟩ : ∃ k, fuel = k + 1 := Nat.exists_eq_add_one.mpr (by omega)
    have hfirst : (q.zone id).firstChunk = some n := (hns ▸ h.queue id).chain.1
    obtain ⟨hi, hns', hzs, hother, hch, hcounts⟩ := h.unlink hz hns
    rcases hn : q.node n with ⟨next, ptr, size⟩
    rw [hn, hfirst] at hi hns' hzs hother hch hcounts
    unfold popLoop
    simp only [hz.cell, hfirst, hn]
    set q₁ := Quarantine.setZone q z _
    by_cases hv : isChunkValid t ptr id = true
    · -- the oldest chunk is returned
      rw [if_pos hv, hch, dropInvalid_cons hv]
      refine ⟨q₁, rfl, hi, hzs, fun id' => ?_, hch ▸ hcounts⟩
      split
      · rename_i hid
        rw [hid]
      · rename_i hid
        exact hother id' hid
    · -- it is dropped, and the loop goes on
      have hd : dropInvalid (isChunkValid t · id) (q.chunks id) =
          dropInvalid (isChunkValid t · id) (q₁.chunks id) := by
        rw [hch]
        exact if_neg hv
      have hlen : (q₁.nodes id).length ≤ fuel := by
        rw [hns']
        omega
      obtain ⟨q', he, hi', hz', hc', hcnt'⟩ := ih hi (by exact hz) hlen hns'
      rw [if_neg hv, hd]
      refine ⟨q', he, hi', fun id' hid => (hz' id' hid).trans (hzs id' hid), fun id' => ?_,
        fun hcnt => hcnt' (hcounts hcnt)⟩
      rw [hc']
      split
      · rfl
      · rename_i hid
        exact hother id' hid

/-- A zone is full when it is at one of its limits. -/
def QZone.Full (F : Flags) (z : QZone) : Prop :=
  F.quarantineSize ≤ z.currentCmaQuarantineSize ∨ F.quarantineNum ≤ z.currentCmaQuarantineNum

instance (F : Flags) (z : QZone) : Decidable (z.Full F) := by unfold QZone.Full; infer_instance

/-- What `popPtrIfMax` does to a queue: the pointer it returns and the chunks it leaves. -/
def popped (F : Flags) (t : Tlt) (z : QZone) (id : ℕ) (cs : List QChunk) : ℕ × List QChunk :=
  if z.Full F then dropInvalid (isChunkValid t · id) cs else (0, cs)

/-- **`popPtrIfMax`** returns and changes its own id's queue only. -/
theorem popPtrIfMax_spec (F : Flags) (t : Tlt) {q : Quarantine} (h : q.Inv) (id : ℕ) :
    ∃ q', popPtrIfMax F t q id = some ((popped F t (q.zone id) id (q.chunks id)).1, q') ∧ q'.Inv ∧
      (∀ id', id' ≠ id → q'.zone id' = q.zone id') ∧
      (∀ id', q'.chunks id' =
        if id' = id then (popped F t (q.zone id) id (q.chunks id)).2 else q.chunks id') ∧
      ((q.zone id).Counts (q.chunks id) → (q'.zone id).Counts (q'.chunks id)) := by
  obtain ⟨z, q₁, he, hz, hzone, hnode, hnext⟩ := getQuarantineZone_spec q id
  obtain ⟨h₁, hnodes, hch⟩ := h.congr hzone hnode hnext
  unfold popPtrIfMax popped
  rw [he]
  simp only [hz.cell, hzone]
  by_cases hfull : (q.zone id).Full F
  · rw [if_neg (by unfold QZone.Full at hfull; omega), if_pos hfull]
    have hlen : (q₁.nodes id).length ≤ q₁.nextNode := by
      have hsub : q₁.nodes id ⊆ List.range q₁.nextNode := fun n hn => List.mem_range.mpr (h₁.used id n hn)
      simpa using ((h₁.queue id).nodup.subperm hsub).length_le
    obtain ⟨q', he', hi, hz', hc', hcnt⟩ := popLoop_spec t h₁ hz hlen
    simp only [hch, hzone] at he' hz' hc' hcnt
    exact ⟨q', he', hi, hz', hc', hcnt⟩
  · rw [if_pos (by unfold QZone.Full at hfull; omega), if_neg hfull]
    refine ⟨q₁, rfl, h₁, fun id' _ => hzone id', fun id' => ?_, fun hc => ?_⟩
    · rw [hch]
      split
      · rename_i hid
        rw [hid]
      · rfl
    · rw [hzone, hch]
      exact hc

/-- The chunk that `pushAndPopFromQuarantine` pushes for an info. -/
def ChunkInfo.queued (i : ChunkInfo) (ptr : ℕ) : QChunk := ⟨ptr, uadd i.chunkSize i.rzSize⟩

theorem popped_cases (F : Flags) (t : Tlt) (z : QZone) (id : ℕ) (cs : List QChunk) :
    (popped F t z id cs).1 = 0 ∨
      ∃ pre c, cs = pre ++ c :: (popped F t z id cs).2 ∧ c.ptr = (popped F t z id cs).1 := by
  unfold popped
  split
  · exact dropInvalid_cases _ cs
  · exact .inl rfl

/-- **`pushAndPopFromQuarantine`** of a tracked pointer pops, then pushes it,
on its chunk's id. -/
theorem pushAndPop_spec {F : Flags} (hon : F.isQuarantineZoneOn = true) {t : Tlt} {q : Quarantine}
    (h : q.Inv) {ptr c : ℕ} (hget : tltGet t ptr = some c) :
    let id := (t.info c).cmaId
    let r := popped F t (q.zone id) id (q.chunks id)
    ∃ q', pushAndPopFromQuarantine F t q ptr = some (r.1, q') ∧ q'.Inv ∧
      (∀ id', q'.chunks id' =
        if id' = id then r.2 ++ [(t.info c).queued ptr] else q.chunks id') ∧
      (∀ id', id' ≠ id → q'.zone id' = q.zone id') ∧
      ((q.zone id).Counts (q.chunks id) → (q'.zone id).Counts (q'.chunks id)) := by
  intro id r
  obtain ⟨q₁, he₁, hi₁, hz₁, hch₁, hcnt₁⟩ := popPtrIfMax_spec F t h id
  obtain ⟨q₂, he₂, hi₂, hch₂, hz₂, hsize, hnum⟩ :=
    pushPtr_spec hi₁ ptr (uadd (t.info c).chunkSize (t.info c).rzSize) id
  have hch : ∀ id', q₂.chunks id' =
      if id' = id then r.2 ++ [(t.info c).queued ptr] else q.chunks id' := fun id' => by
    rw [hch₂, hch₁, hch₁, if_pos rfl]
    by_cases hid : id' = id
    · rw [if_pos hid, if_pos hid]
      rfl
    · rw [if_neg hid, if_neg hid, if_neg hid]
  refine ⟨q₂, ?_, hi₂, hch, fun id' hid => by rw [hz₂ id' hid, hz₁ id' hid], fun hc => ?_⟩
  · unfold pushAndPopFromQuarantine
    rw [if_pos hon, hget]
    simp only
    rw [he₁, Option.bind_some, he₂]
    rfl
  · have hp := (hcnt₁ hc).push ((t.info c).queued ptr)
    have h₁ := hch₁ id
    rw [if_pos rfl] at h₁
    rw [hch, if_pos rfl]
    rw [h₁] at hp
    exact ⟨hnum.trans hp.1, hsize.trans hp.2⟩

theorem popped_suffix (F : Flags) (t : Tlt) (z : QZone) (id : ℕ) (cs : List QChunk) :
    (popped F t z id cs).2 <:+ cs := by
  unfold popped
  split
  · exact dropInvalid_suffix _ cs
  · exact List.suffix_refl cs

/-! ### The collection -/

/-- **`__asan_emptyQuarantineOnGC`** empties the queue, and leaves the zone's number as it was. -/
theorem emptyQuarantineOnGC_spec (F : Flags) {q : Quarantine} (h : q.Inv) (a : Registry AllocListZone)
    (id : ℕ) :
    (emptyQuarantineOnGC F q a id).1.Inv ∧
      (∀ id', (emptyQuarantineOnGC F q a id).1.chunks id' =
        if F.isQuarantineZoneOn ∧ id' = id then [] else q.chunks id') ∧
      ∀ id', (emptyQuarantineOnGC F q a id).1.zone id' =
        if F.isQuarantineZoneOn ∧ id' = id then
          ⟨0, (q.zone id).currentCmaQuarantineNum, none, none⟩ else q.zone id' := by
  unfold emptyQuarantineOnGC
  simp only
  by_cases hon : F.isQuarantineZoneOn = true
  · obtain ⟨z, q₁, he, hz, hzone, hnode, hnext⟩ := getQuarantineZone_spec q id
    obtain ⟨h₁, hnodes, hch⟩ := h.congr hzone hnode hnext
    simp only [hon, if_true, true_and]
    rw [he]
    simp only [hz.cell, hzone]
    obtain ⟨hi, -, hzs, hc⟩ := h₁.replace hz q₁.node q₁.nextNode
      ⟨0, (q.zone id).currentCmaQuarantineNum, none, none⟩ [] (.nil _) (fun n hn => by simp at hn)
      (fun n hn => by simp at hn) (le_refl _) fun _ _ _ _ => rfl
    refine ⟨hi, fun id' => ?_, fun id' => ?_⟩
    · rw [← hch]
      exact hc id'
    · rw [hzs, hzone]
  · simp [hon, h]

end Cmasan
