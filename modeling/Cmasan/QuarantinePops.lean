/-
# What a pop takes from a zone

Below both limits `popPtrIfMax` takes nothing. Otherwise the loop unlinks
exactly the shortest prefix of the queue that ends in a chunk which
`isChunkValid` accepts, and returns that chunk's pointer, or empties the queue
and returns 0. The comparison of the two ends that finds the last chunk reads
no node that was freed, and leaves the ends right, so that the next push
appends behind what remains.

Key theorems: `dropInvalid_spec`, `popPtrIfMax_cases`, `popPtrIfMax_fifo`.
-/
import Cmasan.QuarantineCounts

namespace Cmasan

open Lib

theorem dropInvalid_spec (valid : ℕ → Bool) : ∀ cs,
    (∃ pre c, cs = pre ++ c :: (dropInvalid valid cs).2 ∧ (∀ d ∈ pre, valid d.ptr = false) ∧
      valid c.ptr = true ∧ (dropInvalid valid cs).1 = c.ptr) ∨
    ((∀ d ∈ cs, valid d.ptr = false) ∧ dropInvalid valid cs = (0, []))
  | [] => .inr ⟨fun d hd => by simp at hd, rfl⟩
  | c :: cs => by
    by_cases hv : valid c.ptr = true
    · rw [dropInvalid_cons hv]
      exact .inl ⟨[], c, rfl, fun d hd => by simp at hd, hv, rfl⟩
    · have hskip : dropInvalid valid (c :: cs) = dropInvalid valid cs := if_neg hv
      have hc : valid c.ptr = false := Bool.not_eq_true _ ▸ hv
      rw [hskip]
      rcases dropInvalid_spec valid cs with ⟨pre, d, hcs, hpre, hd, hr⟩ | ⟨hall, hr⟩
      · refine .inl ⟨c :: pre, d, by rw [List.cons_append, ← hcs], fun x hx => ?_, hd, hr⟩
        rcases List.mem_cons.mp hx with rfl | hx
        · exact hc
        · exact hpre x hx
      · refine .inr ⟨fun x hx => ?_, hr⟩
        rcases List.mem_cons.mp hx with rfl | hx
        · exact hc
        · exact hall x hx

theorem popPtrIfMax_below {F : Flags} (t : Tlt) {q : Quarantine} {id : ℕ} (hfull : ¬ (q.zone id).Full F) :
    ∃ q', popPtrIfMax F t q id = some (0, q') ∧ q'.node = q.node ∧ q'.nextNode = q.nextNode ∧
      (∀ id', q'.zone id' = q.zone id') ∧ ∀ z, q.Zoned id z → q' = q := by
  obtain ⟨z, q₁, he, hz, hzone, hnode, hnext⟩ := getQuarantineZone_spec q id
  refine ⟨q₁, ?_, hnode, hnext, hzone, fun z' hz' => ?_⟩
  · unfold popPtrIfMax
    rw [he]
    simp only [hz.cell, hzone]
    exact if_pos (by unfold QZone.Full at hfull; omega)
  · unfold getQuarantineZone Registry.getOrCreate at he
    rw [show q.zones.map.find id = some z' from hz'] at he
    exact (Prod.mk.inj he).2.symm

theorem popPtrIfMax_cases {F : Flags} (t : Tlt) {q : Quarantine} (h : q.Inv) {id : ℕ}
    (hfull : (q.zone id).Full F) :
    ∃ r q', popPtrIfMax F t q id = some (r, q') ∧ q'.Inv ∧
      ((∃ pre c, q.chunks id = pre ++ c :: q'.chunks id ∧ (∀ d ∈ pre, isChunkValid t d.ptr id = false) ∧
          isChunkValid t c.ptr id = true ∧ r = c.ptr) ∨
        ((∀ d ∈ q.chunks id, isChunkValid t d.ptr id = false) ∧ q'.chunks id = [] ∧ r = 0)) ∧
      ∀ id', id' ≠ id → q'.zone id' = q.zone id' ∧ q'.chunks id' = q.chunks id' := by
  obtain ⟨q', he, hi, hzone, hch, -⟩ := popPtrIfMax_spec F t h id
  have hpop : popped F t (q.zone id) id (q.chunks id) = dropInvalid (isChunkValid t · id) (q.chunks id) :=
    if_pos hfull
  have hmine := hch id
  rw [if_pos rfl, hpop] at hmine
  rw [hpop] at he
  refine ⟨_, q', he, hi, ?_, fun id' hid => ⟨hzone id' hid, by rw [hch, if_neg hid]⟩⟩
  rcases dropInvalid_spec (isChunkValid t · id) (q.chunks id) with ⟨pre, c, hcs, hpre, hc, hr⟩ | ⟨hall, hr⟩
  · rw [← hmine] at hcs
    exact .inl ⟨pre, c, hcs, hpre, hc, hr⟩
  · rw [hr] at hmine
    exact .inr ⟨hall, hmine, by rw [hr]⟩

/-- **A zone is a first-in first-out queue.** In every quarantine that pushes,
pops and collections reach, for every table: a pop below both limits returns 0
and changes nothing; one at a limit removes exactly the shortest prefix of the
queue that ends in a valid chunk and returns its pointer, or empties the queue
and returns 0, and leaves every other zone alone; and after either the ends
of the zone are both null or the ends of the chain of what remains, and a push
appends behind it. -/
theorem popPtrIfMax_fifo (F : Flags) {es : List QzOp} {s : Quarantine × Registry AllocListZone}
    (hrun : QzRun F es s) (t : Tlt) (id : ℕ) :
    (¬ (s.1.zone id).Full F → ∃ q', popPtrIfMax F t s.1 id = some (0, q') ∧ q'.node = s.1.node ∧
      q'.nextNode = s.1.nextNode ∧ (∀ id', q'.zone id' = s.1.zone id') ∧ ∀ z, s.1.Zoned id z → q' = s.1) ∧
    ((s.1.zone id).Full F → ∃ r q', popPtrIfMax F t s.1 id = some (r, q') ∧
      ((∃ pre c, s.1.chunks id = pre ++ c :: q'.chunks id ∧
          (∀ d ∈ pre, isChunkValid t d.ptr id = false) ∧ isChunkValid t c.ptr id = true ∧ r = c.ptr) ∨
        ((∀ d ∈ s.1.chunks id, isChunkValid t d.ptr id = false) ∧ q'.chunks id = [] ∧ r = 0)) ∧
      ∀ id', id' ≠ id → q'.zone id' = s.1.zone id' ∧ q'.chunks id' = s.1.chunks id') ∧
    ∀ r q', popPtrIfMax F t s.1 id = some (r, q') →
      Chain q'.node (q'.zone id).firstChunk (q'.nodes id) ∧
      ((q'.nodes id = [] ∧ (q'.zone id).firstChunk = none ∧ (q'.zone id).lastChunk = none) ∨
        ∃ n m, (q'.zone id).firstChunk = some n ∧ (q'.zone id).lastChunk = some m ∧
          (q'.nodes id).head? = some n ∧ (q'.nodes id).getLast? = some m ∧ (q'.node m).next = none) ∧
      ∀ ptr size, ∃ q'', pushPtr q' ptr size id = some q'' ∧
        q''.chunks id = q'.chunks id ++ [⟨ptr, size⟩] ∧
        IsQueue q''.node (q''.zone id).firstChunk (q''.zone id).lastChunk (q''.nodes id) := by
  have hinv : s.1.Inv := by
    apply Runs.invariant (I := fun s => s.1.Inv) _ Quarantine.initial_inv hrun
    intro s₁ s₂ op h₁ _ he
    obtain ⟨s', he', hi⟩ := qzStep_spec F h₁ op
    exact Option.some.inj (he'.symm.trans he) ▸ hi
  refine ⟨popPtrIfMax_below t, fun hfull => ?_, fun r q' he => ?_⟩
  · obtain ⟨r, q', he, -, hcase, hother⟩ := popPtrIfMax_cases t hinv hfull
    exact ⟨r, q', he, hcase, hother⟩
  · obtain ⟨q₁, he₁, hi, -⟩ := popPtrIfMax_spec F t hinv id
    obtain ⟨-, rfl⟩ := Prod.mk.inj (Option.some.inj (he₁.symm.trans he))
    refine ⟨(hi.queue id).chain, (hi.queue id).ends, fun ptr size => ?_⟩
    obtain ⟨q'', hp, hi', hch, -⟩ := pushPtr_spec hi ptr size id
    have hmine := hch id
    rw [if_pos rfl] at hmine
    exact ⟨q'', hp, hmine, hi'.queue id⟩

/-- Two chunks in a zone for one, which the table does not know: both go. -/
theorem popPtrIfMax_fifo_stale :
    ∃ s q', QzRun oneChunkFlags [.push 0x602000000010 32 1, .push 0x602000000030 32 1] s ∧
      s.1.chunks 1 = [⟨0x602000000010, 32⟩, ⟨0x602000000030, 32⟩] ∧
      popPtrIfMax oneChunkFlags initializeTlt s.1 1 = some (0, q') ∧ q'.chunks 1 = [] ∧
      ∃ q'', pushPtr q' 0x602000000050 32 1 = some q'' ∧ q''.chunks 1 = [⟨0x602000000050, 32⟩] := by
  have h : ((exec (qzStep oneChunkFlags) (fun _ _ => True) (.initial, .empty newAllocListZone)
      [.push 0x602000000010 32 1, .push 0x602000000030 32 1]).map fun s =>
        (s.1.chunks 1, decide ((s.1.zone 1).Full oneChunkFlags))) =
          some ([⟨0x602000000010, 32⟩, ⟨0x602000000030, 32⟩], true) := by
    decide +kernel
  obtain ⟨s, hs, h⟩ := Option.map_eq_some_iff.mp h
  obtain ⟨hch, hfull⟩ := Prod.mk.inj h
  have hrun : QzRun oneChunkFlags [.push 0x602000000010 32 1, .push 0x602000000030 32 1] s := runs_of_exec hs
  obtain ⟨-, hfifo, hafter⟩ := popPtrIfMax_fifo oneChunkFlags hrun initializeTlt 1
  have hno : ∀ ptr, isChunkValid initializeTlt ptr 1 = false := fun ptr => by
    unfold isChunkValid tltGet
    split_ifs <;> rfl
  obtain ⟨r, q', he, hcase, -⟩ := hfifo (of_decide_eq_true hfull)
  rcases hcase with ⟨pre, c, -, -, hv, -⟩ | ⟨-, hempty, rfl⟩
  · rw [hno] at hv
    cases hv
  · obtain ⟨q'', hp, hpush, -⟩ := (hafter 0 q' he).2.2 0x602000000050 32
    rw [hempty] at hpush
    exact ⟨s, q', hrun, hch, he, hempty, q'', hp, hpush⟩

end Cmasan
