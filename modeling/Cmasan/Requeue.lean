/-
# A reported double free goes through the quarantine

`ReportDoubleFree` returns when errors do not halt, and `releaseCMAChunkImpl`
goes on as if it had found a live chunk: the release marks the chunk again,
pops, and pushes the pointer that is queued already. The pointer is then
queued, or passed on to the allocator, once more than before, whatever the
queue holds (`released_again_count`). Its entries only stay as many as they
were when the pop of the same call takes one of them out, which is when the
zone is full and the pointer is the first valid one in it (`FirstOut`).

Key definitions: `Quarantine.times`, `FirstOut`.
Key theorems: `dropInvalid_count`, `released_again_count`,
`double_free_requeued_iff`.
-/
import Cmasan.Detection
import Cmasan.QuarantineFifo

namespace Cmasan

open Lib

/-- How often a pointer is queued under an id. -/
def Quarantine.times (q : Quarantine) (id ptr : ℕ) : ℕ := ((q.chunks id).map (·.ptr)).count ptr

/-- The id's zone is full, and the pointer is the first valid one in it. -/
def FirstOut (F : Flags) (t : Tlt) (q : Quarantine) (ptr id : ℕ) : Prop :=
  (q.zone id).Full F ∧ ((q.chunks id).map (·.ptr)).find? (isChunkValid t · id) = some ptr

instance (F : Flags) (t : Tlt) (q : Quarantine) (ptr id : ℕ) : Decidable (FirstOut F t q ptr id) := by
  unfold FirstOut; infer_instance

/-! ### What a pop takes out -/

section Pop

variable {valid : ℕ → Bool} {p : ℕ}

theorem dropInvalid_eq_iff (hp : p ≠ 0) : ∀ cs : List QChunk,
    (dropInvalid valid cs).1 = p ↔ (cs.map (·.ptr)).find? valid = some p
  | [] => iff_of_false hp.symm (by simp)
  | c :: cs => by
    rw [List.map_cons, List.find?_cons]
    by_cases hv : valid c.ptr = true
    · rw [dropInvalid_cons hv, hv]
      simp
    · rw [dropInvalid, if_neg hv, Bool.eq_false_of_not_eq_true hv]
      exact dropInvalid_eq_iff hp cs

/-- **A valid pointer is never dropped**: its entries are left in the queue,
apart from the one that is returned. -/
theorem dropInvalid_count (hp : valid p = true) (h0 : p ≠ 0) : ∀ cs : List QChunk,
    ((dropInvalid valid cs).2.map (·.ptr)).count p + (if (dropInvalid valid cs).1 = p then 1 else 0) =
      (cs.map (·.ptr)).count p
  | [] => by
    have hne : ¬ 0 = p := h0.symm
    simp [dropInvalid, hne]
  | c :: cs => by
    rw [List.map_cons, List.count_cons]
    by_cases hv : valid c.ptr = true
    · rw [dropInvalid_cons hv]
      simp only [beq_iff_eq]
    · have hne : ¬ c.ptr = p := fun he => hv (he ▸ hp)
      rw [dropInvalid, if_neg hv, dropInvalid_count hp h0 cs]
      simp [hne]

variable {F : Flags} {t : Tlt} {q : Quarantine} {id : ℕ}

theorem popped_eq_iff (h0 : p ≠ 0) :
    (popped F t (q.zone id) id (q.chunks id)).1 = p ↔ FirstOut F t q p id := by
  unfold popped FirstOut
  by_cases hf : (q.zone id).Full F
  · rw [if_pos hf, dropInvalid_eq_iff h0, and_iff_right hf]
  · rw [if_neg hf]
    exact iff_of_false h0.symm fun hn => hf hn.1

theorem popped_count (hp : isChunkValid t p id = true) (h0 : p ≠ 0) :
    ((popped F t (q.zone id) id (q.chunks id)).2.map (·.ptr)).count p +
      (if (popped F t (q.zone id) id (q.chunks id)).1 = p then 1 else 0) = q.times id p := by
  unfold popped Quarantine.times
  by_cases hf : (q.zone id).Full F
  · simp only [if_pos hf]
    exact @dropInvalid_count (isChunkValid t · id) p hp h0 _
  · rw [if_neg hf, if_neg h0.symm, Nat.add_zero]

end Pop

/-! ### The release after the report -/

/-- A write that keeps a chunk's status, id and start changes no pointer's validity. -/
theorem isChunkValid_congr {t : Tlt} {c p : ℕ} {i : ChunkInfo} (hget : tltGet t p = some c)
    (hs : i.status ≠ .none) (hst : i.status = (t.info c).status) (hid : i.cmaId = (t.info c).cmaId)
    (hstart : i.startAddr = (t.info c).startAddr) : isChunkValid (t.setInfo c i) = isChunkValid t := by
  funext q id
  unfold isChunkValid
  rw [tltGet_setInfo hget hs]
  cases tltGet t q with
  | none => rfl
  | some d =>
    simp only [info_setInfo]
    by_cases hd : d = c
    · subst hd
      rw [if_pos rfl, hst, hid, hstart]
    · rw [if_neg hd]

/-- **What a release of a freed pointer queues**: the pointer once more under
its id, unless the pop of the same call hands it out. -/
theorem released_again_count {F : Flags} {k : Caller} {s s' : State} {p id r : ℕ}
    (hon : F.isQuarantineZoneOn = true) (h : s.Inv) (hfb : FreedBefore F k s.tlt p id)
    (he : releaseCMAChunk F k s p id false = some (r, s')) :
    (r = p ↔ FirstOut F s.tlt s.qz p id) ∧
      s'.qz.times id p + (if r = p then 1 else 0) = s.qz.times id p + 1 ∧
      ∀ id', id' ≠ id → s'.qz.times id' p = s.qz.times id' p := by
  obtain ⟨c, hget, hstart, hst, hid, -⟩ := hfb
  have hp : p ≠ 0 := (tltGet_eq_some.mp hget).1
  obtain ⟨i, hr, hi⟩ : ∃ i, Retired F s s' p r c i ∧ i = (s.tlt.info c).released k id := by
    refine ⟨_, (releaseCMAChunk_retires hget hstart (fun _ => ?_) he).1, rfl⟩
    rw [hst]
    decide
  have hne : i.status ≠ .none := by simp [hi, ChunkInfo.released]
  -- to the quarantine the table is as it was
  have hvalid : isChunkValid s'.tlt = isChunkValid s.tlt := by
    rw [hr.tlt]
    apply isChunkValid_congr hget hne
    · rw [hi, hst]
      rfl
    · rw [hi, hid]
      rfl
    · rw [hi]
      rfl
  have hv : isChunkValid s'.tlt p id = true := by
    rw [hvalid]
    exact isChunkValid_iff.mpr ⟨c, hget, hst, hid, hstart⟩
  have hget' : tltGet s'.tlt p = some c := (hr.tltGet_eq hne p).trans hget
  have hinfo : s'.tlt.info c = i := hr.info
  have hcid : i.cmaId = id := by
    rw [hi]
    rfl
  obtain ⟨q', hpop, -, hch, -⟩ := pushAndPop_spec hon h.qz hget'
  rw [hinfo, hcid] at hpop hch
  obtain ⟨hret, hqz⟩ := Prod.mk.inj (Option.some.inj (hr.popped.symm.trans hpop))
  refine ⟨?_, ?_, fun id' hne => ?_⟩
  · rw [hret, popped_eq_iff hp]
    unfold FirstOut
    rw [hvalid]
  · have hcount := popped_count (F := F) (q := s.qz) hv hp
    have hlast : ([i.queued p].map (·.ptr)).count p = 1 := List.count_singleton_self
    unfold Quarantine.times at hcount ⊢
    rw [hqz, hch, if_pos rfl, List.map_append, List.count_append, hlast, hret]
    omega
  · unfold Quarantine.times
    rw [hqz, hch, if_neg hne]

/-- **When a reported double free queues nothing more.** A release that
reports leaves its pointer in no zone more often than before exactly if the
pointer was the first to be popped from a full zone of its id. Either way it
is queued, or passed on, once more than before. -/
theorem double_free_requeued_iff {F : Flags} {k : Caller} {s s' : State} {p id r : ℕ}
    (hon : F.isQuarantineZoneOn = true) (h : HookReachable F s)
    (he : releaseCMAChunk F k s p id false = some (r, s')) (hrep : reportsOf s'.log ≠ reportsOf s.log) :
    ((∀ id', s'.qz.times id' p ≤ s.qz.times id' p) ↔ FirstOut F s.tlt s.qz p id) ∧
      s'.qz.times id p + (if r = p then 1 else 0) = s.qz.times id p + 1 := by
  have hfb : FreedBefore F k s.tlt p id := by
    by_contra hno
    apply hrep
    rw [releaseCMAChunk_reports h.inv he, if_neg fun hn => hno hn.2.2, List.append_nil]
  obtain ⟨hfirst, hcount, hother⟩ := released_again_count hon h.inv hfb he
  refine ⟨?_, hcount⟩
  rw [← hfirst]
  constructor
  · intro hle
    by_contra hr
    rw [if_neg hr] at hcount
    have := hle id
    omega
  · intro hr id'
    rw [if_pos hr] at hcount
    by_cases hid : id' = id
    · rw [hid]
      omega
    · exact (hother id' hid).le

/-- A full zone of one chunk: the release that reports hands that chunk out and
queues it again. -/
theorem double_free_requeued_full :
    ∃ s s' r, HookRun oneChunkFlags
        [.allocate {} 0x602000000010 16 1 1 false, .release {} 0x602000000010 1 false] s ∧
      releaseCMAChunk oneChunkFlags {} s 0x602000000010 1 false = some (r, s') ∧
      reportsOf s'.log ≠ reportsOf s.log ∧ ∀ id', s'.qz.times id' 0x602000000010 ≤ s.qz.times id' 0x602000000010 := by
  have h : ((exec (hookStep oneChunkFlags) (fun _ _ => True) .initial
      [.allocate {} 0x602000000010 16 1 1 false, .release {} 0x602000000010 1 false]).bind fun s =>
      (releaseCMAChunk oneChunkFlags {} s 0x602000000010 1 false).map fun x =>
        decide (reportsOf x.2.log ≠ reportsOf s.log ∧ FirstOut oneChunkFlags s.tlt s.qz 0x602000000010 1)) =
      some true := by
    decide +kernel
  obtain ⟨s, hs, h⟩ := Option.bind_eq_some_iff.mp h
  obtain ⟨⟨r, s'⟩, he, h⟩ := Option.map_eq_some_iff.mp h
  obtain ⟨hrep, hfirst⟩ := of_decide_eq_true h
  have hrun := runs_of_exec hs
  exact ⟨s, s', r, hrun, he, hrep, (double_free_requeued_iff rfl ⟨_, hrun⟩ he hrep).1.mpr hfirst⟩

/-- Allocated and freed twice: the second free is reported, and the pointer is
in the quarantine twice. -/
theorem double_free_queues_twice :
    ∃ s s' r, HookRun defaultFlags
        [.allocate {} 0x602000000010 16 1 1 false, .release {} 0x602000000010 1 false] s ∧
      releaseCMAChunk defaultFlags {} s 0x602000000010 1 false = some (r, s') ∧
      reportsOf s'.log = reportsOf s.log ++ [0x602000000010] ∧
      s.qz.times 1 0x602000000010 = 1 ∧ s'.qz.times 1 0x602000000010 = 2 := by
  have h : ((exec (hookStep defaultFlags) (fun _ _ => True) .initial
      [.allocate {} 0x602000000010 16 1 1 false, .release {} 0x602000000010 1 false]).bind fun s =>
      (releaseCMAChunk defaultFlags {} s 0x602000000010 1 false).map fun x =>
        decide (reportsOf x.2.log = reportsOf s.log ++ [0x602000000010] ∧ s.qz.times 1 0x602000000010 = 1 ∧
          x.2.qz.times 1 0x602000000010 = 2)) = some true := by
    decide +kernel
  obtain ⟨s, hs, h⟩ := Option.bind_eq_some_iff.mp h
  obtain ⟨⟨r, s'⟩, he, h⟩ := Option.map_eq_some_iff.mp h
  exact ⟨s, s', r, runs_of_exec hs, he, of_decide_eq_true h⟩

end Cmasan
