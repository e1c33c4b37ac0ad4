/-
# The quarantine hands back what it got, in order

On runs of tracked objects without a `CLEAR`, the quarantine of an id is a
queue in the strict sense: the pointers pushed so far are those passed on to
the allocator so far, followed by those still queued, in the same order
(`pushes_eq_passed_append_queued`). The pop revalidates what it takes from the
queue against the table, which every hand-out and every `realloc` rewrites. It
drops nothing, as each queued pointer is that of a held object that is not
live (`World.Fifo`): a new region is apart from what is held, so that its
entries leave the first granule of a queued object alone, and a `realloc`
changes the status of a live object only.

Key definitions: `Entered`, `World.Fifo`, `OnlyFrees`.
Key theorems: `World.Fifo.free`, `World.Fifo.step`,
`pushes_eq_passed_append_queued`.
-/
import Cmasan.World

namespace Cmasan

open Lib

/-! ### Entries -/

/-- The table has the object as a chunk of its own. -/
def Entered (t : Tlt) (o : Obj) : Prop :=
  ∃ c, tltGet t o.ptr = some c ∧ (t.info c).startAddr = o.ptr ∧ (t.info c).cmaId = o.id

theorem isChunkValid_iff {t : Tlt} {p id : ℕ} : isChunkValid t p id = true ↔
    ∃ c, tltGet t p = some c ∧ (t.info c).status = .deallocated ∧ (t.info c).cmaId = id ∧
      (t.info c).startAddr = p := by
  unfold isChunkValid
  cases tltGet t p with
  | none => simp
  | some c => simp

section Entries

variable {t t' : Tlt} {c p lo hi : ℕ} {i : ChunkInfo} {o : Obj}

theorem Entered.setInfo (h : Entered t o) (hget : tltGet t p = some c) (hs : i.status ≠ .none)
    (hstart : i.startAddr = (t.info c).startAddr) (hid : i.cmaId = (t.info c).cmaId) :
    Entered (t.setInfo c i) o := by
  obtain ⟨d, hd, h1, h2⟩ := h
  refine ⟨d, by rw [tltGet_setInfo hget hs, hd], ?_⟩
  rw [info_setInfo]
  split
  · rename_i he
    subst he
    exact ⟨hstart.trans h1, hid.trans h2⟩
  · exact ⟨h1, h2⟩

theorem isChunkValid_setInfo {q id : ℕ} (h : isChunkValid t q id = true) (hget : tltGet t p = some c)
    (hs : i.status ≠ .none) (hstart : i.startAddr = (t.info c).startAddr)
    (hid : i.cmaId = (t.info c).cmaId) (hst : i.status = .deallocated ∨ (t.info c).startAddr ≠ q) :
    isChunkValid (t.setInfo c i) q id = true := by
  obtain ⟨d, hd, h1, h2, h3⟩ := isChunkValid_iff.mp h
  refine isChunkValid_iff.mpr ⟨d, by rw [tltGet_setInfo hget hs, hd], ?_⟩
  rw [info_setInfo]
  split
  · rename_i he
    subst he
    exact ⟨hst.resolve_right fun hne => hne h3, hid.trans h2, hstart.trans h3⟩
  · exact ⟨h1, h2, h3⟩

theorem Inserted.get_info (h : Inserted t t' i lo hi) (ht : t.Inv) {a : ℕ}
    (ha : ¬ (lo ≤ granule a ∧ granule a < hi)) (hget : tltGet t a = some c) :
    tltGet t' a = some c ∧ (t'.info c).core = (t.info c).core :=
  ⟨(h.get_outside ht ha).trans hget, h.old c (ht.used _ _ (tltGet_eq_some.mp hget).2.1).ne⟩

theorem Entered.inserted (h : Entered t o) (ht : t.Inv) (hins : Inserted t t' i lo hi)
    (hout : ¬ (lo ≤ granule o.ptr ∧ granule o.ptr < hi)) : Entered t' o := by
  obtain ⟨c, hget, h1, h2⟩ := h
  obtain ⟨hget', hcore⟩ := hins.get_info ht hout hget
  exact ⟨c, hget', (congrArg ChunkInfo.startAddr hcore).trans h1,
    (congrArg ChunkInfo.cmaId hcore).trans h2⟩

theorem isChunkValid_inserted {q id : ℕ} (h : isChunkValid t q id = true) (ht : t.Inv)
    (hins : Inserted t t' i lo hi) (hout : ¬ (lo ≤ granule q ∧ granule q < hi)) :
    isChunkValid t' q id = true := by
  obtain ⟨c, hget, h1, h2, h3⟩ := isChunkValid_iff.mp h
  obtain ⟨hget', hcore⟩ := hins.get_info ht hout hget
  exact isChunkValid_iff.mpr ⟨c, hget', (congrArg ChunkInfo.status hcore).trans h1,
    (congrArg ChunkInfo.cmaId hcore).trans h2, (congrArg ChunkInfo.startAddr hcore).trans h3⟩

end Entries

theorem popped_of_valid {F : Flags} {t : Tlt} {z : QZone} {id : ℕ} {cs : List QChunk}
    (h : ∀ c ∈ cs, isChunkValid t c.ptr id = true) :
    (popped F t z id cs).1 = 0 ∧ (popped F t z id cs).2 = cs ∨
      ∃ c, cs = c :: (popped F t z id cs).2 ∧ (popped F t z id cs).1 = c.ptr := by
  unfold popped
  split
  · cases cs with
    | nil => exact .inl ⟨rfl, rfl⟩
    | cons c cs =>
      have hv : (isChunkValid t · id) c.ptr = true := h c List.mem_cons_self
      rw [dropInvalid_cons hv]
      exact .inr ⟨c, rfl, rfl⟩
  · exact .inl ⟨rfl, rfl⟩

/-! ### The invariant -/

/-- **What holds between events**: the held objects are entered, each at its
own pointer, and the queued pointers are those of held objects that are not
live, released and valid. -/
structure World.Fifo (F : Flags) (w : World) : Prop where
  inv : w.st.Inv
  tracked : ∀ o ∈ w.held, o.Tracked F.rz
  entered : ∀ o ∈ w.held, Entered w.st.tlt o
  distinct : (w.held.map (·.ptr)).Nodup
  live : ∀ o ∈ w.live, o ∈ w.held
  ledger : ∀ id, Ledger (w.live.map (·.ptr)) (w.queued id) (w.held.map (·.ptr))
  valid : ∀ id, ∀ p ∈ w.queued id, isChunkValid w.st.tlt p id = true
  fifo : ∀ id, pushesOf id w.st.log = (w.frees.filter (·.id = id)).map (·.ptr) ++ w.queued id

theorem World.initial_fifo (F : Flags) : World.initial.Fifo F where
  inv := State.initial_inv
  tracked o ho := by simp [World.initial] at ho
  entered o ho := by simp [World.initial] at ho
  distinct := List.nodup_nil
  live o ho := by simp [World.initial] at ho
  ledger _ := Ledger.nil
  valid id p hp := by simp [World.queued, World.initial, State.initial, Quarantine.chunks_initial] at hp
  fifo id := rfl

section Steps

variable {F : Flags} {w : World} {st : State}

theorem World.queued_congr (hq : st.qz = w.st.qz) (id : ℕ) :
    World.queued { w with st := st } id = w.queued id := by
  unfold World.queued
  rw [hq]

theorem World.Fifo.not_queued (h : w.Fifo F) {o : Obj} (ho : o ∈ w.live) (id : ℕ) : o.ptr ∉ w.queued id := by
  intro hq
  have h1 := h.ledger id o.ptr
  have h2 := List.count_pos_iff.mpr (List.mem_map_of_mem (f := (·.ptr)) ho)
  have h3 := List.count_pos_iff.mpr hq
  have h4 := List.nodup_iff_count_le_one.mp h.distinct o.ptr
  omega

theorem World.Fifo.live_nodup (h : w.Fifo F) : w.live.Nodup := by
  refine List.Nodup.of_map (·.ptr) (List.nodup_iff_count_le_one.mpr fun p => ?_)
  have h1 := h.ledger 0 p
  have h2 := List.nodup_iff_count_le_one.mp h.distinct p
  omega

theorem World.Fifo.queued_id (h : w.Fifo F) {p id id' : ℕ} (hp : p ∈ w.queued id) (hp' : p ∈ w.queued id') :
    id = id' := by
  obtain ⟨c, hc, -, h1, -⟩ := isChunkValid_iff.mp (h.valid id p hp)
  obtain ⟨c', hc', -, h2, -⟩ := isChunkValid_iff.mp (h.valid id' p hp')
  obtain rfl : c = c' := Option.some.inj (hc.symm.trans hc')
  exact h1.symm.trans h2

theorem World.Fifo.same (h : w.Fifo F) (hs : State.Same w.st st) : World.Fifo F { w with st := st } where
  inv := h.inv.congr hs.tlt hs.qz
  tracked := h.tracked
  entered o ho := by
    show Entered st.tlt o
    exact hs.tlt ▸ h.entered o ho
  distinct := h.distinct
  live := h.live
  ledger id := World.queued_congr hs.qz id ▸ h.ledger id
  valid id p hp := by
    show isChunkValid st.tlt p id = true
    rw [hs.tlt]
    exact h.valid id p (World.queued_congr hs.qz id ▸ hp)
  fifo id := by
    rw [World.queued_congr hs.qz]
    exact (hs.pushes id).trans (h.fifo id)

/-- A change of the status of a chunk that is not queued, or that stays released. -/
theorem World.Fifo.setInfo (h : w.Fifo F) {c p : ℕ} {i : ChunkInfo} (hget : tltGet w.st.tlt p = some c)
    (hs : i.status ≠ .none) (hstart : i.startAddr = (w.st.tlt.info c).startAddr)
    (hid : i.cmaId = (w.st.tlt.info c).cmaId)
    (hst : i.status = .deallocated ∨ ∀ id, (w.st.tlt.info c).startAddr ∉ w.queued id)
    (hi : st.Inv) (ht : st.tlt = w.st.tlt.setInfo c i) (hq : st.qz = w.st.qz)
    (hp : ∀ id, pushesOf id st.log = pushesOf id w.st.log) : World.Fifo F { w with st := st } where
  inv := hi
  tracked := h.tracked
  entered o ho := by
    show Entered st.tlt o
    exact ht ▸ (h.entered o ho).setInfo hget hs hstart hid
  distinct := h.distinct
  live := h.live
  ledger id := World.queued_congr hq id ▸ h.ledger id
  valid id q hm := by
    rw [World.queued_congr hq] at hm
    show isChunkValid st.tlt q id = true
    rw [ht]
    exact isChunkValid_setInfo (h.valid id q hm) hget hs hstart hid
      (hst.imp_right fun hn he => hn id (he ▸ hm))
  fifo id := by
    rw [World.queued_congr hq]
    exact (hp id).trans (h.fifo id)

/-! ### The events -/

/-- **A hand-out** apart from what is held. -/
theorem World.Fifo.handOut (h : w.Fifo F) {k : Caller} {o : Obj} (ho : o.Tracked F.rz)
    (hap : ∀ o' ∈ w.held, o.Apart F.rz o')
    (he : allocateCMAChunkImpl F k w.st o.ptr o.size o.granularity o.id = some st) :
    (World.handOut { w with st := st } o).Fifo F := by
  obtain ⟨hquiet, hcase⟩ := allocateCMAChunkImpl_cases h.inv ho.fits he
  have hins : Inserted w.st.tlt st.tlt (newChunk o.ptr (o.size * o.granularity)
      (trackedEnd F.rz o.ptr o.size o.granularity - o.ptr - o.size * o.granularity) o.id k.stackId k.tid)
      (o.ptr / 8) (trackedEnd F.rz o.ptr o.size o.granularity / 8) := by
    rcases hcase with ⟨-, hext, -⟩ | ⟨-, hins, -⟩ | ⟨hz, -⟩
    · exact absurd hext ho.extended
    · exact hins
    · exact absurd hz ho.nonempty
  -- the held objects' own granules are outside
  have hout : ∀ o' ∈ w.held, ¬ (o.ptr / 8 ≤ granule o'.ptr ∧
      granule o'.ptr < trackedEnd F.rz o.ptr o.size o.granularity / 8) := fun o' ho' =>
    (hap o' ho').granule_outside ho (h.tracked o' ho').fits (h.tracked o' ho').nonempty
  have hnew : Entered st.tlt o := by
    obtain ⟨hlo, hhi⟩ := ho.granule_inside
    exact ⟨w.st.tlt.nextInfo, hins.get_inside (by simp [newChunk]) ho.fits.ptr_ne hlo hhi,
      congrArg ChunkInfo.startAddr hins.new, congrArg ChunkInfo.cmaId hins.new⟩
  have hmem : ∀ id, ∀ p ∈ w.queued id, ∃ o' ∈ w.held, o'.ptr = p := fun id p hp =>
    List.mem_map.mp ((h.ledger id).mem_held hp)
  exact
    { inv := allocateCMAChunkImpl_inv h.inv he
      tracked := List.forall_mem_cons.mpr ⟨ho, h.tracked⟩
      entered := List.forall_mem_cons.mpr
        ⟨hnew, fun o' ho' => (h.entered o' ho').inserted h.inv.tlt hins (hout o' ho')⟩
      distinct := by
        refine List.nodup_cons.mpr ⟨fun hm => ?_, h.distinct⟩
        obtain ⟨o', ho', hp⟩ := List.mem_map.mp hm
        have htr := h.tracked o' ho'
        refine (hap o' ho').granule_ne ho.fits ho.nonempty htr.fits htr.nonempty ?_
        exact congrArg granule hp.symm
      live := List.forall_mem_cons.mpr
        ⟨List.mem_cons_self, fun o' ho' => List.mem_cons_of_mem o (h.live o' ho')⟩
      ledger := fun id => by
        have := (h.ledger id).handOut o.ptr
        rwa [← World.queued_congr hquiet.qz] at this
      valid := fun id p hp => by
        have hp' : p ∈ w.queued id := by rwa [← World.queued_congr hquiet.qz]
        obtain ⟨o', ho', rfl⟩ := hmem id p hp'
        exact isChunkValid_inserted (h.valid id _ hp') h.inv.tlt hins (hout o' ho')
      fifo := fun id => by
        have := (hquiet.pushes id).trans (h.fifo id)
        rwa [← World.queued_congr hquiet.qz] at this }

/-- What the release of a live object `o` does to the entries and the queues;
`r` is the pointer it returns. -/
structure World.Pushed (w : World) (st : State) (o : Obj) (r : ℕ) : Prop where
  inv : st.Inv
  entered : ∀ o', Entered w.st.tlt o' → Entered st.tlt o'
  valid : ∀ id p, isChunkValid w.st.tlt p id = true → isChunkValid st.tlt p id = true
  new : isChunkValid st.tlt o.ptr o.id = true
  pushes : ∀ id, pushesOf id st.log = pushesOf id w.st.log ++ if id = o.id then [o.ptr] else []
  other : ∀ id, id ≠ o.id → (st.qz.chunks id).map (·.ptr) = w.queued id
  popped : ∃ left, (st.qz.chunks o.id).map (·.ptr) = left ++ [o.ptr] ∧
    w.queued o.id = if r = 0 then left else r :: left

theorem World.Fifo.release (hon : F.isQuarantineZoneOn = true) (h : w.Fifo F) {k : Caller} {o : Obj}
    {b : Bool} {r : ℕ} (ho : o ∈ w.live)
    (hb : b = true → ∃ c, tltGet w.st.tlt o.ptr = some c ∧ (w.st.tlt.info c).status = .inRealloc)
    (hr : releaseCMAChunk F k w.st o.ptr o.id b = some (r, st)) : w.Pushed st o r := by
  obtain ⟨c, hget, hstart, hid⟩ := h.entered o (h.live o ho)
  -- the chunk is marked as released, and goes through the quarantine
  obtain ⟨i, hret, his, hi1, hi2⟩ : ∃ i, Retired F w.st st o.ptr r c i ∧ i.status = .deallocated ∧
      i.startAddr = o.ptr ∧ i.cmaId = o.id := by
    rcases releaseCMAChunk_cases hr with ⟨-, -, h0 | ⟨hbt, hno⟩ | hno⟩ | ⟨d, -, -, hret, -⟩ | ⟨d, -, -, hret, -⟩
    · exact absurd h0 (h.tracked o (h.live o ho)).fits.ptr_ne
    · obtain ⟨d, hd, hst⟩ := hb hbt
      exact absurd hst (hno hon d hd)
    · exact absurd hstart (hno c hget)
    · obtain rfl : c = d := Option.some.inj (hget.symm.trans hret.get)
      exact ⟨_, hret, rfl, hstart, hid⟩
    · obtain rfl : c = d := Option.some.inj (hget.symm.trans hret.get)
      exact ⟨_, hret, rfl, hstart, rfl⟩
  have hne : i.status ≠ .none := by simp [his]
  have hval : ∀ id q, isChunkValid w.st.tlt q id = true → isChunkValid st.tlt q id = true := fun id q h' =>
    hret.tlt ▸ isChunkValid_setInfo h' hget hne (hi1.trans hstart.symm) (hi2.trans hid.symm) (.inl his)
  have hgets : tltGet st.tlt o.ptr = some c := (hret.tltGet_eq hne o.ptr).trans hget
  have hinfo : st.tlt.info c = i := hret.info
  obtain ⟨q', hp, -, hch, -⟩ := pushAndPop_spec hon h.inv.qz hgets
  rw [hinfo, hi2] at hp hch
  obtain ⟨hr', hq'⟩ := Prod.mk.inj (Option.some.inj (hp.symm.trans hret.popped))
  refine
    { inv := releaseCMAChunk_inv h.inv hr
      entered := fun o' h' =>
        hret.tlt ▸ h'.setInfo hget hne (hi1.trans hstart.symm) (hi2.trans hid.symm)
      valid := hval
      new := isChunkValid_iff.mpr ⟨c, hgets, hinfo ▸ his, hinfo ▸ hi2, hinfo ▸ hi1⟩
      pushes := fun id => by
        rw [hret.pushes, hi2]
        simp [hon, eq_comm]
      other := fun id hne => by
        rw [← hq', hch, if_neg hne]
        rfl
      popped := ⟨(popped F st.tlt (w.st.qz.zone o.id) o.id (w.st.qz.chunks o.id)).2.map (·.ptr), ?_, ?_⟩ }
  · rw [← hq', hch, if_pos rfl, List.map_append]
    rfl
  · -- all that is queued is valid
    have hvalid : ∀ c ∈ w.st.qz.chunks o.id, isChunkValid st.tlt c.ptr o.id = true := fun c hc =>
      hval o.id _ (h.valid o.id _ (List.mem_map_of_mem hc))
    rcases popped_of_valid (F := F) (z := w.st.qz.zone o.id) hvalid with ⟨h0, hcs⟩ | ⟨d, hcs, hd⟩
    · rw [if_pos (hr'.symm.trans h0), hcs]
      rfl
    · have hd0 : r ≠ 0 := by
        obtain ⟨c', hc', -⟩ := isChunkValid_iff.mp (hvalid d (hcs ▸ List.mem_cons_self))
        rw [← hr', hd]
        exact (tltGet_eq_some.mp hc').1
      rw [if_neg hd0, ← hr', hd, ← List.map_cons, ← hcs]
      rfl

theorem World.Pushed.isChunkValid {o : Obj} {r : ℕ} (hpush : w.Pushed st o r) (h : w.Fifo F) (id p : ℕ)
    (hp : p ∈ (st.qz.chunks id).map (·.ptr)) : isChunkValid st.tlt p id = true := by
  obtain ⟨left, hnew, hold⟩ := hpush.popped
  by_cases hid : id = o.id
  · subst hid
    have hsub : left ⊆ w.queued o.id := by
      rw [hold]
      split
      · exact List.Subset.refl _
      · exact List.subset_cons_self _ _
    rw [hnew] at hp
    rcases List.mem_append.mp hp with hp | hp
    · exact hpush.valid _ p (h.valid _ p (hsub hp))
    · exact List.mem_singleton.mp hp ▸ hpush.new
  · rw [hpush.other id hid] at hp
    exact hpush.valid id p (h.valid id p hp)

theorem World.Pushed.kept {o : Obj} (hpush : w.Pushed st o 0) (h : w.Fifo F) (ho : o ∈ w.live) :
    World.Fifo F { w with st := st, live := w.live.erase o } := by
  obtain ⟨left, hnew, hold⟩ := hpush.popped
  rw [if_pos rfl] at hold
  exact
    { inv := hpush.inv
      tracked := h.tracked
      entered := fun o' ho' => hpush.entered o' (h.entered o' ho')
      distinct := h.distinct
      live := fun o' ho' => h.live o' (List.mem_of_mem_erase ho')
      ledger := fun id => by
        show Ledger _ ((st.qz.chunks id).map (·.ptr)) _
        by_cases hid : id = o.id
        · subst hid
          rw [hnew, ← hold]
          exact (h.ledger _).retire ((List.perm_cons_erase ho).map (·.ptr))
        · rw [hpush.other id hid]
          exact (h.ledger id).forget (List.erase_sublist.map _) (List.Sublist.refl _)
      valid := hpush.isChunkValid h
      fifo := fun id => by
        show pushesOf id st.log = _ ++ (st.qz.chunks id).map (·.ptr)
        rw [hpush.pushes, h.fifo]
        by_cases hid : id = o.id
        · subst hid
          rw [if_pos rfl, hnew, ← hold, List.append_assoc]
        · rw [if_neg hid, hpush.other id hid, List.append_nil] }

theorem World.Pushed.passed {o : Obj} {r : ℕ} (hpush : w.Pushed st o r) (h : w.Fifo F) (ho : o ∈ w.live)
    (hr : r ≠ 0) : (World.passOn { w with st := st, live := w.live.erase o } o.id r).Fifo F := by
  obtain ⟨left, hnew, hold⟩ := hpush.popped
  rw [if_neg hr] at hold
  have hq : r ∈ w.queued o.id := hold ▸ List.mem_cons_self
  obtain ⟨o₂, ho₂, hptr, hpass⟩ := World.passOn_held
    (w := { w with st := st, live := w.live.erase o }) o.id hr ((h.ledger o.id).mem_held hq)
  have hheld : (w.held.map (·.ptr)).Perm (r :: (w.held.erase o₂).map (·.ptr)) :=
    hptr ▸ (List.perm_cons_erase ho₂).map (·.ptr)
  rw [hpass]
  exact
    { inv := hpush.inv
      tracked := fun o' ho' => h.tracked o' (List.mem_of_mem_erase ho')
      entered := fun o' ho' => hpush.entered o' (h.entered o' (List.mem_of_mem_erase ho'))
      distinct := h.distinct.sublist (List.erase_sublist.map _)
      live := fun o' ho' => by
        have hlive : o' ∈ w.live := List.mem_of_mem_erase ho'
        have hne : o' ≠ o₂ := by
          rintro rfl
          exact h.not_queued hlive o.id (hptr ▸ hq)
        exact (List.mem_erase_of_ne hne).mpr (h.live o' hlive)
      ledger := fun id => by
        show Ledger _ ((st.qz.chunks id).map (·.ptr)) _
        by_cases hid : id = o.id
        · subst hid
          have hret := (h.ledger o.id).retire ((List.perm_cons_erase ho).map (·.ptr))
          rw [hold] at hret
          rw [hnew]
          exact hret.reclaim hheld
        · rw [hpush.other id hid]
          refine ((h.ledger id).forget (List.erase_sublist.map _) (List.Sublist.refl _)).giveBack_other
            (fun hm => ?_) (fun hm => hid (h.queued_id hm hq)) hheld
          obtain ⟨o', ho', hp⟩ := List.mem_map.mp hm
          have hp' : o'.ptr = r := hp
          exact h.not_queued (List.mem_of_mem_erase ho') o.id (hp' ▸ hq)
      valid := hpush.isChunkValid h
      fifo := fun id => by
        show pushesOf id st.log =
          ((w.frees ++ [(⟨o.id, r, true⟩ : Passed)]).filter (·.id = id)).map (·.ptr) ++
            (st.qz.chunks id).map (·.ptr)
        by_cases hid : id = o.id
        · subst hid
          calc pushesOf o.id st.log
              = ((w.frees.filter (·.id = o.id)).map (·.ptr) ++ r :: left) ++ [o.ptr] := by
                rw [hpush.pushes, h.fifo, if_pos rfl, hold]
            _ = ((w.frees.filter (·.id = o.id)).map (·.ptr) ++ [r]) ++ (left ++ [o.ptr]) := by simp
            _ = _ := by rw [hnew]; simp
        · rw [hpush.pushes, h.fifo, if_neg hid, hpush.other id hid]
          simp [Ne.symm hid] }

/-- **A free** of a live object pushes its pointer, and passes on the oldest
one or none. -/
theorem World.Fifo.free (hon : F.isQuarantineZoneOn = true) (h : w.Fifo F) {k : Caller} {o : Obj} {b : Bool}
    {w' : World} (ho : o ∈ w.live)
    (hb : b = true → ∃ c, tltGet w.st.tlt o.ptr = some c ∧ (w.st.tlt.info c).status = .inRealloc)
    (he : w.free F k o b = some w') : w'.Fifo F ∧ Entered w'.st.tlt o := by
  obtain ⟨r, st, hr, rfl⟩ := World.free_cases he
  have hpush := h.release hon ho hb hr
  refine ⟨?_, by rw [World.passOn_st]; exact hpush.entered o (h.entered o (h.live o ho))⟩
  by_cases hr0 : r = 0
  · subst hr0
    rw [World.passOn_zero]
    exact hpush.kept h ho
  · exact hpush.passed h ho hr0

/-- **The start of a `realloc`** of a live object changes its status only. -/
theorem World.Fifo.start (h : w.Fifo F) {o : Obj} (ho : o ∈ w.live) :
    World.Fifo F { w with st := reallocateCMAChunkStart F w.st o.ptr false o.id } ∧
      ∃ c, tltGet (reallocateCMAChunkStart F w.st o.ptr false o.id).tlt o.ptr = some c ∧
        ((reallocateCMAChunkStart F w.st o.ptr false o.id).tlt.info c).status = .inRealloc := by
  obtain ⟨c, hget, hstart, hid⟩ := h.entered o (h.live o ho)
  obtain ⟨ht, -, hq, hp, -⟩ := reallocateCMAChunkStart_tracked F o.id hget
  refine ⟨h.setInfo (i := { w.st.tlt.info c with status := .inRealloc }) hget (by simp) rfl rfl (.inr fun id => ?_)
    (reallocateCMAChunkStart_inv h.inv o.ptr o.id false) ht hq hp, c, ?_, ?_⟩
  · rw [hstart]
    exact h.not_queued ho id
  · rw [ht, tltGet_setInfo hget (by simp), hget]
  · rw [ht, info_setInfo, if_pos rfl]

/-- **The old chunk at the end of a `realloc`**, queued or not, becomes released. -/
theorem World.Fifo.releaseOld (h : w.Fifo F) {k : Caller} {o : Obj} {newPtr : ℕ}
    (ho : Entered w.st.tlt o) (he : releaseOldChunk F k w.st o.ptr newPtr o.id = some st) :
    World.Fifo F { w with st := st } := by
  obtain ⟨c, hget, hstart, hid⟩ := ho
  have hi := releaseOldChunk_inv h.inv he
  obtain ⟨hquiet, hcase⟩ := releaseOldChunk_cases he
  rcases hcase with ⟨hn, -⟩ | ⟨d, hd, ⟨-, rfl⟩ | ⟨-, -, ht, -⟩ | ⟨-, hno, -⟩⟩
  · rw [hget] at hn
    cases hn
  · obtain rfl : c = d := Option.some.inj (hget.symm.trans hd)
    exact h.setInfo (i := { w.st.tlt.info c with status := .deallocated }) hget (by simp) rfl rfl
      (.inl rfl) hi rfl hquiet.qz hquiet.pushes
  · obtain rfl : c = d := Option.some.inj (hget.symm.trans hd)
    exact h.setInfo (i := (w.st.tlt.info c).released k o.id) hget (by simp [ChunkInfo.released]) rfl
      hid.symm (.inl rfl) hi ht hquiet.qz hquiet.pushes
  · obtain rfl : c = d := Option.some.inj (hget.symm.trans hd)
    exact absurd hstart hno

/-- **The old object of a `realloc`** is not live any more; one that the
allocator takes back itself was not freed inside. -/
theorem World.Fifo.dropOld (h : w.Fifo F) {old : Obj} {freesOld : Bool}
    (hold : freesOld = true → old ∈ w.live) : (w.dropOld old freesOld).Fifo F := by
  have hsub : ((w.live.erase old).map (·.ptr)).Sublist (w.live.map (·.ptr)) := List.erase_sublist.map _
  have hheld : ∀ o ∈ (w.dropOld old freesOld).held, o ∈ w.held := fun o ho => by
    unfold World.dropOld at ho
    cases freesOld with
    | false => exact ho
    | true => exact List.mem_of_mem_erase ho
  exact
    { inv := h.inv
      tracked := fun o ho => h.tracked o (hheld o ho)
      entered := fun o ho => h.entered o (hheld o ho)
      distinct := by
        unfold World.dropOld
        cases freesOld with
        | false => exact h.distinct
        | true => exact h.distinct.sublist (List.erase_sublist.map _)
      live := fun o ho => by
        obtain ⟨hne, hmem⟩ := h.live_nodup.mem_erase_iff.mp ho
        unfold World.dropOld
        cases freesOld with
        | false => exact h.live o hmem
        | true => exact (List.mem_erase_of_ne hne).mpr (h.live o hmem)
      ledger := fun id => by
        unfold World.dropOld
        cases hf : freesOld with
        | false => exact (h.ledger id).forget hsub (List.Sublist.refl _)
        | true =>
          exact (h.ledger id).giveBack ((List.perm_cons_erase (hold hf)).map (·.ptr))
            ((List.perm_cons_erase (h.live old (hold hf))).map (·.ptr))
      valid := h.valid
      fifo := h.fifo }

/-- **The end of a `realloc`** that succeeds. -/
theorem World.Fifo.finish (h : w.Fifo F) {k : Caller} {old new : Obj} {freesOld : Bool} {s₁ s₂ : State}
    (hent : Entered w.st.tlt old) (hold : freesOld = true → old ∈ w.live) (hnew : new.Tracked F.rz)
    (hap : ∀ o ∈ (w.dropOld old freesOld).held, new.Apart F.rz o)
    (h₁ : releaseOldChunk F k (w.st.lock F) old.ptr new.ptr old.id = some s₁)
    (h₂ : allocateCMAChunkImpl F k s₁ new.ptr new.size new.granularity new.id = some s₂) :
    ((World.dropOld { w with st := s₂.unlock F } old freesOld).handOut new).Fifo F := by
  have hlock : World.Fifo F { w with st := w.st.lock F } := h.same (State.Same.lock F)
  have hrel : World.Fifo F { w with st := s₁ } := hlock.releaseOld (by simpa using hent) h₁
  have hout := (hrel.dropOld hold).handOut hnew hap h₂
  exact hout.same (State.Same.unlock F)

end Steps

/-- Nothing but a free takes an object away from the program. -/
def OnlyFrees : WorldEvent → Prop
  | .clear _ _ | .gc _ | .reclaim _ => False
  | _ => True

instance : ∀ e : WorldEvent, Decidable (OnlyFrees e)
  | .clear _ _ | .gc _ | .reclaim _ => .isFalse id
  | .allocate _ _ | .release _ _ | .realloc _ _ _ _ _ _ | .reallocNull _ _ => .isTrue trivial

/-- **Every event keeps the order.** -/
theorem World.Fifo.step {F : Flags} (hon : F.isQuarantineZoneOn = true) {w w' : World} {e : WorldEvent}
    (h : w.Fifo F) (hlegal : w.Legal F World.held e) (htrack : ∀ o ∈ e.handsOut, o.Tracked F.rz)
    (honly : OnlyFrees e) (he : w.step F e = some w') : w'.Fifo F := by
  cases e with
  | allocate k o =>
    obtain ⟨st, hst, rfl⟩ := Option.map_eq_some_iff.mp he
    obtain ⟨s₁, h₁, rfl⟩ := allocateCMAChunk_impl hlegal.1 hst
    have hlock : World.Fifo F { w with st := w.st.lock F } := h.same (State.Same.lock F)
    exact (hlock.handOut (htrack o rfl) hlegal.2 h₁).same (State.Same.unlock F)
  | release k o => exact (h.free hon hlegal (fun hb => by cases hb) he).1
  | realloc k₁ k₂ old nested freesOld new =>
    obtain ⟨hlive, hfrees, hnew⟩ := hlegal
    obtain ⟨w₁, h₁, he⟩ := Option.bind_eq_some_iff.mp he
    obtain ⟨st, h₂, rfl⟩ := Option.map_eq_some_iff.mp he
    obtain ⟨hstart, hst⟩ := h.start hlive
    -- the free inside, if there is one
    obtain ⟨hw₁, hent, hold⟩ : w₁.Fifo F ∧ Entered w₁.st.tlt old ∧ (freesOld = true → old ∈ w₁.live) := by
      cases nested with
      | none =>
        obtain rfl := Option.some.inj h₁
        exact ⟨hstart, hstart.entered old (hstart.live old hlive), fun _ => hlive⟩
      | some b =>
        obtain ⟨hw, hent⟩ := hstart.free hon (b := b) hlive (fun _ => hst) h₁
        exact ⟨hw, hent, fun hf => by simp [hfrees rfl] at hf⟩
    by_cases hp : new.ptr = 0
    · rcases reallocateCMAChunkEnd_cases h₂ with ⟨-, rfl⟩ | ⟨hne, -⟩
      · rw [if_pos hp]
        split
        · rename_i hf
          exact hw₁.dropOld fun _ => hold hf
        · exact hw₁
      · exact absurd hp hne
    · obtain ⟨hid, hap⟩ := hnew hp
      have htr : new.Tracked F.rz := htrack new (if_neg hp)
      rw [if_neg hp]
      rcases reallocateCMAChunkEnd_cases h₂ with ⟨h0 | h0, -⟩ | ⟨-, -, s₁, s₂, hs₁, hs₂, rfl⟩
      · exact absurd h0 hp
      · exact absurd h0 htr.request.size_ne
      · rw [← hid] at hs₂
        exact hw₁.finish hent hold htr (hap w₁ h₁) hs₁ hs₂
  | reallocNull k o =>
    obtain ⟨st, h₂, rfl⟩ := Option.map_eq_some_iff.mp he
    have htr : o.Tracked F.rz := htrack o rfl
    rcases reallocateNull_cases h₂ with ⟨h0 | h0, -⟩ | ⟨-, -, s₁, s₂, hsame, hs₂, rfl⟩
    · exact absurd h0 hlegal.1
    · exact absurd h0 htr.request.size_ne
    · exact ((h.same hsame).handOut htr hlegal.2 hs₂).same (State.Same.unlock F)
  | clear k id => exact honly.elim
  | gc id => exact honly.elim
  | reclaim o => exact honly.elim

/-- **What is handed back is what was pushed, in order.** In every run of
allocations, frees and reallocations of tracked objects, with the quarantine
on: for each id, the pointers pushed to its zone are those that its releases
returned for the allocator's free, followed by those still queued. -/
theorem pushes_eq_passed_append_queued {F : Flags} (hon : F.isQuarantineZoneOn = true)
    {es : List WorldEvent} {w : World}
    (hrun : Runs (World.step F) (fun w e => w.Legal F World.held e ∧
      (∀ o ∈ e.handsOut, o.Tracked F.rz) ∧ OnlyFrees e) .initial es w) (id : ℕ) :
    pushesOf id w.st.log = (w.frees.filter (·.id = id)).map (·.ptr) ++ w.queued id :=
  (Runs.invariant (I := World.Fifo F) (fun hi hok hs => hi.step hon hok.1 hok.2.1 hok.2.2 hs)
    (World.initial_fifo F) hrun).fifo id

/-- Two objects; the second is freed inside a `realloc`, which passes on the
first, and the new one is handed out in its place. -/
theorem pushes_eq_passed_append_queued_realloc :
    ∃ w, exec (World.step oneChunkFlags) (fun w e => w.Legal oneChunkFlags World.held e ∧
        (∀ o ∈ e.handsOut, o.Tracked oneChunkFlags.rz) ∧ OnlyFrees e) .initial
        [.allocate {} ⟨0x602000000010, 8, 1, 1⟩, .allocate {} ⟨0x602000000040, 8, 1, 1⟩,
          .release {} ⟨0x602000000010, 8, 1, 1⟩,
          .realloc {} {} ⟨0x602000000040, 8, 1, 1⟩ (some true) false ⟨0x602000000010, 8, 1, 1⟩] = some w ∧
      w.queued 1 = [0x602000000040] ∧
      pushesOf 1 w.st.log = (w.frees.filter (·.id = 1)).map (·.ptr) ++ w.queued 1 := by
  have h : (exec (World.step oneChunkFlags) (fun w e => w.Legal oneChunkFlags World.held e ∧
        (∀ o ∈ e.handsOut, o.Tracked oneChunkFlags.rz) ∧ OnlyFrees e) .initial
        [.allocate {} ⟨0x602000000010, 8, 1, 1⟩, .allocate {} ⟨0x602000000040, 8, 1, 1⟩,
          .release {} ⟨0x602000000010, 8, 1, 1⟩,
          .realloc {} {} ⟨0x602000000040, 8, 1, 1⟩ (some true) false
            ⟨0x602000000010, 8, 1, 1⟩]).map (·.queued 1) = some [0x602000000040] := by
    decide +kernel
  obtain ⟨w, hw, hq⟩ := Option.map_eq_some_iff.mp h
  exact ⟨w, hw, hq, pushes_eq_passed_append_queued rfl (runs_of_exec hw) 1⟩

end Cmasan
