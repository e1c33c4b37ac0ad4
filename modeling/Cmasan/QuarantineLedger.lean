/-
# What the quarantine hands back is held

The pointer that a release returns is usually an older one, out of the
quarantine. On one instance id, whatever the program asks for and the
allocator hands out, the live objects and the queue stay within what the
allocator holds (`World.InOrder`): each free moves a pointer from the first to
the second, each pointer that leaves the queue for the allocator's free leaves
`held` too. Only a `CLEAR` breaks this: the allocator drops everything, and
the queue stays. So when each `CLEAR` finds the queue empty, every pointer
passed on to the allocator's free is one it holds (`passed_on_is_held`).

Key definitions: `World.InOrder`, `OneInstance`, `ClearsEmpty`.
Key theorems: `World.free_inOrder`, `World.step_inOrder`, `passed_on_is_held`.
-/
import Cmasan.World

namespace Cmasan

open Lib

/-- Every entry of the table is under one id. -/
def Tlt.OneId (t : Tlt) (id : ℕ) : Prop := ∀ p c, tltGet t p = some c → (t.info c).cmaId = id

theorem Tlt.OneId.setInfo {t : Tlt} {id c p : ℕ} {i : ChunkInfo} (h : t.OneId id)
    (hc : tltGet t p = some c) (hs : i.status ≠ .none) (hi : i.cmaId = id) : (t.setInfo c i).OneId id := by
  intro a c' hc'
  rw [tltGet_setInfo hc hs] at hc'
  rw [info_setInfo]
  split
  · exact hi
  · exact h a c' hc'

theorem Tlt.OneId.insert {t t' : Tlt} {id : ℕ} (h : t.OneId id) (ht : t.Inv)
    {key chunkSize rzSize stack tid : ℕ} (he : tltInsert t key chunkSize rzSize id stack tid = some t') :
    t'.OneId id := by
  intro a c hc
  rcases tltInsert_get_cases ht he hc with hnew | ⟨hget, hold⟩
  · exact congrArg ChunkInfo.cmaId hnew
  · exact (congrArg ChunkInfo.cmaId hold).trans (h a c hget)

/-- **The ledger of one instance**: live objects and queued pointers are held,
and everything passed on so far was. -/
structure World.InOrder (id : ℕ) (w : World) : Prop where
  inv : w.st.Inv
  oneId : w.st.tlt.OneId id
  ledger : Ledger (w.live.map (·.ptr)) (w.queued id) (w.held.map (·.ptr))
  liveId : ∀ o ∈ w.live, o.id = id
  frees : ∀ f ∈ w.frees, f.held = true

theorem World.initial_inOrder (id : ℕ) : World.initial.InOrder id :=
  ⟨State.initial_inv, fun p c h => by simp [World.initial, State.initial, tltGet, tltGetInternal,
    tltGetPageMayNull, initializeTlt] at h, Ledger.nil, fun o ho => by simp [World.initial] at ho,
    fun f hf => by simp [World.initial] at hf⟩

theorem map_perm_erase {os : List Obj} {o : Obj} (h : o ∈ os) :
    (os.map (·.ptr)).Perm (o.ptr :: (os.erase o).map (·.ptr)) :=
  (List.perm_cons_erase h).map _

/-- A held pointer that is passed on leaves the ledger. -/
theorem World.passOn_inOrder {w : World} {id id' ptr : ℕ} (hp : ptr ≠ 0) (hi : w.st.Inv)
    (hone : w.st.tlt.OneId id) (hlive : ∀ o ∈ w.live, o.id = id) (hf : ∀ f ∈ w.frees, f.held = true)
    (hmem : ptr ∈ w.held.map (·.ptr)) (hl : ∀ held', (w.held.map (·.ptr)).Perm (ptr :: held') →
      Ledger (w.live.map (·.ptr)) (w.queued id) held') :
    (w.passOn id' ptr).InOrder id := by
  obtain ⟨o, ho, hptr, hpass⟩ := World.passOn_held (w := w) id' hp hmem
  rw [hpass]
  refine ⟨hi, hone, hl _ (hptr ▸ map_perm_erase ho), hlive, fun f hm => ?_⟩
  rcases List.mem_append.mp hm with hm | hm
  · exact hf f hm
  · rw [List.mem_singleton.mp hm]

section Free

variable {F : Flags} {w : World} {st : State} {o : Obj} {id r : ℕ}

theorem World.InOrder.giveBack (h : w.InOrder id) (ho : o ∈ w.live) (hi : st.Inv) (hone : st.tlt.OneId id)
    (hq : st.qz = w.st.qz) : (World.passOn { w with st := st, live := w.live.erase o } o.id o.ptr).InOrder id := by
  have hids : ∀ o' ∈ w.live.erase o, o'.id = id := fun o' ho' => h.liveId o' (List.mem_of_mem_erase ho')
  have hqueued : World.queued { w with st := st, live := w.live.erase o } id = w.queued id := by
    unfold World.queued
    rw [hq]
  by_cases hp : o.ptr = 0
  · rw [hp, World.passOn_zero]
    exact ⟨hi, hone, hqueued ▸ h.ledger.forget (List.erase_sublist.map _) (List.Sublist.refl _), hids, h.frees⟩
  · have hheld : o.ptr ∈ w.held.map (·.ptr) := h.ledger.mem_held_of_live (List.mem_map_of_mem ho)
    exact World.passOn_inOrder hp hi hone hids h.frees hheld fun held' hh =>
      hqueued ▸ h.ledger.giveBack (map_perm_erase ho) hh

theorem World.InOrder.retire (hon : F.isQuarantineZoneOn = true) (h : w.InOrder id) (ho : o ∈ w.live)
    (hi : st.Inv) {c : ℕ} {i : ChunkInfo} (hret : Retired F w.st st o.ptr r c i) (his : i.status ≠ .none)
    (hii : i.cmaId = id) : (World.passOn { w with st := st, live := w.live.erase o } o.id r).InOrder id := by
  have hone : st.tlt.OneId id := hret.tlt ▸ h.oneId.setInfo hret.get his hii
  have hids : ∀ o' ∈ w.live.erase o, o'.id = id := fun o' ho' => h.liveId o' (List.mem_of_mem_erase ho')
  have hget : tltGet st.tlt o.ptr = some c := (hret.tltGet_eq his o.ptr).trans hret.get
  have hinfo : (st.tlt.info c).cmaId = id := by rw [hret.info, hii]
  obtain ⟨q', hp, -, hch, -⟩ := pushAndPop_spec hon h.inv.qz hget
  rw [hinfo] at hp hch
  obtain ⟨hr', hq'⟩ := Prod.mk.inj (Option.some.inj (hp.symm.trans hret.popped))
  have hqueued : World.queued { w with st := st, live := w.live.erase o } id =
      (popped F st.tlt (w.st.qz.zone id) id (w.st.qz.chunks id)).2.map (·.ptr) ++ [o.ptr] := by
    unfold World.queued
    rw [← hq', hch, if_pos rfl, List.map_append]
    rfl
  have hledger := h.ledger.retire (map_perm_erase ho)
  by_cases hr0 : r = 0
  · rw [hr0, World.passOn_zero]
    refine ⟨hi, hone, hqueued ▸ hledger.forget (List.Sublist.refl _) ?_, hids, h.frees⟩
    exact ((popped_suffix F st.tlt _ id _).sublist.map _).append_right _
  · -- the queue was `pre`, the chunk that is returned, and what is left
    rcases popped_cases F st.tlt (w.st.qz.zone id) id (w.st.qz.chunks id) with h0 | ⟨pre, d, hcs, hd⟩
    · exact absurd (hr'.symm.trans h0) hr0
    have hold : w.queued id = pre.map (·.ptr) ++ r ::
        (popped F st.tlt (w.st.qz.zone id) id (w.st.qz.chunks id)).2.map (·.ptr) := by
      rw [← hr', ← hd, ← List.map_cons, ← List.map_append, ← hcs]
      rfl
    have hq : Ledger ((w.live.erase o).map (·.ptr))
        (r :: World.queued { w with st := st, live := w.live.erase o } id) (w.held.map (·.ptr)) := by
      refine hledger.forget (List.Sublist.refl _) ?_
      rw [hqueued, hold, ← List.cons_append]
      exact (List.sublist_append_right _ _).append_right _
    exact World.passOn_inOrder hr0 hi hone hids h.frees (hq.mem_held List.mem_cons_self)
      fun held' hh => hq.reclaim hh

/-- **A free** moves the object from the live ones to the queue, or straight
back to the allocator. -/
theorem World.free_inOrder {k : Caller} {w' : World} {b : Bool} (h : w.InOrder id) (ho : o ∈ w.live)
    (hid : o.id = id) (he : w.free F k o b = some w') : w'.InOrder id ∧ w'.live = w.live.erase o := by
  obtain ⟨r, st, hr, rfl⟩ := World.free_cases he
  refine ⟨?_, World.passOn_live _ _ _⟩
  have hi : st.Inv := releaseCMAChunk_inv h.inv hr
  have hretired : ∀ c i, Retired F w.st st o.ptr r c i → i.status ≠ .none → i.cmaId = id →
      (World.passOn { w with st := st, live := w.live.erase o } o.id r).InOrder id := by
    intro c i hret his hii
    by_cases hon : F.isQuarantineZoneOn = true
    · exact h.retire hon ho hi hret his hii
    · have hp := hret.popped
      unfold pushAndPopFromQuarantine at hp
      rw [if_neg hon] at hp
      obtain ⟨rfl, hq⟩ := Prod.mk.inj (Option.some.inj hp)
      exact h.giveBack ho hi (hret.tlt ▸ h.oneId.setInfo hret.get his hii) hq.symm
  rcases releaseCMAChunk_cases hr with ⟨rfl, hsame, -⟩ | ⟨c, -, -, hret, -⟩ | ⟨c, -, -, hret, -⟩
  · exact h.giveBack ho hi (hsame.tlt ▸ h.oneId) hsame.qz
  · exact hretired c _ hret (by simp) (h.oneId _ _ hret.get)
  · exact hretired c _ hret (by simp [ChunkInfo.released]) hid

end Free

/-! ### The other events -/

theorem World.InOrder.of_hook {w : World} {id : ℕ} (h : w.InOrder id) {st : State} (hi : st.Inv)
    (hone : st.tlt.OneId id) (hq : st.qz = w.st.qz) : World.InOrder id { w with st := st } := by
  refine ⟨hi, hone, ?_, h.liveId, h.frees⟩
  show Ledger _ ((st.qz.chunks id).map (·.ptr)) _
  rw [hq]
  exact h.ledger

theorem World.InOrder.handOut {w : World} {id : ℕ} (h : w.InOrder id) {o : Obj} (ho : o.id = id) :
    (w.handOut o).InOrder id :=
  ⟨h.inv, h.oneId, h.ledger.handOut o.ptr, List.forall_mem_cons.mpr ⟨ho, h.liveId⟩, h.frees⟩

/-- The old object of a `realloc` is no longer live; if it still was, and the
allocator takes it back itself, it is no longer held either. -/
theorem World.InOrder.dropOld {w : World} {id : ℕ} (h : w.InOrder id) {old : Obj} {freesOld : Bool}
    (hold : freesOld = true → old ∈ w.live) : (w.dropOld old freesOld).InOrder id := by
  refine ⟨h.inv, h.oneId, ?_, fun o ho => h.liveId o (List.mem_of_mem_erase ho), h.frees⟩
  show Ledger ((w.live.erase old).map (·.ptr)) (w.queued id)
    ((if freesOld = true then w.held.erase old else w.held).map (·.ptr))
  by_cases hf : freesOld = true
  · rw [if_pos hf]
    by_cases hh : old ∈ w.held
    · exact h.ledger.giveBack (map_perm_erase (hold hf)) (map_perm_erase hh)
    · rw [List.erase_of_not_mem hh]
      exact h.ledger.forget (List.erase_sublist.map _) (List.Sublist.refl _)
  · rw [if_neg hf]
    exact h.ledger.forget (List.erase_sublist.map _) (List.Sublist.refl _)

theorem allocateCMAChunkImpl_oneId {F : Flags} {k : Caller} {s s' : State} {ptr size g id : ℕ} (h : s.Inv)
    (hone : s.tlt.OneId id) (he : allocateCMAChunkImpl F k s ptr size g id = some s') :
    s'.tlt.OneId id ∧ s'.qz = s.qz := by
  unfold allocateCMAChunkImpl at he
  simp only at he
  split at he
  · split at he
    · exact Option.some.inj he ▸ ⟨hone, rfl⟩
    · obtain ⟨t, ht, he⟩ := Option.bind_eq_some_iff.mp he
      obtain ⟨shadow, -, rfl⟩ := Option.map_eq_some_iff.mp he
      exact ⟨hone.insert h.tlt ht, rfl⟩
  · obtain ⟨t, ht, he⟩ := Option.bind_eq_some_iff.mp he
    obtain ⟨shadow, -, rfl⟩ := Option.map_eq_some_iff.mp he
    exact ⟨hone.insert h.tlt ht, rfl⟩

theorem releaseOldChunk_oneId {F : Flags} {k : Caller} {s s' : State} {oldPtr newPtr id : ℕ}
    (hone : s.tlt.OneId id) (he : releaseOldChunk F k s oldPtr newPtr id = some s') :
    s'.tlt.OneId id ∧ s'.qz = s.qz := by
  obtain ⟨hquiet, hcase⟩ := releaseOldChunk_cases he
  refine ⟨?_, hquiet.qz⟩
  rcases hcase with ⟨-, rfl⟩ | ⟨c, hget, ⟨-, rfl⟩ | ⟨-, -, ht, -⟩ | ⟨-, -, ⟨-, rfl⟩ | rfl⟩⟩
  · exact hone
  · exact hone.setInfo hget (by simp) (hone _ _ hget)
  · rw [ht]
    exact hone.setInfo hget (by simp [ChunkInfo.released]) rfl
  · exact hone
  · exact hone.setInfo hget (by simp) (hone _ _ hget)

theorem reallocateCMAChunkEnd_oneId {F : Flags} {k : Caller} {s s' : State} {oldPtr newPtr size g id : ℕ}
    (h : s.Inv) (hone : s.tlt.OneId id)
    (he : reallocateCMAChunkEnd F k s oldPtr newPtr size g id false = some s') :
    s'.tlt.OneId id ∧ s'.qz = s.qz ∧ s'.Inv := by
  have hi : s'.Inv := hookStep_inv (e := .reallocateEnd k oldPtr newPtr size g id false) h he
  rcases reallocateCMAChunkEnd_cases he with ⟨-, rfl⟩ | ⟨-, -, s₁, s₂, h₁, h₂, rfl⟩
  · exact ⟨hone, rfl, hi⟩
  · obtain ⟨ho₁, hq₁⟩ := releaseOldChunk_oneId (by simpa using hone) h₁
    obtain ⟨ho₂, hq₂⟩ := allocateCMAChunkImpl_oneId (releaseOldChunk_inv h.lock h₁) ho₁ h₂
    refine ⟨by simpa using ho₂, ?_, hi⟩
    rw [State.unlock_qz, hq₂, hq₁, State.lock_qz]

theorem reallocateCMAChunkStart_oneId {F : Flags} {s : State} {id : ℕ} (hone : s.tlt.OneId id)
    (oldPtr id' : ℕ) (b : Bool) : (reallocateCMAChunkStart F s oldPtr b id').tlt.OneId id ∧
      (reallocateCMAChunkStart F s oldPtr b id').qz = s.qz := by
  rcases reallocateCMAChunkStart_cases F s oldPtr id' b with ⟨-, hsame⟩ | ⟨c, -, hget, ht, -, hq, -⟩
  · exact ⟨hsame.tlt ▸ hone, hsame.qz⟩
  · refine ⟨?_, hq⟩
    rw [ht]
    exact hone.setInfo hget (by simp) (hone _ _ hget)

theorem clearCMAChunks_oneId {F : Flags} {k : Caller} {s s' : State} {id : ℕ} (hone : s.tlt.OneId id)
    (he : clearCMAChunks F k s id = some s') : s'.tlt.OneId id ∧ s'.qz = s.qz := by
  obtain ⟨s₁, s₂, ptrs, hl, -, ht₁, -, hq₁, -, ht₂, -, hq₂, -⟩ := clearCMAChunks_cases he
  have := clearLoop_rule (P := fun s' => s'.tlt.OneId id ∧ s'.qz = s.qz)
    (fun {s₃ s₄ ptr c} h hc hf => by
      obtain ⟨ht, -, hq, -⟩ := freeChunk_cases hf
      refine ⟨?_, hq.trans h.2⟩
      rw [ht]
      exact h.1.setInfo (clearable_eq_some.mp hc).1 (by simp [ChunkInfo.released]) rfl)
    ptrs ⟨ht₁ ▸ hone, hq₁⟩ hl
  exact ⟨ht₂ ▸ this.1, hq₂.trans this.2⟩

/-! ### Runs -/

/-- All calls are under one id, and nothing but a `CLEAR` takes objects away
from the program. -/
def OneInstance (id : ℕ) : WorldEvent → Prop
  | .allocate _ o => o.id = id
  | .release _ o => o.id = id
  | .realloc _ _ old _ _ _ => old.id = id
  | .reallocNull _ o => o.id = id
  | .clear _ id' => id' = id
  | .gc _ => False
  | .reclaim _ => False

instance (id : ℕ) : ∀ e : WorldEvent, Decidable (OneInstance id e)
  | .allocate _ o | .release _ o | .reallocNull _ o => inferInstanceAs (Decidable (o.id = id))
  | .realloc _ _ old _ _ _ => inferInstanceAs (Decidable (old.id = id))
  | .clear _ id' => inferInstanceAs (Decidable (id' = id))
  | .gc _ | .reclaim _ => .isFalse fun h => h

/-- A `CLEAR` finds the queue of its id empty. -/
def ClearsEmpty (w : World) : WorldEvent → Prop
  | .clear _ id => w.queued id = []
  | _ => True

instance (w : World) : ∀ e : WorldEvent, Decidable (ClearsEmpty w e)
  | .clear _ id => inferInstanceAs (Decidable (w.queued id = []))
  | .allocate _ _ | .release _ _ | .realloc _ _ _ _ _ _ | .reallocNull _ _ | .gc _ | .reclaim _ =>
    .isTrue trivial

theorem World.nestedFree_inOrder {F : Flags} {k : Caller} {w w' : World} {o : Obj} {nested : Option Bool}
    {id : ℕ} (h : w.InOrder id) (ho : o ∈ w.live) (hid : o.id = id)
    (he : w.nestedFree F k o nested = some w') :
    w'.InOrder id ∧ (nested = none → w'.live = w.live) := by
  cases nested with
  | none =>
    obtain rfl := Option.some.inj he
    exact ⟨h, fun _ => rfl⟩
  | some b => exact ⟨(World.free_inOrder h ho hid he).1, fun hn => by cases hn⟩

/-- **Every event keeps the ledger.** -/
theorem World.step_inOrder {F : Flags} {w w' : World} {e : WorldEvent} {id : ℕ} (h : w.InOrder id)
    (hlegal : w.Legal F (fun _ => []) e) (hone : OneInstance id e) (hclear : ClearsEmpty w e)
    (he : w.step F e = some w') : w'.InOrder id := by
  cases e with
  | allocate k o =>
    obtain ⟨st, hst, rfl⟩ := Option.map_eq_some_iff.mp he
    have hi : st.Inv := hookStep_inv (e := .allocate k o.ptr o.size o.granularity o.id false) h.inv hst
    obtain ⟨s₁, h₁, rfl⟩ := allocateCMAChunk_impl hlegal.1 hst
    have hid : o.id = id := hone
    rw [hid] at h₁
    obtain ⟨ho, hq⟩ := allocateCMAChunkImpl_oneId h.inv.lock (by simpa using h.oneId) h₁
    exact (h.of_hook hi (by simpa using ho) (by simp [hq])).handOut hid
  | release k o => exact (World.free_inOrder h hlegal hone he).1
  | realloc k₁ k₂ old nested freesOld new =>
    obtain ⟨hlive, hfrees, hnew⟩ := hlegal
    have hid : old.id = id := hone
    obtain ⟨w₁, h₁, he⟩ := Option.bind_eq_some_iff.mp he
    obtain ⟨st, h₂, rfl⟩ := Option.map_eq_some_iff.mp he
    obtain ⟨hs, hqs⟩ := reallocateCMAChunkStart_oneId (F := F) h.oneId old.ptr old.id false
    have hstart := h.of_hook (reallocateCMAChunkStart_inv (F := F) h.inv old.ptr old.id false) hs hqs
    obtain ⟨hw₁, hl₁⟩ := World.nestedFree_inOrder hstart hlive hid h₁
    rw [hid] at h₂
    obtain ⟨ho, hq, hi⟩ := reallocateCMAChunkEnd_oneId hw₁.inv hw₁.oneId h₂
    have hend := hw₁.of_hook hi ho hq
    have hold : freesOld = true → old ∈ w₁.live := fun hf => by
      cases nested with
      | none => exact hl₁ rfl ▸ hlive
      | some b => simp [hfrees rfl] at hf
    by_cases hp : new.ptr = 0
    · rw [if_pos hp]
      split
      · rename_i hf
        exact hend.dropOld fun _ => hold hf
      · exact hend
    · rw [if_neg hp]
      exact (hend.dropOld hold).handOut ((hnew hp).1.trans hid)
  | reallocNull k o =>
    obtain ⟨st, h₂, rfl⟩ := Option.map_eq_some_iff.mp he
    have hid : o.id = id := hone
    obtain ⟨hs, hqs⟩ := reallocateCMAChunkStart_oneId (F := F) h.oneId 0 o.id false
    have hstart := h.of_hook (reallocateCMAChunkStart_inv (F := F) h.inv 0 o.id false) hs hqs
    rw [hid] at h₂ hstart
    obtain ⟨ho, hq, hi⟩ := reallocateCMAChunkEnd_oneId hstart.inv hstart.oneId h₂
    exact (hstart.of_hook hi ho hq).handOut hid
  | clear k id' =>
    obtain ⟨st, h₂, rfl⟩ := Option.map_eq_some_iff.mp he
    have hid : id' = id := hone
    subst hid
    have hempty : w.queued id' = [] := hclear
    obtain ⟨ho, hq⟩ := clearCMAChunks_oneId h.oneId h₂
    have hi : st.Inv := hookStep_inv (e := .clear k id') h.inv h₂
    -- the objects are all of this id, and the queue is empty: the ledger is
    have hlive : w.live.filter (·.id ≠ id') = [] :=
      List.filter_eq_nil_iff.mpr fun o hm => by simp [h.liveId o hm]
    have hqueue : World.queued { w with st := st } id' = [] := by
      rw [← hempty]
      unfold World.queued
      rw [hq]
    refine ⟨hi, ho, ?_, fun o hm => h.liveId o (List.mem_of_mem_filter hm), h.frees⟩
    show Ledger ((w.live.filter (·.id ≠ id')).map (·.ptr)) (World.queued { w with st := st } id') _
    rw [hlive, hqueue]
    exact fun a => Nat.zero_le _
  | gc id' => exact hone.elim
  | reclaim o => exact hone.elim

/-- **What is passed on is held.** In every run on one instance id, whatever
the limits of the quarantine and the regions handed out, in which each `CLEAR`
finds the id's queue empty: every pointer that a release returned for the
allocator's free is one that the allocator holds. -/
theorem passed_on_is_held {F : Flags} {id : ℕ} {es : List WorldEvent} {w : World}
    (hrun : Runs (World.step F)
      (fun w e => w.Legal F (fun _ => []) e ∧ OneInstance id e ∧ ClearsEmpty w e) .initial es w) :
    ∀ f ∈ w.frees, f.held = true :=
  (Runs.invariant (I := World.InOrder id)
    (fun hi hok hs => World.step_inOrder hi hok.1 hok.2.1 hok.2.2 hs)
    (World.initial_inOrder id) hrun).frees

/-- The second free passes on the first object, and a `realloc` finds its region free. -/
theorem passed_on_is_held_first_object :
    ∃ w, exec (World.step oneChunkFlags)
        (fun w e => w.Legal oneChunkFlags (fun _ => []) e ∧ OneInstance 1 e ∧ ClearsEmpty w e) .initial
        [.clear {} 1, .allocate {} ⟨0x602000000010, 8, 1, 1⟩, .allocate {} ⟨0x602000000040, 8, 1, 1⟩,
          .release {} ⟨0x602000000010, 8, 1, 1⟩,
          .realloc {} {} ⟨0x602000000040, 8, 1, 1⟩ (some true) false ⟨0x602000000010, 8, 1, 1⟩] = some w ∧
      w.frees = [⟨1, 0x602000000010, true⟩] ∧ ∀ f ∈ w.frees, f.held = true := by
  have h : (exec (World.step oneChunkFlags)
        (fun w e => w.Legal oneChunkFlags (fun _ => []) e ∧ OneInstance 1 e ∧ ClearsEmpty w e) .initial
        [.clear {} 1, .allocate {} ⟨0x602000000010, 8, 1, 1⟩, .allocate {} ⟨0x602000000040, 8, 1, 1⟩,
          .release {} ⟨0x602000000010, 8, 1, 1⟩,
          .realloc {} {} ⟨0x602000000040, 8, 1, 1⟩ (some true) false
            ⟨0x602000000010, 8, 1, 1⟩]).map (·.frees) = some [⟨1, 0x602000000010, true⟩] := by
    decide +kernel
  obtain ⟨w, hw, hf⟩ := Option.map_eq_some_iff.mp h
  exact ⟨w, hw, hf, passed_on_is_held (runs_of_exec hw)⟩

/-- An object is freed and queued, its allocator drops everything, and the
free of the next object passes the dropped one on. -/
theorem clear_leaves_queued :
    ∃ es w, Runs (World.step oneChunkFlags)
        (fun w e => w.Legal oneChunkFlags World.held e ∧ OneInstance 1 e) .initial es w ∧
      ⟨1, 0x602000000010, false⟩ ∈ w.frees := by
  have h : (exec (World.step oneChunkFlags)
        (fun w e => w.Legal oneChunkFlags World.held e ∧ OneInstance 1 e) .initial
        [.allocate {} ⟨0x602000000010, 8, 1, 1⟩, .release {} ⟨0x602000000010, 8, 1, 1⟩, .clear {} 1,
          .allocate {} ⟨0x602000000040, 8, 1, 1⟩, .release {} ⟨0x602000000040, 8, 1, 1⟩]).map (·.frees) =
      some [⟨1, 0x602000000010, false⟩] := by
    decide +kernel
  obtain ⟨w, hw, hf⟩ := Option.map_eq_some_iff.mp h
  exact ⟨_, w, runs_of_exec hw, hf ▸ List.mem_singleton_self _⟩

end Cmasan
