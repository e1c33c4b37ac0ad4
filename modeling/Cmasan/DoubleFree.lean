/-
# When no double free is reported

A hook reports a double free when the table has the chunk at the pointer as
released under the id of the call. `Unfreed` says that this is so for no
object that is live and not empty: each has an info of its own, or none, and
that info is not released under its id. Every hook keeps it, with the
quarantine on or off and also across `CLEAR`s and collections, with one
exception. A hand-out that is not extended leaves the entry at its address as
it finds it, also one of an object that was freed there; so the object must
land where the table has no entry (`LandsFresh`). Then no call reports
(`no_double_free_reported`).

Key definitions: `Unfreed`, `LandsFresh`, `FreesNonempty`.
Key theorems: `Unfreed.release`, `Unfreed.handOut`, `Unfreed.step`,
`no_double_free_reported`.
-/
import Cmasan.World

namespace Cmasan

open Lib

/-- Two objects that are not empty are apart, and the table has no info for both. -/
def Obj.Separate (rz : RzOptions) (t : Tlt) (o o' : Obj) : Prop :=
  o.Nonempty → o'.Nonempty →
    o.Apart rz o' ∧ ∀ c, tltGet t o.ptr = some c → tltGet t o'.ptr ≠ some c

theorem Obj.Separate.symm {rz : RzOptions} {t : Tlt} {o o' : Obj} (h : o.Separate rz t o') :
    o'.Separate rz t o :=
  fun h1 h2 => ⟨(h h2 h1).1.symm, fun c hc hc' => (h h2 h1).2 c hc' hc⟩

/-- **No live object was freed**, as far as the table says: the info at its
pointer is not that of a released chunk of its id. And nothing was reported. -/
structure Unfreed (F : Flags) (s : State) (live : List Obj) : Prop where
  inv : s.Inv
  fits : ∀ o ∈ live, o.Nonempty → o.Fits F.rz
  separate : live.Pairwise (Obj.Separate F.rz s.tlt)
  unfreed : ∀ o ∈ live, o.Nonempty → ∀ c, tltGet s.tlt o.ptr = some c →
    ¬ ((s.tlt.info c).status = .deallocated ∧ (s.tlt.info c).cmaId = o.id)
  reports : reportsOf s.log = []

/-- No live object has the info at `p`. -/
def Alone (s : State) (live : List Obj) (p : ℕ) : Prop :=
  ∀ o ∈ live, o.Nonempty → ∀ c, tltGet s.tlt p = some c → tltGet s.tlt o.ptr ≠ some c

theorem Unfreed.initial (F : Flags) : Unfreed F .initial [] :=
  ⟨State.initial_inv, by simp, List.Pairwise.nil, by simp, rfl⟩

section

variable {F : Flags} {s s' : State} {live live' : List Obj}

theorem Unfreed.sublist (h : Unfreed F s live) (hs : live'.Sublist live) : Unfreed F s live' :=
  ⟨h.inv, fun o ho => h.fits o (hs.subset ho), h.separate.sublist hs,
    fun o ho => h.unfreed o (hs.subset ho), h.reports⟩

theorem Alone.sublist {p : ℕ} (h : Alone s live p) (hs : live'.Sublist live) : Alone s live' p :=
  fun o ho => h o (hs.subset ho)

theorem Unfreed.alone (h : Unfreed F s live) {o : Obj} (ho : o ∈ live) (hn : o.Nonempty) :
    Alone s (live.erase o) o.ptr := by
  have hp := (List.perm_cons_erase ho).pairwise_iff (fun hs => Obj.Separate.symm hs) |>.mp h.separate
  exact fun o' ho' hn' => ((List.pairwise_cons.mp hp).1 o' ho' hn hn').2

/-- The entries stay, and so does what matters of the infos. -/
theorem Unfreed.of_get (h : Unfreed F s live) (hi : s'.Inv) (hget : ∀ a, tltGet s'.tlt a = tltGet s.tlt a)
    (hun : ∀ o ∈ live, o.Nonempty → ∀ c, tltGet s.tlt o.ptr = some c →
      ¬ ((s'.tlt.info c).status = .deallocated ∧ (s'.tlt.info c).cmaId = o.id))
    (hr : reportsOf s'.log = reportsOf s.log) : Unfreed F s' live where
  inv := hi
  fits := h.fits
  separate := h.separate.imp fun hs h1 h2 => by
    obtain ⟨h3, h4⟩ := hs h1 h2
    exact ⟨h3, by simpa only [hget] using h4⟩
  unfreed o ho hn c hc := hun o ho hn c (hget o.ptr ▸ hc)
  reports := hr.trans h.reports

theorem Alone.of_get {p : ℕ} (h : Alone s live p) (hget : ∀ a, tltGet s'.tlt a = tltGet s.tlt a) :
    Alone s' live p := by
  intro o ho hn c hc
  rw [hget] at hc ⊢
  exact h o ho hn c hc

theorem Unfreed.same (h : Unfreed F s live) (hs : State.Same s s') : Unfreed F s' live :=
  h.of_get (h.inv.congr hs.tlt hs.qz) (fun a => by rw [hs.tlt])
    (fun o ho hn c hc => by rw [hs.tlt]; exact h.unfreed o ho hn c hc) hs.reports

/-- **A change of one info** that releases none of the live objects under its own id. -/
theorem Unfreed.setInfo (h : Unfreed F s live) {c p : ℕ} {i : ChunkInfo} (hget : tltGet s.tlt p = some c)
    (hs : i.status ≠ .none) (hi : s'.Inv) (ht : s'.tlt = s.tlt.setInfo c i)
    (hun : ∀ o ∈ live, o.Nonempty → tltGet s.tlt o.ptr = some c →
      ¬ (i.status = .deallocated ∧ i.cmaId = o.id))
    (hr : reportsOf s'.log = reportsOf s.log) : Unfreed F s' live := by
  refine h.of_get hi (fun a => by rw [ht, tltGet_setInfo hget hs]) (fun o ho hn d hd => ?_) hr
  rw [ht, info_setInfo]
  split
  · rename_i he
    exact hun o ho hn (he ▸ hd)
  · exact h.unfreed o ho hn d hd

/-- **A release** of a live object: it is not reported, and not live any more. -/
theorem Unfreed.release (h : Unfreed F s live) {k : Caller} {o : Obj} {b : Bool} {r : ℕ} (ho : o ∈ live)
    (hn : o.Nonempty) (he : releaseCMAChunk F k s o.ptr o.id b = some (r, s')) :
    Unfreed F s' (live.erase o) ∧ Alone s' (live.erase o) o.ptr := by
  have halone := h.alone ho hn
  have hrest := h.sublist (List.erase_sublist (a := o))
  have hi := releaseCMAChunk_inv h.inv he
  refine ⟨?_, halone.of_get (releaseCMAChunk_get he)⟩
  rcases releaseCMAChunk_cases he with ⟨-, hs, -⟩ | ⟨c, -, -, hr, -, hrep⟩ | ⟨c, -, -, hr, -, hrep, -⟩
  · exact hrest.same hs
  · exact hrest.setInfo hr.get (by simp) hi hr.tlt
      (fun o' ho' hn' hc => absurd hc (halone o' ho' hn' c hr.get)) hrep
  · exact hrest.setInfo hr.get (by simp [ChunkInfo.released]) hi hr.tlt
      (fun o' ho' hn' hc => absurd hc (halone o' ho' hn' c hr.get)) (hrep (h.unfreed o ho hn c hr.get))

/-- **The start of a `realloc`** of a live object is not reported. -/
theorem Unfreed.start (h : Unfreed F s live) {o : Obj} (ho : o ∈ live) (hn : o.Nonempty) :
    Unfreed F (reallocateCMAChunkStart F s o.ptr false o.id) live := by
  have hi := reallocateCMAChunkStart_inv (F := F) h.inv o.ptr o.id false
  rcases reallocateCMAChunkStart_cases F s o.ptr o.id false with ⟨-, hs⟩ | ⟨c, -, hget, ht, -, -, -, -, hrep⟩
  · exact h.same hs
  · exact h.setInfo hget (by simp) hi ht (fun _ _ _ _ hd => by simp at hd)
      (hrep (h.unfreed o ho hn c hget))

/-- **The old chunk at the end of a `realloc`**, when no live object has its info. -/
theorem Unfreed.releaseOld (h : Unfreed F s live) {k : Caller} {oldPtr newPtr id : ℕ}
    (ha : Alone s live oldPtr) (he : releaseOldChunk F k s oldPtr newPtr id = some s') :
    Unfreed F s' live := by
  have hi := releaseOldChunk_inv h.inv he
  obtain ⟨hquiet, hcase⟩ := releaseOldChunk_cases he
  have hset : ∀ {c i}, tltGet s.tlt oldPtr = some c → i.status ≠ .none → s'.tlt = s.tlt.setInfo c i →
      Unfreed F s' live := fun {c i} hget hs ht =>
    h.setInfo hget hs hi ht (fun o ho hn hc => absurd hc (ha o ho hn c hget)) hquiet.reports
  rcases hcase with ⟨-, rfl⟩ | ⟨c, hget, ⟨-, rfl⟩ | ⟨-, -, ht, -⟩ | ⟨-, -, ⟨-, rfl⟩ | rfl⟩⟩
  · exact h
  · exact hset (i := { s.tlt.info c with status := .deallocated }) hget (by simp) rfl
  · exact hset hget (by simp [ChunkInfo.released]) ht
  · exact h
  · exact hset (i := { s.tlt.info c with status := .inRealloc }) hget (by simp) rfl

/-! ### Hand-outs -/

/-- A pointer's granule is one of those from `lo` to below `hi`. -/
def Inside (lo hi p : ℕ) : Prop := lo ≤ granule p ∧ granule p < hi

/-- **An insert** over the first granule of one live object at most. -/
theorem Unfreed.inserted (h : Unfreed F s live) {i : ChunkInfo} {lo hi : ℕ}
    (hins : Inserted s.tlt s'.tlt i lo hi) (hst : i.status = .allocated) (hi' : s'.Inv)
    (hone : live.Pairwise fun o o' => o.Nonempty → o'.Nonempty → ¬ (Inside lo hi o.ptr ∧ Inside lo hi o'.ptr))
    (hr : reportsOf s'.log = reportsOf s.log) : Unfreed F s' live where
  inv := hi'
  fits := h.fits
  separate := by
    refine (h.separate.and hone).imp fun {o o'} ⟨hs, ho⟩ h1 h2 => ⟨(hs h1 h2).1, fun c hc hc' => ?_⟩
    rcases hins.get_cases h.inv.tlt (by simp [hst]) hc with ⟨rfl, hin⟩ | ⟨hne, hold, -⟩
    · rcases hins.get_cases h.inv.tlt (by simp [hst]) hc' with ⟨-, hin'⟩ | ⟨hne, -⟩
      · exact ho h1 h2 ⟨hin, hin'⟩
      · exact hne rfl
    · rcases hins.get_cases h.inv.tlt (by simp [hst]) hc' with ⟨rfl, -⟩ | ⟨-, hold', -⟩
      · exact hne rfl
      · exact (hs h1 h2).2 c hold hold'
  unfreed o ho hn c hc hd := by
    rcases hins.get_cases h.inv.tlt (by simp [hst]) hc with ⟨rfl, -⟩ | ⟨hne, hold, -⟩
    · have hnew : (s'.tlt.info s.tlt.nextInfo).status = i.status :=
        (congrArg ChunkInfo.status hins.new :)
      rw [hnew, hst] at hd
      cases hd.1
    · have hcore := hins.old c hne
      rw [show (s'.tlt.info c).status = (s.tlt.info c).status from (congrArg ChunkInfo.status hcore :),
        show (s'.tlt.info c).cmaId = (s.tlt.info c).cmaId from (congrArg ChunkInfo.cmaId hcore :)] at hd
      exact h.unfreed o ho hn c hold hd
  reports := hr.trans h.reports

theorem Unfreed.handOut_empty (h : Unfreed F s live) {o : Obj} (ho : ¬ o.Nonempty) : Unfreed F s (o :: live) :=
  ⟨h.inv, List.forall_mem_cons.mpr ⟨fun hn => absurd hn ho, h.fits⟩,
    List.pairwise_cons.mpr ⟨fun _ _ hn => absurd hn ho, h.separate⟩,
    List.forall_mem_cons.mpr ⟨fun hn => absurd hn ho, h.unfreed⟩, h.reports⟩

/-- **A hand-out** apart from the live objects; where it is not extended, the
table must have no entry. -/
theorem Unfreed.handOut (h : Unfreed F s live) {k : Caller} {o : Obj} {id : ℕ} (ho : o.Fits F.rz)
    (hap : ∀ o' ∈ live, o.Apart F.rz o')
    (hfresh : o.Nonempty → extendSize F.rz o.size o.granularity false = o.size → tltGet s.tlt o.ptr = none)
    (he : allocateCMAChunkImpl F k s o.ptr o.size o.granularity id = some s') : Unfreed F s' (o :: live) := by
  have hi := allocateCMAChunkImpl_inv h.inv he
  obtain ⟨hquiet, hcase⟩ := allocateCMAChunkImpl_cases h.inv ho he
  rcases hcase with ⟨hn, hext, rfl⟩ | ⟨hreq, hins, -⟩ | ⟨hz, hins, -⟩
  · -- no entry
    have hnone := hfresh hn hext
    refine ⟨hi, List.forall_mem_cons.mpr ⟨fun _ => ho, h.fits⟩,
      List.pairwise_cons.mpr ⟨fun o' ho' _ _ => ⟨hap o' ho', fun c hc => ?_⟩, h.separate⟩,
      List.forall_mem_cons.mpr ⟨fun _ c hc => ?_, h.unfreed⟩, h.reports⟩
    · rw [hnone] at hc
      cases hc
    · rw [hnone] at hc
      cases hc
  · -- a chunk of its own
    have hn : o.Nonempty := fun h0 =>
      (Nat.mul_eq_zero.mp h0).elim hreq.size_ne hreq.granularity_ne
    have htr : o.Tracked F.rz := ⟨ho, hn, hreq.extended⟩
    have hout : ∀ o' ∈ live, o'.Nonempty →
        ¬ Inside (o.ptr / 8) (trackedEnd F.rz o.ptr o.size o.granularity / 8) o'.ptr := fun o' ho' hn' =>
      (hap o' ho').granule_outside htr (h.fits o' ho' hn') hn'
    have hin := htr.granule_inside
    have hold := h.inserted hins rfl hi
      (h.separate.imp_of_mem fun ho₁ _ _ hn₁ _ hd => hout _ ho₁ hn₁ hd.1) hquiet.reports
    have hget := hins.get_inside (by simp [newChunk]) ho.ptr_ne hin.1 hin.2
    refine ⟨hi, List.forall_mem_cons.mpr ⟨fun _ => ho, h.fits⟩,
      List.pairwise_cons.mpr ⟨fun o' ho' _ hn' => ⟨hap o' ho', fun c hc hc' => ?_⟩, hold.separate⟩,
      List.forall_mem_cons.mpr ⟨fun _ c hc => ?_, hold.unfreed⟩, hold.reports⟩
    · obtain rfl := Option.some.inj (hget.symm.trans hc)
      rcases hins.get_cases h.inv.tlt (by simp [newChunk]) hc' with ⟨-, hin'⟩ | ⟨hne, -⟩
      · exact hout o' ho' hn' hin'
      · exact hne rfl
    · obtain rfl := Option.some.inj (hget.symm.trans hc)
      have hst : (s'.tlt.info s.tlt.nextInfo).status = .allocated := (congrArg ChunkInfo.status hins.new :)
      simp [hst]
  · -- the granule of an empty object
    have hold := h.inserted hins rfl hi (h.separate.imp_of_mem fun {o₁ o₂} ho₁ ho₂ hs hn₁ hn₂ hd => by
      refine Obj.Apart.granule_ne (hs hn₁ hn₂).1 (h.fits o₁ ho₁ hn₁) hn₁ (h.fits o₂ ho₂ hn₂) hn₂ ?_
      unfold Inside at hd
      omega) hquiet.reports
    exact hold.handOut_empty fun hn => hn hz

/-- Released chunks of an id do not matter to the live objects of other ids. -/
theorem Unfreed.clear (h : Unfreed F s live) {k : Caller} {id : ℕ} (hid : ∀ o ∈ live, o.id ≠ id)
    (he : clearCMAChunks F k s id = some s') : Unfreed F s' live := by
  have hi : s'.Inv := hookStep_inv (e := .clear k id) h.inv he
  obtain ⟨s₁, s₂, ptrs, hl, -, ht₁, -, hq₁, hr₁, ht₂, -, -, hr₂⟩ := clearCMAChunks_cases he
  have h₁ : Unfreed F s₁ live :=
    h.of_get (h.inv.congr ht₁ hq₁) (fun a => by rw [ht₁]) (fun o ho hn c hc => ht₁ ▸ h.unfreed o ho hn c hc) hr₁
  have h₂ : Unfreed F s₂ live := clearLoop_rule (P := fun s => Unfreed F s live)
    (fun {s₃ s₄ ptr c} h hc hf => by
      obtain ⟨ht, -, -, -, -, hr⟩ := freeChunk_cases hf
      exact h.setInfo (clearable_eq_some.mp hc).1 (by simp [ChunkInfo.released]) (freeChunk_inv h.inv hf) ht
        (fun o ho _ _ hd => hid o ho hd.2.symm) hr)
    ptrs h₁ hl
  exact h₂.of_get hi (fun a => by rw [ht₂]) (fun o ho hn c hc => ht₂ ▸ h₂.unfreed o ho hn c hc) hr₂

theorem Unfreed.gc (h : Unfreed F s live) (id : ℕ) : Unfreed F (emptyOnGC F s id) live := by
  refine h.of_get (hookStep_inv (e := .gc id) h.inv rfl) (fun _ => rfl) h.unfreed ?_
  unfold emptyOnGC
  cases F.isQuarantineZoneOn <;> simp [reportsOf]

end

/-! ### Runs -/

/-- What the program frees or reallocates is not empty. -/
def FreesNonempty : WorldEvent → Prop
  | .release _ o => o.Nonempty
  | .realloc _ _ old _ _ _ => old.Nonempty
  | _ => True

instance : ∀ e : WorldEvent, Decidable (FreesNonempty e)
  | .release _ o => inferInstanceAs (Decidable o.Nonempty)
  | .realloc _ _ old _ _ _ => inferInstanceAs (Decidable old.Nonempty)
  | .allocate _ _ | .reallocNull _ _ | .clear _ _ | .gc _ | .reclaim _ => .isTrue trivial

/-- An object that is not empty and not extended lands where the table has no entry. -/
def LandsFresh (F : Flags) (w : World) (e : WorldEvent) : Prop :=
  ∀ o ∈ e.handsOut, o.Nonempty → extendSize F.rz o.size o.granularity false = o.size →
    tltGet w.st.tlt o.ptr = none

instance (F : Flags) (w : World) (e : WorldEvent) : Decidable (LandsFresh F w e) := by
  unfold LandsFresh; infer_instance

/-- **A free** by the program. -/
theorem World.free_unfreed {F : Flags} {k : Caller} {w w' : World} {o : Obj} {b : Bool}
    (h : Unfreed F w.st w.live) (ho : o ∈ w.live) (hn : o.Nonempty) (he : w.free F k o b = some w') :
    Unfreed F w'.st w'.live ∧ Alone w'.st w'.live o.ptr ∧ ∀ a, tltGet w'.st.tlt a = tltGet w.st.tlt a := by
  obtain ⟨r, st, hr, rfl⟩ := World.free_cases he
  rw [World.passOn_st, World.passOn_live]
  exact ⟨(h.release ho hn hr).1, (h.release ho hn hr).2, releaseCMAChunk_get hr⟩

/-- **Every event keeps the live objects unfreed.** -/
theorem Unfreed.step {F : Flags} {w w' : World} {e : WorldEvent} (h : Unfreed F w.st w.live)
    (hlegal : w.Legal F World.live e) (hfits : ∀ o ∈ e.handsOut, o.Fits F.rz) (hne : FreesNonempty e)
    (hfresh : LandsFresh F w e) (he : w.step F e = some w') : Unfreed F w'.st w'.live := by
  cases e with
  | allocate k o =>
    obtain ⟨st, hst, rfl⟩ := Option.map_eq_some_iff.mp he
    obtain ⟨s₁, h₁, rfl⟩ := allocateCMAChunk_impl hlegal.1 hst
    have hlock := h.same (State.Same.lock F)
    have hget := hfresh o rfl
    exact (hlock.handOut (hfits o rfl) hlegal.2 (by simpa using hget) h₁).same (State.Same.unlock F)
  | release k o => exact (World.free_unfreed h hlegal hne he).1
  | realloc k₁ k₂ old nested freesOld new =>
    obtain ⟨hlive, -, hnew⟩ := hlegal
    obtain ⟨w₁, h₁, he⟩ := Option.bind_eq_some_iff.mp he
    obtain ⟨st, h₂, rfl⟩ := Option.map_eq_some_iff.mp he
    have hstart := h.start hlive hne
    -- the free inside, if there is one; either way the old info is no live object's
    obtain ⟨hw₁, halone, hget⟩ : Unfreed F w₁.st w₁.live ∧ Alone w₁.st (w₁.live.erase old) old.ptr ∧
        ∀ a, tltGet w₁.st.tlt a = tltGet w.st.tlt a := by
      have hsame := reallocateCMAChunkStart_get F w.st old.ptr old.id false
      cases nested with
      | none =>
        obtain rfl := Option.some.inj h₁
        exact ⟨hstart, hstart.alone hlive hne, hsame⟩
      | some b =>
        obtain ⟨hw, ha, hg⟩ := World.free_unfreed
          (w := { w with st := reallocateCMAChunkStart F w.st old.ptr false old.id }) (b := b) hstart hlive hne h₁
        exact ⟨hw, ha.sublist List.erase_sublist, fun a => (hg a).trans (hsame a)⟩
    by_cases hp : new.ptr = 0
    · rcases reallocateCMAChunkEnd_cases h₂ with ⟨-, rfl⟩ | ⟨hn, -⟩
      · rw [if_pos hp]
        split
        · exact hw₁.sublist List.erase_sublist
        · exact hw₁
      · exact absurd hp hn
    · have hout : new ∈ WorldEvent.handsOut (.realloc k₁ k₂ old nested freesOld new) := if_neg hp
      have hrest := hw₁.sublist (List.erase_sublist (a := old))
      have hap : ∀ o ∈ w₁.live.erase old, new.Apart F.rz o := (hnew hp).2 w₁ h₁
      rw [if_neg hp]
      show Unfreed F st (new :: w₁.live.erase old)
      rcases reallocateCMAChunkEnd_cases h₂ with ⟨h0 | h0, rfl⟩ | ⟨-, -, s₁, s₂, hs₁, hs₂, rfl⟩
      · exact absurd h0 hp
      · -- the new object is empty, and the hook does nothing
        exact hrest.handOut_empty fun hn => hn (by rw [h0, Nat.zero_mul])
      · have hlock := hrest.same (State.Same.lock F)
        have hrel := hlock.releaseOld (halone.of_get fun a => by rw [State.lock_tlt]) hs₁
        have hnone : new.Nonempty → extendSize F.rz new.size new.granularity false = new.size →
            tltGet s₁.tlt new.ptr = none := fun hn hext => by
          rw [releaseOldChunk_get hs₁, State.lock_tlt, hget]
          exact hfresh new hout hn hext
        exact (hrel.handOut (hfits new hout) hap hnone hs₂).same (State.Same.unlock F)
  | reallocNull k o =>
    obtain ⟨st, h₂, rfl⟩ := Option.map_eq_some_iff.mp he
    have hf := hfits o rfl
    show Unfreed F st (o :: w.live)
    rcases reallocateNull_cases h₂ with ⟨h0 | h0, hsame⟩ | ⟨-, -, s₁, s₂, hsame, hs₂, rfl⟩
    · exact absurd h0 hlegal.1
    · exact (h.same hsame).handOut_empty fun hn => hn (by rw [h0, Nat.zero_mul])
    · have hget := hfresh o rfl
      rw [← hsame.tlt] at hget
      exact ((h.same hsame).handOut hf hlegal.2 hget hs₂).same (State.Same.unlock F)
  | clear k id =>
    obtain ⟨st, h₂, rfl⟩ := Option.map_eq_some_iff.mp he
    refine (h.sublist List.filter_sublist).clear (fun o ho => ?_) h₂
    simpa using List.of_mem_filter ho
  | gc id => exact Option.some.inj he ▸ h.gc id
  | reclaim o => exact Option.some.inj he ▸ h.sublist List.erase_sublist

/-- The quarantine is off. -/
def noQuarantineFlags : Flags := { isQuarantineZoneOn := false, rz := .default }

end Cmasan
