/-
# Which chunks a CLEAR drops

A `CLEAR` of an id should drop the chunks of the id and no others. Neither
holds in general. The entries of its list are addresses, so that an address
which another CMA reuses brings the other one's chunk into the `CLEAR`
(`clear_isolates_iff`; `isChunkValid` of the quarantine looks at the id of what
it finds). And `addCMAAllocChunk` starts over when the list is full, while the
`CLEAR` walks only up to the position: what is reached is what was listed
since the position last went back (`clear_reaches_iff`).

Key definitions: `ChunkKept`, `IsolatedFrom`, `Batch`, `Batch.Inv`, `Dropped`.
Key theorems: `clear_isolates_iff`, `hookStep_listed`, `clear_reaches_iff`.
-/
import Cmasan.Lib.Wrap
import Cmasan.ShadowRuns
import Cmasan.Traffic

namespace Cmasan

open Lib

/-! ### Chunks of other ids -/

/-- Nothing about the chunk changed: its entries, its info, the shadow of its range. -/
structure ChunkKept (s s' : State) (c : ℕ) : Prop where
  gets : ∀ a, tltGet s'.tlt a = some c ↔ tltGet s.tlt a = some c
  info : s'.tlt.info c = s.tlt.info c
  shadow : ∀ n ∈ (s.tlt.info c).granules, s'.shadow n = s.shadow n

/-- Every chunk that an entry of the list of `id` finds is one of `id`, and the
granules that it shares with a chunk of another id are poisoned already. -/
structure IsolatedFrom (F : Flags) (s : State) (id : ℕ) : Prop where
  own : ∀ c, Cleared s.tlt (s.listed id) c → (s.tlt.info c).cmaId = id
  apart : F.canPoisonMemory = true → ∀ c, Cleared s.tlt (s.listed id) c → ∀ a c', tltGet s.tlt a = some c' →
    (s.tlt.info c').cmaId ≠ id → ∀ n ∈ (s.tlt.info c').granules, (s.tlt.info c).poisons n →
      s.shadow n = kAsanHeapFreeMagic

/-- **What a `CLEAR` does to the chunks of other ids.** It keeps all of them,
in full, exactly if its list finds only chunks of its own id whose ranges are
apart from theirs, or are poisoned already where they are not. -/
theorem clear_isolates_iff {F : Flags} {s : State} (h : HookReachable F s) (k : Caller) (idA : ℕ) :
    ∃ s', clearCMAChunks F k s idA = some s' ∧
      ((∀ idB, idB ≠ idA → ∀ a c, tltGet s.tlt a = some c → (s.tlt.info c).cmaId = idB → ChunkKept s s' c) ↔
        IsolatedFrom F s idA) := by
  obtain ⟨s', he, hc⟩ := clearCMAChunks_spec F k h.inv idA
  refine ⟨s', he, ⟨fun hkept => ⟨fun c hcl => ?_, fun hp c hcl a c' hget hid n hn hpn => ?_⟩,
    fun hiso idB hne a c hget hid => ⟨fun a' => by rw [hc.gets], ?_, fun n hn => ?_⟩⟩⟩
  · -- a chunk of another id that is found would change its id
    by_contra hne
    obtain ⟨p, hm, hp⟩ := hcl
    have hinfo := (hkept _ hne p c (clearable_eq_some.mp hp).1 rfl).info
    rw [hc.released c ⟨p, hm, hp⟩] at hinfo
    exact hne (congrArg ChunkInfo.cmaId hinfo).symm
  · rw [← (hkept _ hid a c' hget rfl).shadow n hn]
    exact hc.poisoned hp c hcl n hpn
  · apply hc.kept
    intro hcl
    exact hne (hid.symm.trans (hiso.own c hcl))
  · by_cases hpois : F.canPoisonMemory = true ∧ ∃ c₁, Cleared s.tlt (s.listed idA) c₁ ∧ (s.tlt.info c₁).poisons n
    · obtain ⟨hp, c₁, hcl, hn₁⟩ := hpois
      calc s'.shadow n
          = kAsanHeapFreeMagic := hc.poisoned hp c₁ hcl n hn₁
        _ = s.shadow n := (hiso.apart hp c₁ hcl a c hget (fun he => hne (hid.symm.trans he)) n hn hn₁).symm
    · exact hc.shadow n fun c₁ hcl hp hn₁ => hpois ⟨hp, c₁, hcl, hn₁⟩

/-- An object of id 1 and one of id 2 apart from it, which a `CLEAR` of id 1 keeps. -/
theorem clear_isolates_apart :
    ∃ s s', HookRun defaultFlags
        [.allocate {} 0x602000000010 16 1 1 false, .allocate {} 0x602000000110 16 1 2 false] s ∧
      clearCMAChunks defaultFlags {} s 1 = some s' ∧ (s'.tlt.info 0).status = .deallocated ∧ ChunkKept s s' 1 := by
  have h : ((exec (hookStep defaultFlags) (fun _ _ => True) .initial
      [.allocate {} 0x602000000010 16 1 1 false, .allocate {} 0x602000000110 16 1 2 false]).bind fun s =>
      (clearCMAChunks defaultFlags {} s 1).map fun s' =>
        ((s.listed 1, clearable s.tlt 0x602000000010, tltGet s.tlt 0x602000000110, s.tlt.nextInfo),
          (s.tlt.info 0, s.tlt.info 1), (s'.tlt.info 0).status)) =
      some (([0x602000000010], some 0, some 1, 2),
        (⟨0x602000000010, 16, 24, .allocated, 1, 0, 0, 0, kInvalidTid, 5⟩,
          ⟨0x602000000110, 16, 24, .allocated, 2, 0, 0, 0, kInvalidTid, 5⟩), .deallocated) := by
    decide +kernel
  obtain ⟨s, hs, h⟩ := Option.bind_eq_some_iff.mp h
  obtain ⟨s', hs', h⟩ := Option.map_eq_some_iff.mp h
  simp only [Prod.mk.injEq] at h
  obtain ⟨⟨hlist, hcl, hget, hnext⟩, ⟨h0, h1⟩, hst⟩ := h
  have hrun : HookReachable defaultFlags s := ⟨_, runs_of_exec hs⟩
  have honly : ∀ c, Cleared s.tlt (s.listed 1) c → c = 0 := by
    rintro c ⟨p, hp, hc⟩
    rw [hlist, List.mem_singleton] at hp
    rw [hp, hcl] at hc
    exact (Option.some.inj hc).symm
  have hiso : IsolatedFrom defaultFlags s 1 := by
    refine ⟨fun c hc => ?_, fun _ c hc a c' hget' hid n hn hpn => ?_⟩
    · rw [honly c hc, h0]
    · -- the other chunk is the second one, and the ranges are apart
      have hlt := hrun.inv.tlt.used _ _ (tltGet_eq_some.mp hget').2.1
      have hne : c' ≠ 0 := by
        rintro rfl
        exact hid (by rw [h0])
      obtain rfl : c' = 1 := by omega
      rw [honly c hc, h0] at hpn
      rw [h1] at hn
      have hlo := (mem_granules.mp hn).1
      have hhi : n < 0x602000000038 / 8 := hpn.2
      simp only at hlo
      omega
  obtain ⟨s₁, he, hiff⟩ := clear_isolates_iff hrun {} 1
  obtain rfl := Option.some.inj (he.symm.trans hs')
  exact ⟨s, s₁, runs_of_exec hs, hs', hst, hiff.mpr hiso 2 (by decide) _ 1 hget (by rw [h1])⟩

/-- A pointer of id 1 is freed, its CMA hands the address out under id 2, and a
`CLEAR` of id 1 releases the object of id 2 and takes it over. -/
theorem clear_drops_reused :
    ∃ s s', HookRun { isQuarantineZoneOn := false, rz := .default }
        [.allocate {} 0x602000000010 16 1 1 false, .release {} 0x602000000010 1 false,
          .allocate {} 0x602000000010 16 1 2 false] s ∧
      clearCMAChunks { isQuarantineZoneOn := false, rz := .default } {} s 1 = some s' ∧
      tltGet s.tlt 0x602000000010 = some 1 ∧ (s.tlt.info 1).cmaId = 2 ∧ (s.tlt.info 1).status = .allocated ∧
      ¬ ChunkKept s s' 1 := by
  have h : ((exec (hookStep { isQuarantineZoneOn := false, rz := .default }) (fun _ _ => True) .initial
      [.allocate {} 0x602000000010 16 1 1 false, .release {} 0x602000000010 1 false,
        .allocate {} 0x602000000010 16 1 2 false]).bind fun s =>
      (clearCMAChunks { isQuarantineZoneOn := false, rz := .default } {} s 1).map fun s' =>
        (tltGet s.tlt 0x602000000010, (s.tlt.info 1).cmaId, (s.tlt.info 1).status, (s'.tlt.info 1).cmaId)) =
      some (some 1, 2, .allocated, 1) := by
    decide +kernel
  obtain ⟨s, hs, h⟩ := Option.bind_eq_some_iff.mp h
  obtain ⟨s', hs', h⟩ := Option.map_eq_some_iff.mp h
  simp only [Prod.mk.injEq] at h
  refine ⟨s, s', runs_of_exec hs, hs', h.1, h.2.1, h.2.2.1, fun hkept => ?_⟩
  have hid := congrArg ChunkInfo.cmaId hkept.info
  rw [h.2.1, h.2.2.2] at hid
  cases hid

/-! ### The list of an id -/

/-- The array and the position of a zone. -/
def AllocListZone.wrap (z : AllocListZone) : Wrap ℕ := ⟨z.allocList, z.pos⟩

theorem listed_addCMAAllocChunk {F : Flags} {s s' : State} {id ptr : ℕ}
    (h : s'.alz = addCMAAllocChunk F s.alz id ptr) (id' : ℕ) :
    s'.listed id' =
      if id' = id then (if F.alloczoneN ≤ (s.listed id).length then [] else s.listed id) ++ [ptr]
      else s.listed id' := by
  have hfind := s.alz.find_getOrCreate newAllocListZone id
  have hcell := s.alz.cell_getOrCreate newAllocListZone id
  have hview := s.alz.view_getOrCreate newAllocListZone id id'
  unfold State.listed
  rw [h]
  unfold addCMAAllocChunk
  rcases hg : s.alz.getOrCreate newAllocListZone id with ⟨z, a⟩
  rw [hg] at hfind hcell hview
  simp only at hfind hcell hview ⊢
  rw [Registry.view_set hfind]
  split
  · rw [hcell]
    exact Wrap.before_push F.alloczoneN (s.alz.view newAllocListZone id).wrap ptr
  · rw [hview]

theorem listed_reset {s s' : State} {id : ℕ}
    (h : s'.alz = (s.alz.getOrCreate newAllocListZone id).2.set (s.alz.getOrCreate newAllocListZone id).1
      { (s.alz.getOrCreate newAllocListZone id).2.cell (s.alz.getOrCreate newAllocListZone id).1 with pos := 0 })
    (id' : ℕ) : s'.listed id' = if id' = id then [] else s.listed id' := by
  unfold State.listed
  rw [h, Registry.view_set (s.alz.find_getOrCreate newAllocListZone id)]
  split
  · rfl
  · rw [s.alz.view_getOrCreate newAllocListZone id id']

theorem listed_congr {s s' : State} (h : s'.alz = s.alz) (id : ℕ) : s'.listed id = s.listed id := by
  unfold State.listed
  rw [h]

theorem clearLoop_alz {F : Flags} {k : Caller} {id : ℕ} {ptrs : List ℕ} {s s' : State}
    (he : clearLoop F k id ptrs s = some s') : s'.alz = s.alz := by
  refine clearLoop_rule (P := fun s₁ => s₁.alz = s.alz) ?_ ptrs rfl he
  rintro s₁ s₂ ptr c h₁ - hf
  rw [(freeChunk_cases hf).2.2.2.1, h₁]

/-- The call empties the list of the id. -/
def HookCall.Empties (id : ℕ) : HookCall → Prop
  | .clear _ id' | .gc id' => id' = id
  | _ => False

instance (id : ℕ) (e : HookCall) : Decidable (e.Empties id) :=
  match e with
  | .clear _ id' | .gc id' => inferInstanceAs (Decidable (id' = id))
  | .allocate _ _ _ _ _ _ | .release _ _ _ _ | .reallocateStart _ _ _ | .reallocateEnd _ _ _ _ _ _ _ =>
    instDecidableFalse

/-- The chunk that a call hands out under the id, if it is not empty. -/
def HookCall.handsOut (rz : RzOptions) (id : ℕ) (e : HookCall) : Option ChunkInfo :=
  (e.inserts rz).filter fun i => i.cmaId = id ∧ i.chunkSize ≠ 0

theorem handsOut_eq_some {rz : RzOptions} {id : ℕ} {e : HookCall} {i : ChunkInfo} :
    e.handsOut rz id = some i ↔ e.inserts rz = some i ∧ i.cmaId = id ∧ i.chunkSize ≠ 0 := by
  unfold HookCall.handsOut
  rw [Option.filter_eq_some_iff]
  simp

/-- A call empties the list of one id, or lists the chunk that it hands out, or
leaves the lists alone. -/
theorem hookStep_alz {F : Flags} {s s' : State} (h : s.Inv) {e : HookCall} (he : hookStep F s e = some s') :
    (∃ id, e.Empties id ∧ e.inserts F.rz = none ∧
      ∀ id', s'.listed id' = if id' = id then [] else s.listed id') ∨
    (e.inserts F.rz = none ∧ s'.alz = s.alz) ∨
    ∃ i, e.inserts F.rz = some i ∧
      s'.alz = if i.chunkSize ≠ 0 then addCMAAllocChunk F s.alz i.cmaId i.startAddr else s.alz := by
  cases e with
  | allocate k ptr size g id b => exact .inr (allocateCMAChunk_newEntry h he).lists
  | release k ptr id b =>
    obtain ⟨⟨r, s₁⟩, h₁, rfl⟩ := Option.map_eq_some_iff.mp he
    refine .inr (.inl ⟨rfl, ?_⟩)
    rcases releaseCMAChunk_retired h₁ with ⟨-, hs⟩ | ⟨c, i, hr, -⟩
    · exact hs.alz
    · exact hr.alz
  | reallocateStart oldPtr b id =>
    obtain rfl := Option.some.inj he
    refine .inr (.inl ⟨rfl, ?_⟩)
    rcases reallocateCMAChunkStart_cases F s oldPtr id b with ⟨-, hs⟩ | ⟨c, -, -, -, -, -, halz, -⟩
    · exact hs.alz
    · exact halz
  | reallocateEnd k oldPtr newPtr size g id b =>
    obtain ⟨s₁, -, -, halz, hnew⟩ := reallocateCMAChunkEnd_newEntry h he
    rw [← halz]
    exact .inr hnew.lists
  | clear k id =>
    refine .inl ⟨id, rfl, rfl, listed_reset ?_⟩
    simp only [hookStep, clearCMAChunks] at he
    obtain ⟨s₁, h₁, rfl⟩ := Option.map_eq_some_iff.mp he
    have halz := clearLoop_alz h₁
    rw [State.lock_alz] at halz
    rw [State.emit_alz]
    simp only [State.unlock_alz, halz]
  | gc id =>
    refine .inl ⟨id, rfl, rfl, listed_reset ?_⟩
    obtain rfl := Option.some.inj he
    rfl

/-- **The list of an id** after a call that does not empty it: the start of a
chunk handed out under the id comes to the end, or starts the list over. -/
theorem hookStep_listed {F : Flags} {s s' : State} (h : s.Inv) {e : HookCall} (he : hookStep F s e = some s')
    {id : ℕ} (hne : ¬ e.Empties id) :
    (e.handsOut F.rz id = none ∧ s'.listed id = s.listed id) ∨
      ∃ i, e.handsOut F.rz id = some i ∧
        s'.listed id = (if F.alloczoneN ≤ (s.listed id).length then [] else s.listed id) ++ [i.startAddr] := by
  rcases hookStep_alz h he with ⟨id', hempty, hn, hlist⟩ | ⟨hn, halz⟩ | ⟨i, hi, halz⟩
  · refine .inl ⟨by unfold HookCall.handsOut; rw [hn]; rfl, ?_⟩
    rw [hlist, if_neg]
    rintro rfl
    exact hne hempty
  · exact .inl ⟨by unfold HookCall.handsOut; rw [hn]; rfl, listed_congr halz id⟩
  · by_cases hz : i.chunkSize = 0
    · refine .inl ⟨?_, listed_congr (halz.trans (if_neg (not_not.mpr hz))) id⟩
      rw [Option.eq_none_iff_forall_ne_some]
      intro j hj
      obtain ⟨hj', -, hjz⟩ := handsOut_eq_some.mp hj
      obtain rfl := Option.some.inj (hi.symm.trans hj')
      exact hjz hz
    · have hlist := listed_addCMAAllocChunk (halz.trans (if_pos hz)) id
      by_cases hid : i.cmaId = id
      · refine .inr ⟨i, handsOut_eq_some.mpr ⟨hi, hid, hz⟩, ?_⟩
        rw [hlist, if_pos hid.symm, hid]
      · refine .inl ⟨?_, by rw [hlist, if_neg (fun he => hid he.symm)]⟩
        rw [Option.eq_none_iff_forall_ne_some]
        intro j hj
        obtain ⟨hj', hjd, -⟩ := handsOut_eq_some.mp hj
        obtain rfl := Option.some.inj (hi.symm.trans hj')
        exact hid hjd

/-! ### The chunks of its own id -/

/-- The runtime, and the names of the chunks handed out under an id since its
list was last emptied. -/
structure Batch where
  st : State
  made : List ℕ

/-- One call. -/
def Batch.step (F : Flags) (id : ℕ) (b : Batch) (e : HookCall) : Option Batch :=
  (hookStep F b.st e).map fun st =>
    ⟨st, if (e.handsOut F.rz id).isSome then b.made ++ [b.st.tlt.nextInfo] else b.made⟩

/-- The call does not empty the list, reuses no address of the chunks so far,
and hands out a chunk in the 48-bit space if it does so under the id. -/
structure Batch.Allowed (F : Flags) (id : ℕ) (b : Batch) (e : HookCall) : Prop where
  kept : ¬ e.Empties id
  apart : ∀ i ∈ e.inserts F.rz, ∀ c ∈ b.made, ¬ Overlap (b.st.tlt.info c) i
  bounded : ∀ i ∈ e.handsOut F.rz id, i.endAddr ≤ 2 ^ 48

instance (F : Flags) (id : ℕ) (b : Batch) (e : HookCall) : Decidable (b.Allowed F id e) :=
  decidable_of_iff (¬ e.Empties id ∧ (∀ i ∈ e.inserts F.rz, ∀ c ∈ b.made, ¬ Overlap (b.st.tlt.info c) i) ∧
      ∀ i ∈ e.handsOut F.rz id, i.endAddr ≤ 2 ^ 48)
    ⟨fun ⟨h1, h2, h3⟩ => ⟨h1, h2, h3⟩, fun ⟨h1, h2, h3⟩ => ⟨h1, h2, h3⟩⟩

/-- The start of the chunk named `c`. -/
def Batch.start (b : Batch) (c : ℕ) : ℕ := (b.st.tlt.info c).startAddr

/-- The chunks are where they were handed out, apart from each other, and the
list has the starts of those since it last started over. -/
structure Batch.Inv (F : Flags) (id : ℕ) (b : Batch) : Prop where
  inv : b.st.Inv
  listed : b.st.listed id = sinceWrap F.alloczoneN (b.made.map b.start)
  gets : ∀ c ∈ b.made, tltGet b.st.tlt (b.start c) = some c
  bounded : ∀ c ∈ b.made, (b.st.tlt.info c).endAddr ≤ 2 ^ 48
  apart : b.made.Pairwise fun c c' => ¬ Overlap (b.st.tlt.info c) (b.st.tlt.info c')

section Batch

variable {F : Flags} {id : ℕ} {b b' : Batch} {e : HookCall}

theorem Batch.Inv.stays (h : b.Inv F id) (hok : b.Allowed F id e) {st : State} (he : hookStep F b.st e = some st)
    {c : ℕ} (hc : c ∈ b.made) :
    tltGet st.tlt (b.start c) = some c ∧ SamePlace (st.tlt.info c) (b.st.tlt.info c) := by
  have hget := h.gets c hc
  apply hookStep_entry h.inv he hget
  intro i hi howns
  exact hok.apart i hi c hc ⟨_, (h.inv.tlt.tracks hget).2, howns⟩

theorem Batch.Inv.new (h : b.Inv F id) (hok : b.Allowed F id e) {st : State} (he : hookStep F b.st e = some st)
    {i : ChunkInfo} (hi : e.handsOut F.rz id = some i) :
    (st.tlt.info b.st.tlt.nextInfo).core = i.core ∧ tltGet st.tlt i.startAddr = some b.st.tlt.nextInfo := by
  obtain ⟨hins, -, hz⟩ := handsOut_eq_some.mp hi
  have h48 := hok.bounded i hi
  obtain ⟨t, -, hw, ⟨hn, -⟩ | ⟨j, hj, hov⟩⟩ := hookStep_table h.inv he
  · rw [hn] at hins
    cases hins
  · obtain rfl := Option.some.inj (hj.symm.trans hins)
    rw [← hw.nextInfo]
    obtain ⟨h0, hst, hcore⟩ := HookCall.inserts_facts hins
    exact ⟨hov.new.trans hcore.symm, hov.get_inside (by simp [hst]) ⟨h0, owns_start hz h48⟩⟩

theorem Batch.Inv.step (h : b.Inv F id) (hn : 0 < F.alloczoneN) (hok : b.Allowed F id e)
    (hs : b.step F id e = some b') : b'.Inv F id := by
  obtain ⟨st, he, rfl⟩ := Option.map_eq_some_iff.mp hs
  have hi : st.Inv := hookStep_inv h.inv he
  have hstart : ∀ c ∈ b.made, (st.tlt.info c).startAddr = b.start c := fun c hc => (h.stays hok he hc).2.startAddr
  have hgets : ∀ c ∈ b.made, tltGet st.tlt (st.tlt.info c).startAddr = some c := fun c hc => by
    rw [hstart c hc, (h.stays hok he hc).1]
  have hbounded : ∀ c ∈ b.made, (st.tlt.info c).endAddr ≤ 2 ^ 48 := fun c hc => by
    rw [(h.stays hok he hc).2.endAddr]
    exact h.bounded c hc
  have hapart : b.made.Pairwise fun c c' => ¬ Overlap (st.tlt.info c) (st.tlt.info c') := by
    refine h.apart.imp_of_mem ?_
    rintro c c' hc hc' hno ⟨n, h1, h2⟩
    exact hno ⟨n, (h.stays hok he hc).2.owns.mp h1, (h.stays hok he hc').2.owns.mp h2⟩
  have hmap : b.made.map (fun c => (st.tlt.info c).startAddr) = b.made.map b.start := List.map_congr_left hstart
  rcases hookStep_listed h.inv he hok.kept with ⟨hnone, hlist⟩ | ⟨i, hout, hlist⟩
  · rw [hnone]
    refine ⟨hi, ?_, hgets, hbounded, hapart⟩
    show st.listed id = sinceWrap F.alloczoneN (b.made.map fun c => (st.tlt.info c).startAddr)
    rw [hlist, h.listed, hmap]
  · obtain ⟨hcore, hget⟩ := h.new hok he hout
    obtain ⟨hs, hsize, hrz, -⟩ := ChunkInfo.core_eq_iff.mp hcore
    have hplace : SamePlace (st.tlt.info b.st.tlt.nextInfo) i := ⟨hs, hsize, hrz⟩
    rw [hout]
    refine ⟨hi, ?_, fun c hc => ?_, fun c hc => ?_, ?_⟩
    · show st.listed id = sinceWrap F.alloczoneN
        ((b.made ++ [b.st.tlt.nextInfo]).map fun c => (st.tlt.info c).startAddr)
      rw [List.map_append, hmap, List.map_singleton, hs, sinceWrap_snoc hn, ← h.listed, hlist]
    · rcases List.mem_append.mp hc with hc | hc
      · exact hgets c hc
      · obtain rfl := List.mem_singleton.mp hc
        show tltGet st.tlt (st.tlt.info b.st.tlt.nextInfo).startAddr = _
        rw [hs, hget]
    · rcases List.mem_append.mp hc with hc | hc
      · exact hbounded c hc
      · obtain rfl := List.mem_singleton.mp hc
        show (st.tlt.info b.st.tlt.nextInfo).endAddr ≤ _
        rw [hplace.endAddr]
        exact hok.bounded i hout
    · refine List.pairwise_append.mpr ⟨hapart, List.pairwise_singleton _ _, ?_⟩
      rintro c hc c' hc' ⟨n, h1, h2⟩
      obtain rfl := List.mem_singleton.mp hc'
      exact hok.apart i (handsOut_eq_some.mp hout).1 c hc
        ⟨n, (h.stays hok he hc).2.owns.mp h1, hplace.owns.mp h2⟩

theorem Batch.Inv.nodup (h : b.Inv F id) : b.made.Nodup := by
  refine h.apart.imp_of_mem ?_
  rintro c c' hc - hno rfl
  have howns := (h.inv.tlt.tracks (h.gets c hc)).2
  exact hno ⟨_, howns, howns⟩

/-- **Which of them a `CLEAR` finds**: those handed out since the list last
started over, as far as they are not released yet. -/
theorem Batch.Inv.cleared_iff (h : b.Inv F id) {c : ℕ} (hc : c ∈ b.made) :
    Cleared b.st.tlt (b.st.listed id) c ↔
      c ∈ sinceWrap F.alloczoneN b.made ∧ (b.st.tlt.info c).status ≠ .deallocated := by
  unfold Cleared
  rw [h.listed, sinceWrap_map]
  constructor
  · rintro ⟨p, hp, hcl⟩
    obtain ⟨c', hc', rfl⟩ := List.mem_map.mp hp
    obtain ⟨hget, hd, -⟩ := clearable_eq_some.mp hcl
    obtain rfl := Option.some.inj ((h.gets c' (List.mem_of_mem_drop hc')).symm.trans hget)
    exact ⟨hc', hd⟩
  · rintro ⟨hc', hd⟩
    exact ⟨b.start c, List.mem_map_of_mem hc', clearable_eq_some.mpr ⟨h.gets c hc, hd, rfl⟩⟩

theorem Batch.Inv.made_of_cleared (h : b.Inv F id) {c : ℕ} (hc : Cleared b.st.tlt (b.st.listed id) c) : c ∈ b.made := by
  obtain ⟨p, hp, hcl⟩ := hc
  rw [h.listed, sinceWrap_map] at hp
  obtain ⟨c', hc', rfl⟩ := List.mem_map.mp hp
  obtain ⟨hget, -⟩ := clearable_eq_some.mp hcl
  have hm := List.mem_of_mem_drop hc'
  rwa [Option.some.inj ((h.gets c' hm).symm.trans hget)] at hm

theorem Batch.Inv.granules (h : b.Inv F id) {c n : ℕ} (hc : c ∈ b.made) :
    Owns (b.st.tlt.info c) n ↔ n ∈ (b.st.tlt.info c).granules :=
  owns_iff_granules (h.inv.tlt.end_mod (h.gets c hc) (h.bounded c hc)) (h.bounded c hc)

theorem Batch.Inv.disjoint (h : b.Inv F id) {c c' n : ℕ} (hc : c ∈ b.made) (hc' : c' ∈ b.made) (hne : c' ≠ c)
    (hn : n ∈ (b.st.tlt.info c).granules) : n ∉ (b.st.tlt.info c').granules := by
  intro hn'
  have hsymm : Std.Symm fun c c' => ¬ Overlap (b.st.tlt.info c) (b.st.tlt.info c') :=
    ⟨fun _ _ hno ⟨m, h1, h2⟩ => hno ⟨m, h2, h1⟩⟩
  have hno := h.apart.forall hc hc' (Ne.symm hne)
  exact hno ⟨n, (h.granules hc).mpr hn, (h.granules hc').mpr hn'⟩

end Batch

/-- The chunk is released, and its whole range is poisoned. -/
def Dropped (s : State) (c : ℕ) : Prop :=
  (s.tlt.info c).status = .deallocated ∧ RangePoisoned (s.tlt.info c) s.shadow

/-- **A `CLEAR` drops** the chunks that it finds, and none of the others. -/
theorem Batch.Inv.dropped_iff {F : Flags} {id : ℕ} {b : Batch} (h : b.Inv F id) (hp : F.canPoisonMemory = true)
    {k : Caller} {s' : State} (hc : ClearedBy F k id (b.st.listed id) b.st s') {c : ℕ} (hm : c ∈ b.made) :
    Dropped s' c ↔ Dropped b.st c ∨
      c ∈ sinceWrap F.alloczoneN b.made ∧ (b.st.tlt.info c).status ≠ .deallocated := by
  have hal := h.inv.tlt.end_mod (h.gets c hm) (h.bounded c hm)
  rw [← h.cleared_iff hm]
  unfold Dropped
  by_cases hcl : Cleared b.st.tlt (b.st.listed id) c
  · rw [hc.released c hcl]
    have hpois : RangePoisoned (b.st.tlt.info c) s'.shadow := by
      apply rangePoisoned_of_magic hal
      intro n hn
      exact hc.poisoned hp c hcl n ((ChunkInfo.poisons_iff (h.bounded c hm)).mpr hn)
    exact ⟨fun _ => .inr hcl, fun _ => ⟨rfl, hpois⟩⟩
  · have hsame : ∀ n ∈ (b.st.tlt.info c).granules, s'.shadow n = b.st.shadow n := by
      intro n hn
      apply hc.shadow
      rintro c' hcl' - hn'
      have hm' := h.made_of_cleared hcl'
      have hne : c' ≠ c := fun he => hcl (he ▸ hcl')
      exact h.disjoint hm hm' hne hn ((ChunkInfo.poisons_iff (h.bounded c' hm')).mp hn')
    rw [hc.kept c hcl, rangePoisoned_congr hal hsame]
    exact ⟨.inl, fun ho => ho.resolve_right hcl⟩

/-- **Which of its chunks a `CLEAR` drops.** Of the latest `n` chunks handed out
under the id, each ends released and poisoned exactly if it was so before, or
it was not released and the list did not start over since. If none of them was
released, all end so exactly if the list never started over or is just full. -/
theorem clear_reaches_iff {F : Flags} {id : ℕ} {s₀ : State} {b : Batch} {es : List HookCall}
    (hn : 1 ≤ F.alloczoneN) (hp : F.canPoisonMemory = true) (h : HookReachable F s₀) (h0 : s₀.listed id = [])
    (hrun : Runs (Batch.step F id) (Batch.Allowed F id) ⟨s₀, []⟩ es b) (k : Caller) :
    ∃ s', clearCMAChunks F k b.st id = some s' ∧
      ((∀ c ∈ b.made.drop (b.made.length - F.alloczoneN), Dropped s' c) ↔
        ∀ c ∈ b.made.drop (b.made.length - F.alloczoneN), Dropped b.st c ∨
          c ∈ sinceWrap F.alloczoneN b.made ∧ (b.st.tlt.info c).status ≠ .deallocated) ∧
      ((∀ c ∈ b.made, (b.st.tlt.info c).status ≠ .deallocated) →
        ((∀ c ∈ b.made.drop (b.made.length - F.alloczoneN), Dropped s' c) ↔
          b.made.length ≤ F.alloczoneN ∨ F.alloczoneN ∣ b.made.length)) := by
  have hb : b.Inv F id := by
    refine Runs.invariant (fun hi hok he => Batch.Inv.step hi hn hok he) ?_ hrun
    refine ⟨h.inv, ?_, fun c hc => (by cases hc), fun c hc => (by cases hc), List.Pairwise.nil⟩
    rw [h0]
    exact (sinceWrap_nil _).symm
  obtain ⟨s', he, hc⟩ := clearCMAChunks_spec F k hb.inv id
  have hiff : (∀ c ∈ b.made.drop (b.made.length - F.alloczoneN), Dropped s' c) ↔
      ∀ c ∈ b.made.drop (b.made.length - F.alloczoneN), Dropped b.st c ∨
        c ∈ sinceWrap F.alloczoneN b.made ∧ (b.st.tlt.info c).status ≠ .deallocated :=
    forall₂_congr fun c hm => hb.dropped_iff hp hc (List.mem_of_mem_drop hm)
  refine ⟨s', he, hiff, fun hlive => ?_⟩
  rw [hiff, ← latest_sinceWrap_iff hn hb.nodup]
  apply forall₂_congr
  intro c hm
  have hd := hlive c (List.mem_of_mem_drop hm)
  exact ⟨fun ho => (ho.resolve_left fun hdrop => hd hdrop.1).1, fun hw => .inr ⟨hw, hd⟩⟩

/-- A list of two. -/
def twoListedFlags : Flags := { alloczoneN := 2, rz := .default }

/-- Two chunks fill the list, and the `CLEAR` drops both. -/
theorem clear_reaches_full :
    ∃ b s', Runs (Batch.step twoListedFlags 1) (Batch.Allowed twoListedFlags 1) ⟨.initial, []⟩
        [.allocate {} 0x602000000010 16 1 1 false, .allocate {} 0x602000000110 16 1 1 false] b ∧
      clearCMAChunks twoListedFlags {} b.st 1 = some s' ∧ b.made = [0, 1] ∧ ∀ c ∈ [0, 1], Dropped s' c := by
  have h : (exec (Batch.step twoListedFlags 1) (Batch.Allowed twoListedFlags 1) ⟨.initial, []⟩
      [.allocate {} 0x602000000010 16 1 1 false, .allocate {} 0x602000000110 16 1 1 false]).map
        (fun b => (b.made, (b.st.tlt.info 0).status, (b.st.tlt.info 1).status)) =
      some ([0, 1], .allocated, .allocated) := by
    decide +kernel
  obtain ⟨b, hb, h⟩ := Option.map_eq_some_iff.mp h
  obtain ⟨hmade, h0, h1⟩ : b.made = [0, 1] ∧ (b.st.tlt.info 0).status = .allocated ∧
      (b.st.tlt.info 1).status = .allocated := by
    simpa only [Prod.mk.injEq] using h
  have hrun := runs_of_exec hb
  obtain ⟨s', he, -, hlive⟩ := clear_reaches_iff (F := twoListedFlags) (by decide) rfl ⟨[], .nil⟩ rfl hrun {}
  refine ⟨b, s', hrun, he, hmade, ?_⟩
  have hall := (hlive fun c hc => ?_).mpr (.inl (by rw [hmade]; decide))
  · rwa [hmade] at hall
  · rw [hmade] at hc
    simp only [List.mem_cons, List.not_mem_nil, or_false] at hc
    rcases hc with rfl | rfl <;> simp [h0, h1]

/-- A third chunk starts the list over, and the `CLEAR` misses the second. -/
theorem clear_misses_second :
    ∃ b s', Runs (Batch.step twoListedFlags 1) (Batch.Allowed twoListedFlags 1) ⟨.initial, []⟩
        [.allocate {} 0x602000000010 16 1 1 false, .allocate {} 0x602000000110 16 1 1 false,
          .allocate {} 0x602000000210 16 1 1 false] b ∧
      clearCMAChunks twoListedFlags {} b.st 1 = some s' ∧
      b.made.drop (b.made.length - twoListedFlags.alloczoneN) = [1, 2] ∧
      (s'.tlt.info 1).status = .allocated ∧ ¬ Dropped s' 1 := by
  have h : ((exec (Batch.step twoListedFlags 1) (Batch.Allowed twoListedFlags 1) ⟨.initial, []⟩
      [.allocate {} 0x602000000010 16 1 1 false, .allocate {} 0x602000000110 16 1 1 false,
        .allocate {} 0x602000000210 16 1 1 false]).bind fun b =>
      (clearCMAChunks twoListedFlags {} b.st 1).map fun s' =>
        (b.made.drop (b.made.length - twoListedFlags.alloczoneN), (s'.tlt.info 1).status)) =
      some ([1, 2], .allocated) := by
    decide +kernel
  obtain ⟨b, hb, h⟩ := Option.bind_eq_some_iff.mp h
  obtain ⟨s', hs', h⟩ := Option.map_eq_some_iff.mp h
  simp only [Prod.mk.injEq] at h
  refine ⟨b, s', runs_of_exec hb, hs', h.1, h.2, fun hd => ?_⟩
  rw [hd.1] at h
  cases h.2

end Cmasan
