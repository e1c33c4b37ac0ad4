/-
# What any hook does to the table

A hook writes the infos of the chunks that it finds, at its pointer arguments
or at the entries of a list, and may then insert one chunk. `Wrote` says that
the infos of some chunks were written, never their place, and `Overlaid` that
a chunk was inserted over its granules, which may go around the end of the
48-bit space. Every hook is the one after the other (`hookStep_table`). So a
chunk that no insert overlaps keeps its granules and its place under any
traffic (`hookStep_entry`), and one that is not touched either keeps its whole
info (`hookStep_untouched`).

Key definitions: `Tracks`, `Overlap`, `insertedInfo`, `HookCall.inserts`,
`HookCall.pointers`, `HookCall.Touches`, `HookCall.Avoids`, `Wrote`, `Overlaid`.
Key theorems: `allocateCMAChunkImpl_newEntry`, `hookStep_table`,
`hookStep_entry`, `hookStep_untouched`, `hookStep_stays`.
-/
import Cmasan.Clears

namespace Cmasan

open Lib

/-! ### Ranges -/

/-- A granule of a range by its distance from the first one. -/
theorem covers_iff_distance {a K n : ℕ} :
    Covers a K n ↔ n < 2 ^ 45 ∧ (n + 2 ^ 45 - a % 2 ^ 45) % 2 ^ 45 < K := by
  unfold Covers
  constructor
  · rintro ⟨j, hj, rfl⟩
    omega
  · rintro ⟨hn, hd⟩
    exact ⟨_, hd, by omega⟩

instance (a K n : ℕ) : Decidable (Covers a K n) := decidable_of_iff _ covers_iff_distance.symm

instance (i : ChunkInfo) (n : ℕ) : Decidable (Owns i n) := by unfold Owns; infer_instance

/-- The address is one of those for which the table was written when the
chunk was inserted. -/
def Tracks (i : ChunkInfo) (a : ℕ) : Prop := a ≠ 0 ∧ Owns i (granule a)

instance (i : ChunkInfo) (a : ℕ) : Decidable (Tracks i a) := by unfold Tracks; infer_instance

theorem owns_iff_granules {i : ChunkInfo} (hal : i.endAddr % 8 = 0) (h48 : i.endAddr ≤ 2 ^ 48) {n : ℕ} :
    Owns i n ↔ n ∈ i.granules := by
  unfold ChunkInfo.granules
  unfold ChunkInfo.endAddr at hal h48 ⊢
  unfold Owns
  rw [covers_iff hal h48, mem_granules]
  unfold roundDownTo
  omega

theorem owns_start {i : ChunkInfo} (hz : i.chunkSize ≠ 0) (h48 : i.endAddr ≤ 2 ^ 48) :
    Owns i (granule i.startAddr) := by
  unfold ChunkInfo.endAddr at h48
  unfold Owns roundUpTo
  rw [uadd_eq (a := i.chunkSize) (by omega), uadd_eq (by omega)]
  exact ⟨0, by omega, rfl⟩

/-- Two infos with the same range. -/
structure SamePlace (i j : ChunkInfo) : Prop where
  startAddr : i.startAddr = j.startAddr
  chunkSize : i.chunkSize = j.chunkSize
  rzSize : i.rzSize = j.rzSize

theorem SamePlace.refl (i : ChunkInfo) : SamePlace i i := ⟨rfl, rfl, rfl⟩

theorem SamePlace.trans {i j l : ChunkInfo} (h : SamePlace i j) (h' : SamePlace j l) : SamePlace i l :=
  ⟨h.startAddr.trans h'.startAddr, h.chunkSize.trans h'.chunkSize, h.rzSize.trans h'.rzSize⟩

theorem SamePlace.of_core {i j : ChunkInfo} (h : i.core = j.core) : SamePlace i j :=
  have h' := ChunkInfo.core_eq_iff.mp h
  ⟨h'.1, h'.2.1, h'.2.2.1⟩

theorem SamePlace.owns {i j : ChunkInfo} (h : SamePlace i j) {n : ℕ} : Owns i n ↔ Owns j n := by
  unfold Owns
  rw [h.startAddr, h.chunkSize, h.rzSize]

theorem SamePlace.endAddr {i j : ChunkInfo} (h : SamePlace i j) : i.endAddr = j.endAddr := by
  unfold ChunkInfo.endAddr
  rw [h.startAddr, h.chunkSize, h.rzSize]

/-- The ranges of two chunks have a granule in common. -/
def Overlap (i j : ChunkInfo) : Prop := ∃ n, Owns i n ∧ Owns j n

theorem overlap_iff {i j : ChunkInfo} : Overlap i j ↔
    ∃ n ∈ [granule i.startAddr, granule j.startAddr], Owns i n ∧ Owns j n := by
  constructor
  · rintro ⟨n, hi, hj⟩
    unfold Owns at hi hj ⊢
    rw [covers_iff_distance] at hi hj
    simp only [List.mem_cons, List.not_mem_nil, or_false, exists_eq_or_imp, exists_eq_left, covers_iff_distance]
    unfold granule
    omega
  · rintro ⟨n, -, h⟩
    exact ⟨n, h⟩

instance (i j : ChunkInfo) : Decidable (Overlap i j) := decidable_of_iff _ overlap_iff.symm

/-! ### Writes to infos -/

/-- From `t` to `t'` the infos of chunks in `C` were written, which stay where they are. -/
structure Wrote (t t' : Tlt) (C : ℕ → Prop) : Prop where
  slots : ∀ n, slot t' n = slot t n
  gets : ∀ a, tltGet t' a = tltGet t a
  nextInfo : t'.nextInfo = t.nextInfo
  place : ∀ c, SamePlace (t'.info c) (t.info c)
  info : ∀ c, ¬ C c → t'.info c = t.info c

theorem Wrote.refl (t : Tlt) (C : ℕ → Prop) : Wrote t t C :=
  ⟨fun _ => rfl, fun _ => rfl, rfl, fun _ => .refl _, fun _ _ => rfl⟩

theorem Wrote.setInfo {t : Tlt} {C : ℕ → Prop} {a c : ℕ} {i : ChunkInfo} (hget : tltGet t a = some c)
    (hi : i.status ≠ .none) (hp : SamePlace i (t.info c)) (hc : C c) : Wrote t (t.setInfo c i) C := by
  refine ⟨fun _ => rfl, fun a' => tltGet_setInfo hget hi a', rfl, fun c' => ?_, fun c' hc' => ?_⟩
  · rw [info_setInfo]
    split
    · rename_i he
      rw [he]
      exact hp
    · exact .refl _
  · rw [info_setInfo, if_neg]
    rintro rfl
    exact hc' hc

/-! ### Inserts -/

/-- `t'` is `t` with a new chunk of info `i`, but for the count, over its granules. -/
structure Overlaid (t t' : Tlt) (i : ChunkInfo) : Prop where
  nextInfo : t'.nextInfo = t.nextInfo + 1
  new : (t'.info t.nextInfo).core = i
  old : ∀ c, c ≠ t.nextInfo → (t'.info c).core = (t.info c).core
  inside : ∀ n, Owns i n → slot t' n = some t.nextInfo
  outside : ∀ n, ¬ Owns i n → slot t' n = slot t n

theorem tltInsert_overlaid {t t' : Tlt} (h : t.Inv) {key chunkSize rzSize id stack tid : ℕ} (hk : key ≠ 0)
    (he : tltInsert t key chunkSize rzSize id stack tid = some t') :
    Overlaid t t' (newChunk key chunkSize rzSize id stack tid) := by
  by_cases ha : isAligned (uadd (uadd key chunkSize) rzSize) 8
  · obtain ⟨t₁, he₁, -, hnext, hnew, hold, hin, hout⟩ := tltInsert_spec h id stack tid hk ha
    obtain rfl := Option.some.inj (he₁.symm.trans he)
    exact ⟨hnext, hnew, hold, hin, hout⟩
  · unfold tltInsert at he
    rw [if_neg hk, if_neg ha] at he
    cases he

/-- The info that a hand-out inserts, if it inserts one. -/
def insertedInfo (rz : RzOptions) (k : Caller) (ptr size granularity id : ℕ) : Option ChunkInfo :=
  if umul size granularity ≠ 0 then
    if extendSize rz size granularity false = size then none
    else
      let extendedChunkEnd := roundDownTo (uadd ptr (umul (extendSize rz size granularity false) granularity)) 8
      some (newChunk ptr (umul size granularity) (u32 (usub (usub extendedChunkEnd ptr) (umul size granularity)))
        id k.stackId k.tid)
  else some (newChunk ptr 0 (u32 (usub (roundDownTo (uadd ptr 8) 8) ptr)) id k.stackId k.tid)

theorem insertedInfo_newChunk {rz : RzOptions} {k : Caller} {ptr size g id : ℕ} {i : ChunkInfo}
    (h : insertedInfo rz k ptr size g id = some i) :
    ∃ r, i = newChunk ptr (umul size g) r id k.stackId k.tid := by
  unfold insertedInfo at h
  by_cases hz : umul size g = 0
  · rw [if_neg (not_not.mpr hz)] at h
    rw [hz]
    exact ⟨_, (Option.some.inj h).symm⟩
  · rw [if_pos hz] at h
    by_cases hext : extendSize rz size g false = size
    · rw [if_pos hext] at h
      cases h
    · rw [if_neg hext] at h
      exact ⟨_, (Option.some.inj h).symm⟩

/-- From `s` to `s'` the info, if there is one, became that of a new chunk,
which is listed under its id unless it is empty. -/
inductive NewEntry (F : Flags) (s s' : State) : Option ChunkInfo → Prop
  | nothing : s'.tlt = s.tlt → s'.alz = s.alz → NewEntry F s s' none
  | chunk {i : ChunkInfo} : Overlaid s.tlt s'.tlt i →
      (s'.alz = if i.chunkSize ≠ 0 then addCMAAllocChunk F s.alz i.cmaId i.startAddr else s.alz) →
      NewEntry F s s' (some i)

section NewEntry

variable {F : Flags} {s s' s₁ s₁' : State} {o : Option ChunkInfo}

theorem NewEntry.refl (F : Flags) (s : State) : NewEntry F s s none := .nothing rfl rfl

theorem NewEntry.congr (h : NewEntry F s s' o) (ht : s.tlt = s₁.tlt) (ha : s.alz = s₁.alz) (ht' : s₁'.tlt = s'.tlt)
    (ha' : s₁'.alz = s'.alz) : NewEntry F s₁ s₁' o := by
  cases h with
  | nothing h1 h2 => exact .nothing (ht'.trans (h1.trans ht)) (ha'.trans (h2.trans ha))
  | chunk h1 h2 =>
    rw [ht, ← ht'] at h1
    rw [ha, ← ha'] at h2
    exact .chunk h1 h2

theorem NewEntry.table (h : NewEntry F s s' o) :
    (o = none ∧ s'.tlt = s.tlt) ∨ ∃ i, o = some i ∧ Overlaid s.tlt s'.tlt i := by
  cases h with
  | nothing h1 h2 => exact .inl ⟨rfl, h1⟩
  | chunk h1 h2 => exact .inr ⟨_, rfl, h1⟩

theorem NewEntry.lists (h : NewEntry F s s' o) :
    (o = none ∧ s'.alz = s.alz) ∨
      ∃ i, o = some i ∧
        s'.alz = if i.chunkSize ≠ 0 then addCMAAllocChunk F s.alz i.cmaId i.startAddr else s.alz := by
  cases h with
  | nothing h1 h2 => exact .inl ⟨rfl, h2⟩
  | chunk h1 h2 => exact .inr ⟨_, rfl, h2⟩

end NewEntry

/-- **A hand-out** enters its info, if it has one, and changes nothing else of
the table and the lists. -/
theorem allocateCMAChunkImpl_newEntry {F : Flags} {k : Caller} {s s' : State} (h : s.Inv)
    {ptr size g id : ℕ} (hp : ptr ≠ 0) (he : allocateCMAChunkImpl F k s ptr size g id = some s') :
    NewEntry F s s' (insertedInfo F.rz k ptr size g id) := by
  unfold allocateCMAChunkImpl at he
  unfold insertedInfo
  simp only at he ⊢
  by_cases hz : umul size g = 0
  · rw [if_neg (not_not.mpr hz)] at he ⊢
    obtain ⟨t, ht, he⟩ := Option.bind_eq_some_iff.mp he
    obtain ⟨shadow, -, rfl⟩ := Option.map_eq_some_iff.mp he
    rw [hz] at ht
    apply NewEntry.chunk (tltInsert_overlaid h.tlt hp ht)
    simp [newChunk]
  · rw [if_pos hz] at he ⊢
    by_cases hext : extendSize F.rz size g false = size
    · rw [if_pos hext] at he ⊢
      obtain rfl := Option.some.inj he
      exact .refl F s
    · rw [if_neg hext] at he ⊢
      obtain ⟨t, ht, he⟩ := Option.bind_eq_some_iff.mp he
      obtain ⟨shadow, -, rfl⟩ := Option.map_eq_some_iff.mp he
      apply NewEntry.chunk (tltInsert_overlaid h.tlt hp ht)
      exact (if_pos hz).symm

section Overlaid

variable {t t' : Tlt} {i : ChunkInfo}

theorem Overlaid.get_outside (h : Overlaid t t' i) (ht : t.Inv) {a : ℕ} (ha : ¬ Owns i (granule a)) :
    tltGet t' a = tltGet t a := by
  unfold tltGet
  split
  · rfl
  · rw [tltGetInternal_eq, tltGetInternal_eq, h.outside _ ha]
    cases hs : slot t (granule a) with
    | none => rfl
    | some c =>
      have hst := (ChunkInfo.core_eq_iff.mp (h.old c (ht.used _ _ hs).ne)).2.2.2.1
      simp only [Option.filter, hst]

theorem Overlaid.get_inside (h : Overlaid t t' i) (hi : i.status ≠ .none) {a : ℕ} (ha : Tracks i a) :
    tltGet t' a = some t.nextInfo := by
  have hst : (t'.info t.nextInfo).core.status = i.status := by rw [h.new]
  exact tltGet_eq_some.mpr ⟨ha.1, h.inside _ ha.2, hst ▸ hi⟩

end Overlaid

/-! ### Hooks -/

/-- The pointer arguments of a call. -/
def HookCall.pointers : HookCall → List ℕ
  | .allocate _ ptr _ _ _ _ => [ptr]
  | .release _ ptr _ _ => [ptr]
  | .reallocateStart oldPtr _ _ => [oldPtr]
  | .reallocateEnd _ oldPtr newPtr _ _ _ _ => [oldPtr, newPtr]
  | .clear _ _ => []
  | .gc _ => []

/-- The call is a `CLEAR`. -/
def HookCall.isClear : HookCall → Bool
  | .clear _ _ => true
  | _ => false

/-- The info that a call inserts, if it inserts one. -/
def HookCall.inserts (rz : RzOptions) : HookCall → Option ChunkInfo
  | .allocate k ptr size granularity id isInCma =>
    if isInCma ∨ ptr = 0 then none else insertedInfo rz k ptr size granularity id
  | .reallocateEnd k _ newPtr size granularity id isInCma =>
    if isInCma ∨ newPtr = 0 ∨ size = 0 then none else insertedInfo rz k newPtr size granularity id
  | .release _ _ _ _ | .reallocateStart _ _ _ | .clear _ _ | .gc _ => none

theorem HookCall.inserts_facts {rz : RzOptions} {e : HookCall} {i : ChunkInfo} (h : e.inserts rz = some i) :
    i.startAddr ≠ 0 ∧ i.status = .allocated ∧ i.core = i := by
  cases e with
  | allocate k ptr size g id b =>
    simp only [HookCall.inserts] at h
    by_cases hb : b = true ∨ ptr = 0
    · rw [if_pos hb] at h
      cases h
    · rw [if_neg hb] at h
      obtain ⟨r, rfl⟩ := insertedInfo_newChunk h
      exact ⟨fun h0 => hb (.inr h0), rfl, rfl⟩
  | reallocateEnd k oldPtr newPtr size g id b =>
    simp only [HookCall.inserts] at h
    by_cases hb : b = true ∨ newPtr = 0 ∨ size = 0
    · rw [if_pos hb] at h
      cases h
    · rw [if_neg hb] at h
      obtain ⟨r, rfl⟩ := insertedInfo_newChunk h
      exact ⟨fun h0 => hb (.inr (.inl h0)), rfl, rfl⟩
  | release k ptr id b => cases h
  | reallocateStart oldPtr b id => cases h
  | clear k id => cases h
  | gc id => cases h

/-- The chunks that a call finds: at the pointer that it releases or
reallocates, or at an entry of the list that it walks. -/
def HookCall.Touches (s : State) : HookCall → ℕ → Prop
  | .release _ ptr _ _, c => tltGet s.tlt ptr = some c
  | .reallocateStart oldPtr _ _, c => tltGet s.tlt oldPtr = some c
  | .reallocateEnd _ oldPtr _ _ _ _ _, c => tltGet s.tlt oldPtr = some c
  | .clear _ id, c => Cleared s.tlt (s.listed id) c
  | .allocate _ _ _ _ _ _, _ | .gc _, _ => False

instance (s : State) (e : HookCall) (c : ℕ) : Decidable (e.Touches s c) :=
  match e with
  | .release _ ptr _ _ => inferInstanceAs (Decidable (tltGet s.tlt ptr = some c))
  | .reallocateStart oldPtr _ _ => inferInstanceAs (Decidable (tltGet s.tlt oldPtr = some c))
  | .reallocateEnd _ oldPtr _ _ _ _ _ => inferInstanceAs (Decidable (tltGet s.tlt oldPtr = some c))
  | .clear _ id => inferInstanceAs (Decidable (Cleared s.tlt (s.listed id) c))
  | .allocate _ _ _ _ _ _ | .gc _ => instDecidableFalse

theorem releaseCMAChunk_wrote {F : Flags} {k : Caller} {s s' : State} {ptr id r : ℕ} {b : Bool}
    (he : releaseCMAChunk F k s ptr id b = some (r, s')) :
    Wrote s.tlt s'.tlt fun c => tltGet s.tlt ptr = some c := by
  rcases releaseCMAChunk_retired he with ⟨-, hs⟩ | ⟨c, i, hr, hst, hstart, hsize, hrz⟩
  · rw [hs.tlt]
    exact .refl _ _
  · rw [hr.tlt]
    exact .setInfo hr.get (by simp [hst]) ⟨hstart, hsize, hrz⟩ hr.get

theorem reallocateCMAChunkStart_wrote (F : Flags) (s : State) (oldPtr id : ℕ) (b : Bool) :
    Wrote s.tlt (reallocateCMAChunkStart F s oldPtr b id).tlt fun c => tltGet s.tlt oldPtr = some c := by
  rcases reallocateCMAChunkStart_cases F s oldPtr id b with ⟨-, hs⟩ | ⟨c, -, hget, ht, -⟩
  · rw [hs.tlt]
    exact .refl _ _
  · rw [ht]
    exact .setInfo hget (by simp) ⟨rfl, rfl, rfl⟩ hget

theorem releaseOldChunk_wrote {F : Flags} {k : Caller} {s s' : State} {oldPtr newPtr id : ℕ}
    (he : releaseOldChunk F k s oldPtr newPtr id = some s') :
    Wrote s.tlt s'.tlt fun c => tltGet s.tlt oldPtr = some c := by
  rcases (releaseOldChunk_cases he).2 with
    ⟨-, rfl⟩ | ⟨c, hget, ⟨-, rfl⟩ | ⟨-, -, ht, -⟩ | ⟨-, -, ⟨-, rfl⟩ | rfl⟩⟩
  · exact .refl _ _
  · exact .setInfo hget (by simp) ⟨rfl, rfl, rfl⟩ hget
  · rw [ht]
    exact .setInfo hget (by simp [ChunkInfo.released]) ⟨rfl, rfl, rfl⟩ hget
  · exact .refl _ _
  · exact .setInfo hget (by simp) ⟨rfl, rfl, rfl⟩ hget

theorem ClearedBy.wrote {F : Flags} {k : Caller} {id : ℕ} {ptrs : List ℕ} {s s' : State}
    (h : ClearedBy F k id ptrs s s') : Wrote s.tlt s'.tlt (Cleared s.tlt ptrs) := by
  refine ⟨h.slots, h.gets, h.nextInfo, fun c => ?_, h.kept⟩
  by_cases hc : Cleared s.tlt ptrs c
  · rw [h.released c hc]
    exact ⟨rfl, rfl, rfl⟩
  · rw [h.kept c hc]
    exact .refl _

theorem allocateCMAChunk_newEntry {F : Flags} {k : Caller} {s s' : State} (h : s.Inv) {ptr size g id : ℕ} {b : Bool}
    (he : allocateCMAChunk F k s ptr size g id b = some s') :
    NewEntry F s s' ((HookCall.allocate k ptr size g id b).inserts F.rz) := by
  simp only [HookCall.inserts]
  rcases allocateCMAChunk_path he with ⟨hb, rfl⟩ | ⟨hb, s₁, h₁, rfl⟩
  · rw [if_pos hb]
    exact .refl F _
  · rw [if_neg hb]
    have hnew := allocateCMAChunkImpl_newEntry h.lock (fun h0 => hb (.inr h0)) h₁
    exact hnew.congr (by simp) (by simp) (by simp) (by simp)

/-- The old chunk of a `realloc` is written first. -/
theorem reallocateCMAChunkEnd_newEntry {F : Flags} {k : Caller} {s s' : State} (h : s.Inv)
    {oldPtr newPtr size g id : ℕ} {b : Bool} (he : reallocateCMAChunkEnd F k s oldPtr newPtr size g id b = some s') :
    ∃ s₁, s₁.Inv ∧ Wrote s.tlt s₁.tlt (fun c => tltGet s.tlt oldPtr = some c) ∧ s₁.alz = s.alz ∧
      NewEntry F s₁ s' ((HookCall.reallocateEnd k oldPtr newPtr size g id b).inserts F.rz) := by
  simp only [HookCall.inserts]
  rcases reallocateCMAChunkEnd_path he with ⟨hb, rfl⟩ | ⟨hb, s₁, s₂, h₁, h₂, rfl⟩
  · rw [if_pos hb]
    exact ⟨_, h, .refl _ _, rfl, .refl F _⟩
  · rw [if_neg hb]
    have hi := releaseOldChunk_inv h.lock h₁
    have hw := releaseOldChunk_wrote h₁
    rw [State.lock_tlt] at hw
    have halz : s₁.alz = s.alz := by rw [(releaseOldChunk_cases h₁).1.alz, State.lock_alz]
    have hnew := allocateCMAChunkImpl_newEntry hi (fun h0 => hb (.inr (.inl h0))) h₂
    exact ⟨s₁, hi, hw, halz, hnew.congr rfl rfl (by simp) (by simp)⟩

/-- **Every hook** writes the infos of the chunks that it touches and then
inserts its chunk, if it has one. -/
theorem hookStep_table {F : Flags} {s s' : State} (h : s.Inv) {e : HookCall}
    (he : hookStep F s e = some s') :
    ∃ t, t.Inv ∧ Wrote s.tlt t (e.Touches s) ∧
      ((e.inserts F.rz = none ∧ s'.tlt = t) ∨
        ∃ i, e.inserts F.rz = some i ∧ Overlaid t s'.tlt i) := by
  cases e with
  | allocate k ptr size g id b =>
    exact ⟨s.tlt, h.tlt, .refl _ _, (allocateCMAChunk_newEntry h he).table⟩
  | release k ptr id b =>
    obtain ⟨⟨r, s₁⟩, h₁, rfl⟩ := Option.map_eq_some_iff.mp he
    exact ⟨_, (releaseCMAChunk_inv h h₁).tlt, releaseCMAChunk_wrote h₁, .inl ⟨rfl, rfl⟩⟩
  | reallocateStart oldPtr b id =>
    obtain rfl := Option.some.inj he
    exact ⟨_, (reallocateCMAChunkStart_inv h oldPtr id b).tlt, reallocateCMAChunkStart_wrote F s oldPtr id b,
      .inl ⟨rfl, rfl⟩⟩
  | reallocateEnd k oldPtr newPtr size g id b =>
    obtain ⟨s₁, hi, hw, -, hnew⟩ := reallocateCMAChunkEnd_newEntry h he
    exact ⟨s₁.tlt, hi.tlt, hw, hnew.table⟩
  | clear k id =>
    obtain ⟨s₁, h₁, hc⟩ := clearCMAChunks_spec F k h id
    obtain rfl := Option.some.inj (h₁.symm.trans he)
    have hi : s₁.Inv := hookStep_inv h he
    exact ⟨_, hi.tlt, hc.wrote, .inl ⟨rfl, rfl⟩⟩
  | gc id =>
    obtain rfl := Option.some.inj he
    exact ⟨_, h.tlt, .refl _ _, .inl ⟨rfl, rfl⟩⟩

section Step

variable {F : Flags} {s s' : State} {e : HookCall} {a c : ℕ}

/-- **An entry stays**, with the place of its chunk, under every hook that
inserts nothing over the granule. -/
theorem hookStep_entry (h : s.Inv) (he : hookStep F s e = some s') (hget : tltGet s.tlt a = some c)
    (ho : ∀ i ∈ e.inserts F.rz, ¬ Owns i (granule a)) :
    tltGet s'.tlt a = some c ∧ SamePlace (s'.tlt.info c) (s.tlt.info c) := by
  obtain ⟨t, ht, hw, ⟨-, rfl⟩ | ⟨i, hi, hov⟩⟩ := hookStep_table h he
  · exact ⟨by rw [hw.gets, hget], hw.place c⟩
  · have hget' : tltGet t a = some c := by rw [hw.gets, hget]
    have hne : c ≠ t.nextInfo := (ht.used _ _ (tltGet_eq_some.mp hget').2.1).ne
    exact ⟨by rw [hov.get_outside ht (ho i hi), hget'], (SamePlace.of_core (hov.old c hne)).trans (hw.place c)⟩

/-- **The info of a chunk stays**, but for its count, under every hook that
does not touch it. -/
theorem hookStep_untouched (h : s.Inv) (he : hookStep F s e = some s') (hget : tltGet s.tlt a = some c)
    (hc : ¬ e.Touches s c) : (s'.tlt.info c).core = (s.tlt.info c).core := by
  obtain ⟨t, ht, hw, ⟨-, rfl⟩ | ⟨i, hi, hov⟩⟩ := hookStep_table h he
  · rw [hw.info c hc]
  · have hget' : tltGet t a = some c := by rw [hw.gets, hget]
    have hne : c ≠ t.nextInfo := (ht.used _ _ (tltGet_eq_some.mp hget').2.1).ne
    rw [hov.old c hne, hw.info c hc]

theorem Tlt.Inv.end_mod {t : Tlt} (h : t.Inv) (hget : tltGet t a = some c) (h48 : (t.info c).endAddr ≤ 2 ^ 48) :
    (t.info c).endAddr % 8 = 0 :=
  h.slot_end_mod (tltGet_eq_some.mp hget).2.1 h48

theorem Tlt.Inv.tracks {t : Tlt} (h : t.Inv) (hget : tltGet t a = some c) : Tracks (t.info c) a :=
  ⟨(tltGet_eq_some.mp hget).1, h.owns _ _ (tltGet_eq_some.mp hget).2.1⟩

/-- No pointer of the call is in the range of the info, and it inserts no
chunk that overlaps it. -/
def HookCall.Avoids (rz : RzOptions) (i : ChunkInfo) (e : HookCall) : Prop :=
  (∀ ptr ∈ e.pointers, ¬ Tracks i ptr) ∧ ∀ j ∈ e.inserts rz, ¬ Overlap i j

instance (rz : RzOptions) (i : ChunkInfo) (e : HookCall) : Decidable (e.Avoids rz i) := by
  unfold HookCall.Avoids; infer_instance

theorem HookCall.Avoids.touches {rz : RzOptions} {i : ChunkInfo} (hav : e.Avoids rz i) (h : s.Inv)
    (hp : SamePlace (s.tlt.info c) i) (hc : e.Touches s c) :
    ∃ k id, e = .clear k id ∧ Cleared s.tlt (s.listed id) c := by
  have hno : ∀ ptr ∈ e.pointers, tltGet s.tlt ptr ≠ some c := fun ptr hm hget => by
    obtain ⟨h0, howns⟩ := h.tlt.tracks hget
    exact hav.1 ptr hm ⟨h0, hp.owns.mp howns⟩
  cases e with
  | allocate => exact hc.elim
  | release k ptr id b => exact absurd hc (hno ptr (by simp [HookCall.pointers]))
  | reallocateStart oldPtr b id => exact absurd hc (hno oldPtr (by simp [HookCall.pointers]))
  | reallocateEnd k oldPtr newPtr size g id b => exact absurd hc (hno oldPtr (by simp [HookCall.pointers]))
  | clear k id => exact ⟨k, id, rfl, hc⟩
  | gc => exact hc.elim

theorem hookStep_avoided (h : s.Inv) (he : hookStep F s e = some s') (hget : tltGet s.tlt a = some c)
    {i : ChunkInfo} (hp : SamePlace (s.tlt.info c) i) (hav : e.Avoids F.rz i) :
    tltGet s'.tlt a = some c ∧ SamePlace (s'.tlt.info c) i := by
  have howns : Owns i (granule a) := hp.owns.mp (h.tlt.tracks hget).2
  obtain ⟨hget', hp'⟩ := hookStep_entry h he hget fun j hj hj' => hav.2 j hj ⟨_, howns, hj'⟩
  exact ⟨hget', hp'.trans hp⟩

/-- **A chunk stays as it is** under a call that avoids it, and releases it
through no list. -/
theorem hookStep_stays (h : s.Inv) (he : hookStep F s e = some s') (hget : tltGet s.tlt a = some c)
    {i : ChunkInfo} (hp : SamePlace (s.tlt.info c) i) (hav : e.Avoids F.rz i)
    (hcl : ∀ k id, e = .clear k id → ¬ Cleared s.tlt (s.listed id) c) :
    tltGet s'.tlt a = some c ∧ (s'.tlt.info c).core = (s.tlt.info c).core := by
  refine ⟨(hookStep_avoided h he hget hp hav).1, hookStep_untouched h he hget fun hc => ?_⟩
  obtain ⟨k, id, rfl, hcl'⟩ := hav.touches h hp hc
  exact hcl k id rfl hcl'

/-- A chunk that is released already is released through no list. -/
theorem not_cleared_of_deallocated {t : Tlt} (hd : (t.info c).status = .deallocated) (ptrs : List ℕ) :
    ¬ Cleared t ptrs c := by
  rintro ⟨p, -, hp⟩
  exact (clearable_eq_some.mp hp).2.1 hd

end Step

end Cmasan
