/-
# Which shadow bytes a hook leaves alone

A hook writes the shadow of the chunks that it finds at the starts it is given
or in its list, and of the chunk that it inserts, and nothing else, but for
one granule: the first write of a hand-out is a granule longer than the range
of its chunk, and makes the granule behind it addressable. So every granule
outside the tracked ranges keeps its byte exactly if the granule behind the
new chunk was addressable before or belongs to the old chunk of the `realloc`
(`hookStep_shadow_frame_iff`).

Key definitions: `HookCall.AtStart`, `HookCall.Outside`, `HookCall.NextClean`.
Key theorems: `allocateCMAChunkImpl_shadow`, `hookStep_shadow_frame_iff`.
-/
import Cmasan.Traffic

namespace Cmasan

open Lib

/-- The pointer that a call releases or reallocates is the start of the chunk
it finds there. -/
def HookCall.AtStart (s : State) : HookCall → Prop
  | .release _ ptr _ _ | .reallocateStart ptr _ _ | .reallocateEnd _ ptr _ _ _ _ _ =>
    ∀ c, tltGet s.tlt ptr = some c → (s.tlt.info c).startAddr = ptr
  | .allocate _ _ _ _ _ _ | .clear _ _ | .gc _ => True

/-- Granule `n` is outside the tracked ranges of the chunks that the call
finds and of the one that it inserts. -/
def HookCall.Outside (rz : RzOptions) (s : State) (e : HookCall) (n : ℕ) : Prop :=
  (∀ c, e.Touches s c → n ∉ (s.tlt.info c).granules) ∧ ∀ i, e.inserts rz = some i → n ∉ i.granules

/-- The granule behind a chunk that the call inserts, if that is not empty,
was addressable or is one of a chunk that the call finds. -/
def HookCall.NextClean (rz : RzOptions) (s : State) (e : HookCall) : Prop :=
  ∀ i, e.inserts rz = some i → i.chunkSize ≠ 0 →
    s.shadow (i.endAddr / 8) = 0 ∨ ∃ c, e.Touches s c ∧ i.endAddr / 8 ∈ (s.tlt.info c).granules

/-! ### One chunk -/

/-- What freeing a chunk poisons is in its range, also where the sum wraps. -/
theorem ChunkInfo.poisons_granules {i : ChunkInfo} {n : ℕ} (h : i.poisons n) : n ∈ i.granules := by
  have hdown := roundDownTo_le i.startAddr 8
  unfold ChunkInfo.poisons uadd at h
  unfold ChunkInfo.granules ChunkInfo.endAddr
  rw [mem_granules]
  omega

theorem freedShadow_outside (F : Flags) (sh : Shadow) {i : ChunkInfo} {n : ℕ} (hn : n ∉ i.granules) :
    freedShadow F sh i i.startAddr n = sh n := by
  rw [freedShadow_apply, if_neg fun h => hn (ChunkInfo.poisons_granules h.2)]

theorem fastPoisonShadow_outside (sh : Shadow) {i : ChunkInfo} {n : ℕ} (hn : n ∉ i.granules) (value : ℕ) :
    fastPoisonShadow sh (roundDownTo i.startAddr 8)
      (uadd (uadd i.rzSize i.chunkSize) (i.startAddr - roundDownTo i.startAddr 8)) value n = sh n := by
  unfold fastPoisonShadow
  rw [if_neg]
  intro hw
  have hdown : roundDownTo i.startAddr 8 / 8 = i.startAddr / 8 := by
    unfold roundDownTo
    omega
  apply hn (ChunkInfo.poisons_granules ⟨?_, hw.2⟩)
  omega

/-! ### Hand-outs -/

theorem newChunkShadow_behind (canPoisonMemory : Bool) (s : Shadow) {ptr size E : ℕ} (hE : ptr + size ≤ E)
    (hE8 : E % 8 = 0) : newChunkShadow canPoisonMemory s ptr size E (E / 8) = 0 := by
  unfold newChunkShadow
  rw [if_neg (by omega), if_neg (by omega), if_neg (by omega), if_pos (by omega)]

theorem newChunkShadow_beyond (canPoisonMemory : Bool) (s : Shadow) {ptr size E n : ℕ} (hE : ptr + size ≤ E)
    (hE8 : E % 8 = 0) (hn : ¬ (ptr / 8 ≤ n ∧ n ≤ E / 8)) :
    newChunkShadow canPoisonMemory s ptr size E n = s n := by
  unfold newChunkShadow
  rw [if_neg (by omega), if_neg (by omega), if_neg (by omega), if_neg hn]

/-- **The shadow of a hand-out** in terms of the chunk that it inserts. -/
theorem allocateCMAChunkImpl_shadow {F : Flags} {k : Caller} {s s' : State} {ptr size g id : ℕ} (hp : ptr ≠ 0)
    (he : allocateCMAChunkImpl F k s ptr size g id = some s') :
    (insertedInfo F.rz k ptr size g id = none → s'.shadow = s.shadow) ∧
    ∀ i, insertedInfo F.rz k ptr size g id = some i → i.endAddr + 8 < 2 ^ 64 →
      i.startAddr = ptr ∧ i.endAddr % 8 = 0 ∧
      (i.chunkSize ≠ 0 → s'.shadow = newChunkShadow F.canPoisonMemory s.shadow ptr i.chunkSize i.endAddr) ∧
      (i.chunkSize = 0 → i.endAddr = ptr / 8 * 8 + 8 ∧
        s'.shadow = fastPoisonShadow s.shadow (roundDownTo ptr 8) 8 0) := by
  unfold allocateCMAChunkImpl at he
  unfold insertedInfo
  simp only at he ⊢
  by_cases hz : umul size g = 0
  · rw [if_neg (not_not.mpr hz)] at he ⊢
    refine ⟨fun h => (by cases h), ?_⟩
    intro i hi hroom
    obtain rfl := Option.some.inj hi
    unfold ChunkInfo.endAddr newChunk at hroom ⊢
    simp only at hroom ⊢
    have hrz := emptyChunk_rzSize (show ptr + 8 < 2 ^ 64 by omega)
    obtain ⟨t, -, he⟩ := Option.bind_eq_some_iff.mp he
    obtain ⟨shadow, hsh, rfl⟩ := Option.map_eq_some_iff.mp he
    rw [unpoisonShadow_eq _ _ (by unfold roundDownTo; omega) (by omega) (by unfold roundDownTo; omega)] at hsh
    rw [hrz]
    exact ⟨trivial, by omega, fun h => absurd rfl h, fun _ => ⟨by omega, (Option.some.inj hsh).symm⟩⟩
  · rw [if_pos hz] at he ⊢
    by_cases hext : extendSize F.rz size g false = size
    · rw [if_pos hext] at he ⊢
      obtain rfl := Option.some.inj he
      exact ⟨fun _ => rfl, fun i hi => by cases hi⟩
    · rw [if_neg hext] at he ⊢
      refine ⟨fun h => (by cases h), ?_⟩
      intro i hi hroom
      obtain rfl := Option.some.inj hi
      unfold ChunkInfo.endAddr newChunk at hroom ⊢
      simp only at hroom ⊢
      generalize u32 (usub (usub (roundDownTo (uadd ptr (umul (extendSize F.rz size g false) g)) 8) ptr)
        (umul size g)) = rz at he hroom ⊢
      generalize umul size g = sz at he hroom hz ⊢
      obtain ⟨t, ht, he⟩ := Option.bind_eq_some_iff.mp he
      obtain ⟨shadow, hsh, rfl⟩ := Option.map_eq_some_iff.mp he
      -- the insert checked that the range ends on a granule boundary
      have hmod : (ptr + sz + rz) % 8 = 0 := (isAligned_end_iff (by omega)).mp (tltInsert_aligned hp ht)
      have hnew := poisonNewChunk_eq F.canPoisonMemory s.shadow (show ptr + sz ≤ ptr + sz + rz by omega) hmod hroom
      rw [show ptr + sz + rz - ptr - sz = rz by omega, hsh] at hnew
      exact ⟨trivial, hmod, fun _ => Option.some.inj hnew, fun h => absurd h hz⟩

/-- Granule `n` is the one behind the chunk, if there is one that is not empty. -/
def Behind (o : Option ChunkInfo) (n : ℕ) : Prop := ∃ i, o = some i ∧ i.chunkSize ≠ 0 ∧ n = i.endAddr / 8

/-- Outside the range of its chunk a hand-out writes the granule behind it. -/
theorem allocateCMAChunkImpl_outside {F : Flags} {k : Caller} {s s' : State} {ptr size g id n : ℕ} (hp : ptr ≠ 0)
    (he : allocateCMAChunkImpl F k s ptr size g id = some s')
    (hroom : ∀ i, insertedInfo F.rz k ptr size g id = some i → i.endAddr + 8 < 2 ^ 64)
    (hn : ∀ i, insertedInfo F.rz k ptr size g id = some i → n ∉ i.granules) :
    (Behind (insertedInfo F.rz k ptr size g id) n → s'.shadow n = 0) ∧
      (¬ Behind (insertedInfo F.rz k ptr size g id) n → s'.shadow n = s.shadow n) := by
  obtain ⟨hnone, hsome⟩ := allocateCMAChunkImpl_shadow hp he
  rcases hi : insertedInfo F.rz k ptr size g id with _ | i
  · rw [hnone hi]
    refine ⟨?_, fun _ => rfl⟩
    rintro ⟨i, h, -⟩
    cases h
  · obtain ⟨hstart, hmod, hfull, hempty⟩ := hsome i hi (hroom i hi)
    have hout := hn i hi
    have hle : i.startAddr + i.chunkSize ≤ i.endAddr := Nat.le_add_right _ _
    unfold ChunkInfo.granules at hout
    rw [mem_granules, hstart] at hout
    rw [hstart] at hle
    by_cases hz : i.chunkSize = 0
    · -- an empty object: its granule is its range
      obtain ⟨hend, hsh⟩ := hempty hz
      refine ⟨?_, fun _ => ?_⟩
      · rintro ⟨j, hj, hne, -⟩
        obtain rfl := Option.some.inj hj
        exact absurd hz hne
      · rw [hsh]
        unfold fastPoisonShadow roundDownTo
        exact if_neg (by omega)
    · rw [hfull hz]
      refine ⟨?_, fun hb => ?_⟩
      · rintro ⟨j, hj, -, rfl⟩
        obtain rfl := Option.some.inj hj
        exact newChunkShadow_behind _ _ hle hmod
      · have hne : n ≠ i.endAddr / 8 := fun h => hb ⟨i, rfl, hz, h⟩
        exact newChunkShadow_beyond _ _ hle hmod (by omega)

/-! ### Calls -/

section Calls

variable {F : Flags} {k : Caller} {s s' : State} {n id : ℕ}

theorem releaseCMAChunk_outside {ptr r : ℕ} {b : Bool} (he : releaseCMAChunk F k s ptr id b = some (r, s'))
    (hn : ∀ c, tltGet s.tlt ptr = some c → n ∉ (s.tlt.info c).granules) : s'.shadow n = s.shadow n := by
  rcases releaseCMAChunk_cases he with ⟨-, hs, -⟩ | ⟨c, -, -, hr, hsh, -⟩ | ⟨c, -, hstart, hr, hsh, -⟩
  · rw [hs.shadow]
  · rw [hsh]
  · rw [hsh, ← hstart, freedShadow_outside F s.shadow (hn c hr.get)]

theorem reallocateCMAChunkStart_outside {oldPtr : ℕ} (b : Bool)
    (hstart : ∀ c, tltGet s.tlt oldPtr = some c → (s.tlt.info c).startAddr = oldPtr)
    (hn : ∀ c, tltGet s.tlt oldPtr = some c → n ∉ (s.tlt.info c).granules) :
    (reallocateCMAChunkStart F s oldPtr b id).shadow n = s.shadow n := by
  rcases reallocateCMAChunkStart_cases F s oldPtr id b with ⟨-, hs⟩ | ⟨c, -, hget, -, hsh, -⟩
  · rw [hs.shadow]
  · rw [hsh, ← hstart c hget, fastPoisonShadow_outside s.shadow (hn c hget)]

theorem releaseOldChunk_outside {oldPtr newPtr : ℕ} (he : releaseOldChunk F k s oldPtr newPtr id = some s')
    (hn : ∀ c, tltGet s.tlt oldPtr = some c → n ∉ (s.tlt.info c).granules) : s'.shadow n = s.shadow n := by
  rcases (releaseOldChunk_cases he).2 with
    ⟨-, rfl⟩ | ⟨c, hget, ⟨-, rfl⟩ | ⟨-, hstart, -, hsh⟩ | ⟨-, -, ⟨-, rfl⟩ | rfl⟩⟩
  · rfl
  · rfl
  · rw [hsh, ← hstart, freedShadow_outside F s.shadow (hn c hget)]
  · rfl
  · rfl

theorem clearCMAChunks_outside (h : s.Inv) (he : clearCMAChunks F k s id = some s')
    (hn : ∀ c, Cleared s.tlt (s.listed id) c → n ∉ (s.tlt.info c).granules) : s'.shadow n = s.shadow n := by
  obtain ⟨s₁, h₁, hc⟩ := clearCMAChunks_spec F k h id
  obtain rfl := Option.some.inj (h₁.symm.trans he)
  exact hc.shadow n fun c hcl _ hp => hn c hcl (ChunkInfo.poisons_granules hp)

end Calls

/-- **What a hook does to the shadow outside the tracked ranges**: it makes
the granule behind its new chunk addressable. -/
theorem hookStep_outside {F : Flags} {s s' : State} (h : s.Inv) {e : HookCall} (hstart : e.AtStart s)
    (hroom : ∀ i, e.inserts F.rz = some i → i.endAddr + 8 < 2 ^ 64) (he : hookStep F s e = some s') {n : ℕ}
    (hn : e.Outside F.rz s n) :
    (Behind (e.inserts F.rz) n → s'.shadow n = 0) ∧ (¬ Behind (e.inserts F.rz) n → s'.shadow n = s.shadow n) := by
  have hnone : ¬ Behind none n := by
    rintro ⟨i, hi, -⟩
    cases hi
  obtain ⟨hfound, hnew⟩ := hn
  cases e with
  | allocate k ptr size g id b =>
    simp only [HookCall.inserts] at hroom hnew ⊢
    rcases allocateCMAChunk_path he with ⟨hb, rfl⟩ | ⟨hb, s₁, h₁, rfl⟩
    · rw [if_pos hb]
      exact ⟨fun h => absurd h hnone, fun _ => rfl⟩
    · rw [if_neg hb] at hroom hnew ⊢
      have hout := allocateCMAChunkImpl_outside (fun h0 => hb (.inr h0)) h₁ hroom hnew
      simpa only [State.unlock_shadow, State.lock_shadow] using hout
  | release k ptr id b =>
    obtain ⟨⟨r, s₁⟩, h₁, rfl⟩ := Option.map_eq_some_iff.mp he
    exact ⟨fun h => absurd h hnone, fun _ => releaseCMAChunk_outside h₁ hfound⟩
  | reallocateStart oldPtr b id =>
    obtain rfl := Option.some.inj he
    exact ⟨fun h => absurd h hnone, fun _ => reallocateCMAChunkStart_outside b hstart hfound⟩
  | reallocateEnd k oldPtr newPtr size g id b =>
    simp only [HookCall.inserts] at hroom hnew ⊢
    rcases reallocateCMAChunkEnd_path he with ⟨hb, rfl⟩ | ⟨hb, s₁, s₂, h₁, h₂, rfl⟩
    · rw [if_pos hb]
      exact ⟨fun h => absurd h hnone, fun _ => rfl⟩
    · rw [if_neg hb] at hroom hnew ⊢
      have hold : s₁.shadow n = s.shadow n := by
        have := releaseOldChunk_outside (n := n) h₁
        simp only [State.lock_tlt, State.lock_shadow] at this
        exact this hfound
      have hout := allocateCMAChunkImpl_outside (fun h0 => hb (.inr (.inl h0))) h₂ hroom hnew
      rw [hold] at hout
      simpa only [State.unlock_shadow] using hout
  | clear k id => exact ⟨fun h => absurd h hnone, fun _ => clearCMAChunks_outside h he hfound⟩
  | gc id =>
    obtain rfl := Option.some.inj he
    exact ⟨fun h => absurd h hnone, fun _ => rfl⟩

/-- **Which calls leave the shadow outside the tracked ranges alone.** In every
well formed state, whatever its shadow, for every call whose old pointer is the
start of its chunk and whose new chunk has a granule behind it in the address
space: exactly those for which that granule was addressable already, or belongs
to the chunk that is reallocated. -/
theorem hookStep_shadow_frame_iff (F : Flags) {s s' : State} (h : s.Inv) (e : HookCall) (hstart : e.AtStart s)
    (hroom : ∀ i, e.inserts F.rz = some i → i.endAddr + 8 < 2 ^ 64) (he : hookStep F s e = some s') :
    (∀ n, e.Outside F.rz s n → s'.shadow n = s.shadow n) ↔ e.NextClean F.rz s := by
  constructor
  · intro hframe i hi hz
    by_cases hold : ∃ c, e.Touches s c ∧ i.endAddr / 8 ∈ (s.tlt.info c).granules
    · exact .inr hold
    · left
      have hout : e.Outside F.rz s (i.endAddr / 8) := by
        refine ⟨fun c hc hmem => hold ⟨c, hc, hmem⟩, fun j hj => ?_⟩
        obtain rfl := Option.some.inj (hi.symm.trans hj)
        unfold ChunkInfo.granules
        rw [mem_granules]
        omega
      rw [← hframe _ hout]
      exact (hookStep_outside h hstart hroom he hout).1 ⟨i, hi, hz, rfl⟩
  · intro hclean n hn
    obtain ⟨hzero, hkeep⟩ := hookStep_outside h hstart hroom he hn
    by_cases hb : Behind (e.inserts F.rz) n
    · rw [hzero hb]
      obtain ⟨i, hi, hz, rfl⟩ := hb
      rcases hclean i hi hz with h0 | ⟨c, hc, hmem⟩
      · exact h0.symm
      · exact absurd hmem (hn.1 c hc)
    · exact hkeep hb

/-- An object between one that was freed, which stays poisoned, and one that is live. -/
theorem hookStep_shadow_frame_between :
    ∃ s s', HookRun { rz := .default } [.allocate {} 0x602000000010 8 1 1 false, .release {} 0x602000000010 1 false,
        .allocate {} 0x602000000050 8 1 1 false] s ∧
      hookStep { rz := .default } s (.allocate {} 0x602000000030 8 1 1 false) = some s' ∧
      s'.shadow (0x602000000010 / 8) = kAsanHeapFreeMagic ∧ s'.shadow (0x602000000050 / 8) = 0 := by
  have h : ((exec (hookStep { rz := .default }) (fun _ _ => True) .initial
      [.allocate {} 0x602000000010 8 1 1 false, .release {} 0x602000000010 1 false,
        .allocate {} 0x602000000050 8 1 1 false]).bind fun s =>
        (hookStep { rz := .default } s (.allocate {} 0x602000000030 8 1 1 false)).map fun _ =>
          (s.shadow (0x602000000010 / 8), s.shadow (0x602000000050 / 8))) = some (kAsanHeapFreeMagic, 0) := by
    decide +kernel
  have hend : ((HookCall.allocate {} 0x602000000030 8 1 1 false).inserts .default).map (fun i =>
      (i.startAddr, i.endAddr)) = some (0x602000000030, 0x602000000050) := by decide +kernel
  obtain ⟨s, hs, h⟩ := Option.bind_eq_some_iff.mp h
  obtain ⟨s', hs', h⟩ := Option.map_eq_some_iff.mp h
  obtain ⟨hfreed, hlive⟩ := Prod.mk.inj h
  have hrun : HookRun { rz := .default } _ s := runs_of_exec hs
  have hrange : ∀ i, (HookCall.allocate {} 0x602000000030 8 1 1 false).inserts .default = some i →
      i.startAddr = 0x602000000030 ∧ i.endAddr = 0x602000000050 := by
    intro i hi
    rw [hi] at hend
    exact Prod.mk.inj (Option.some.inj hend)
  have hframe := (hookStep_shadow_frame_iff { rz := .default } (HookReachable.inv ⟨_, hrun⟩)
    (.allocate {} 0x602000000030 8 1 1 false) trivial (fun i hi => by have := hrange i hi; omega) hs').mpr ?_
  · refine ⟨s, s', hrun, hs', ?_, ?_⟩
    · rw [hframe _ ⟨fun c hc => hc.elim, fun i hi => ?_⟩, hfreed]
      have := hrange i hi
      unfold ChunkInfo.granules
      rw [mem_granules]
      omega
    · rw [hframe _ ⟨fun c hc => hc.elim, fun i hi => ?_⟩, hlive]
      have := hrange i hi
      unfold ChunkInfo.granules
      rw [mem_granules]
      omega
  · -- the live object's first granule is behind the new chunk
    intro i hi _
    rw [(hrange i hi).2]
    exact .inl hlive

/-- A freed object, and one handed out in the region before it: the first
granule of the freed one, which the call does not concern, becomes addressable. -/
theorem next_granule_written :
    ∃ s s', HookRun { rz := .default } [.allocate {} 0x602000000030 8 1 1 false, .release {} 0x602000000030 1 false] s ∧
      hookStep { rz := .default } s (.allocate {} 0x602000000010 8 1 1 false) = some s' ∧
      (HookCall.allocate {} 0x602000000010 8 1 1 false).AtStart s ∧
      (HookCall.allocate {} 0x602000000010 8 1 1 false).Outside .default s (0x602000000030 / 8) ∧
      s.shadow (0x602000000030 / 8) = kAsanHeapFreeMagic ∧ s'.shadow (0x602000000030 / 8) = 0 := by
  have h : ((exec (hookStep { rz := .default }) (fun _ _ => True) .initial
      [.allocate {} 0x602000000030 8 1 1 false, .release {} 0x602000000030 1 false]).bind fun s =>
        (hookStep { rz := .default } s (.allocate {} 0x602000000010 8 1 1 false)).map fun s' =>
          (s.shadow (0x602000000030 / 8), s'.shadow (0x602000000030 / 8))) = some (kAsanHeapFreeMagic, 0) := by
    decide +kernel
  have hend : ((HookCall.allocate {} 0x602000000010 8 1 1 false).inserts .default).map ChunkInfo.endAddr =
      some 0x602000000030 := by decide +kernel
  obtain ⟨s, hs, h⟩ := Option.bind_eq_some_iff.mp h
  obtain ⟨s', hs', h⟩ := Option.map_eq_some_iff.mp h
  obtain ⟨hbefore, hafter⟩ := Prod.mk.inj h
  refine ⟨s, s', runs_of_exec hs, hs', trivial, ⟨fun c hc => hc.elim, fun i hi => ?_⟩, hbefore, hafter⟩
  simp only [hi, Option.map_some, Option.some.injEq] at hend
  unfold ChunkInfo.granules
  rw [mem_granules]
  omega

end Cmasan
