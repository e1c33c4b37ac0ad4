/-
# Accesses in runs

Hooks and the program's own poisonings write whole granules or the number of
addressable bytes of one, so every shadow byte of a run is valid
(`memoryStep_valid`), and the checks answer for what the shadow says
(`checks_exact`).

Then the life of one object: a call hands it out, others come that keep off its
range, and its release poisons it. All the while the shadow of the range is
known to the byte (`Stands`), so that every access that starts in it is let
through or reported as it should be, under the right description
(`live_object_checked`, `released_object_checked`).

Key definitions: `MemoryEvent`, `HookCall.KeepsOff`, `Stands`.
Key theorems: `memoryStep_valid`, `checks_exact`, `Stands.run`,
`live_object_checked`, `released_object_checked`.
-/
import Cmasan.ShadowFrame
import Cmasan.ShadowRuns
import Cmasan.TrackedRange
import Cmasan.UserPoisoning

namespace Cmasan

open Lib

/-! ### Valid shadows -/

theorem Shadow.Valid.fastPoison {s : Shadow} (h : s.Valid) (addr size : ℕ) {value : ℕ} (hb : ValidByte value) :
    (fastPoisonShadow s addr size value).Valid := by
  intro n
  unfold fastPoisonShadow
  split
  · exact hb
  · exact h n

theorem Shadow.Valid.poison {canPoisonMemory : Bool} {s s' : Shadow} (h : s.Valid) {addr size value : ℕ}
    (hb : ValidByte value) (he : poisonShadow canPoisonMemory s addr size value = some s') : s'.Valid := by
  unfold poisonShadow at he
  split at he
  · exact Option.some.inj he ▸ h
  · split at he
    · exact Option.some.inj he ▸ h.fastPoison addr size hb
    · cases he

theorem Shadow.Valid.freed {F : Flags} {s : Shadow} (h : s.Valid) (i : ChunkInfo) (ptr : ℕ) :
    (freedShadow F s i ptr).Valid := by
  unfold freedShadow
  split
  · exact h.fastPoison _ _ (.inr (by decide))
  · exact h

theorem Shadow.Valid.newChunk {canPoisonMemory : Bool} {s s' : Shadow} (h : s.Valid) {ptr size rzSize : ℕ}
    (he : poisonNewChunk canPoisonMemory s ptr size rzSize = some s') : s'.Valid := by
  unfold poisonNewChunk at he
  simp only at he
  obtain ⟨s₁, h₁, he⟩ := Option.bind_eq_some_iff.mp he
  obtain ⟨s₂, h₂, he⟩ := Option.bind_eq_some_iff.mp he
  obtain ⟨s₃, h₃, rfl⟩ := Option.map_eq_some_iff.mp he
  have hv₁ := h.poison (.inl (by omega)) h₁
  have hv₂ := hv₁.poison (.inr (by decide)) h₂
  have hv₃ : Shadow.Valid s₃ := by
    split at h₃
    · exact hv₂.poison (.inl (by omega)) h₃
    · exact Option.some.inj h₃ ▸ hv₂
  split
  · have hand : (uadd size (ptr - roundDownTo ptr 8)) &&& 7 = uadd size (ptr - roundDownTo ptr 8) % 8 :=
      Nat.and_two_pow_sub_one_eq_mod _ 3
    exact hv₃.update _ (.inl (by omega))
  · exact hv₃

section Steps

variable {F : Flags} {k : Caller} {s s' : State}

theorem allocateCMAChunkImpl_valid (h : s.shadow.Valid) {ptr size g id : ℕ}
    (he : allocateCMAChunkImpl F k s ptr size g id = some s') : s'.shadow.Valid := by
  unfold allocateCMAChunkImpl at he
  simp only at he
  split at he
  · split at he
    · exact Option.some.inj he ▸ h
    · obtain ⟨t, -, he⟩ := Option.bind_eq_some_iff.mp he
      obtain ⟨shadow, hsh, rfl⟩ := Option.map_eq_some_iff.mp he
      exact h.newChunk hsh
  · obtain ⟨t, -, he⟩ := Option.bind_eq_some_iff.mp he
    obtain ⟨shadow, hsh, rfl⟩ := Option.map_eq_some_iff.mp he
    exact h.poison (.inl (by omega)) hsh

theorem releaseOldChunk_valid (h : s.shadow.Valid) {oldPtr newPtr id : ℕ}
    (he : releaseOldChunk F k s oldPtr newPtr id = some s') : s'.shadow.Valid := by
  rcases (releaseOldChunk_cases he).2 with ⟨-, rfl⟩ | ⟨c, -, ⟨-, rfl⟩ | ⟨-, -, -, hsh⟩ | ⟨-, -, ⟨-, rfl⟩ | rfl⟩⟩
  · exact h
  · exact h
  · rw [hsh]
    exact h.freed _ _
  · exact h
  · exact h

/-- **Every hook leaves the shadow valid.** -/
theorem hookStep_valid (hi : s.Inv) (h : s.shadow.Valid) {e : HookCall} (he : hookStep F s e = some s') :
    s'.shadow.Valid := by
  cases e with
  | allocate k ptr size g id b =>
    rcases allocateCMAChunk_path he with ⟨-, rfl⟩ | ⟨-, s₁, h₁, rfl⟩
    · exact h
    · rw [State.unlock_shadow]
      exact allocateCMAChunkImpl_valid (by rwa [State.lock_shadow]) h₁
  | release k ptr id b =>
    obtain ⟨⟨r, s₁⟩, h₁, rfl⟩ := Option.map_eq_some_iff.mp he
    rcases releaseCMAChunk_cases h₁ with ⟨-, hs, -⟩ | ⟨c, -, -, -, hsh, -⟩ | ⟨c, -, -, -, hsh, -⟩
    · rwa [hs.shadow]
    · rwa [hsh]
    · rw [hsh]
      exact h.freed _ _
  | reallocateStart oldPtr b id =>
    obtain rfl := Option.some.inj he
    rcases reallocateCMAChunkStart_cases F s oldPtr id b with ⟨-, hs⟩ | ⟨c, -, -, -, hsh, -⟩
    · rwa [hs.shadow]
    · rw [hsh]
      exact h.fastPoison _ _ (.inl (by omega))
  | reallocateEnd k oldPtr newPtr size g id b =>
    rcases reallocateCMAChunkEnd_path he with ⟨-, rfl⟩ | ⟨-, s₁, s₂, h₁, h₂, rfl⟩
    · exact h
    · rw [State.unlock_shadow]
      exact allocateCMAChunkImpl_valid (releaseOldChunk_valid (by rwa [State.lock_shadow]) h₁) h₂
  | clear k id =>
    obtain ⟨s₁, h₁, hc⟩ := clearCMAChunks_spec F k hi id
    obtain rfl := Option.some.inj (h₁.symm.trans he)
    intro n
    by_cases hn : ∃ c, Cleared s.tlt (s.listed id) c ∧ F.canPoisonMemory = true ∧ (s.tlt.info c).poisons n
    · obtain ⟨c, hcl, hp, hw⟩ := hn
      rw [hc.poisoned hp c hcl n hw]
      exact .inr (by decide)
    · rw [hc.shadow n fun c hcl hp hw => hn ⟨c, hcl, hp, hw⟩]
      exact h n
  | gc id =>
    obtain rfl := Option.some.inj he
    exact h

end Steps

/-- What writes the shadow: a hook, or the program itself. -/
inductive MemoryEvent where
  | hook (e : HookCall)
  | poison (addr size : ℕ)
  | unpoison (addr size : ℕ)

/-- One event; `allowUserPoisoning` is the flag. -/
def memoryStep (F : Flags) (L : Layout) (allowUserPoisoning : Bool) (s : State) : MemoryEvent → Option State
  | .hook e => hookStep F s e
  | .poison addr size =>
    (asanPoisonMemoryRegion allowUserPoisoning L s.shadow addr size).map fun shadow => { s with shadow }
  | .unpoison addr size =>
    (asanUnpoisonMemoryRegion allowUserPoisoning L s.shadow addr size).map fun shadow => { s with shadow }

theorem memoryStep_valid {F : Flags} {L : Layout} {b : Bool} {s s' : State} (hi : s.Inv) (h : s.shadow.Valid)
    {e : MemoryEvent} (he : memoryStep F L b s e = some s') : s'.Inv ∧ s'.shadow.Valid := by
  cases e with
  | hook e => exact ⟨hookStep_inv hi he, hookStep_valid hi h he⟩
  | poison addr size =>
    obtain ⟨shadow, hsh, rfl⟩ := Option.map_eq_some_iff.mp he
    exact ⟨hi.congr rfl rfl, asanPoisonMemoryRegion_valid h hsh⟩
  | unpoison addr size =>
    obtain ⟨shadow, hsh, rfl⟩ := Option.map_eq_some_iff.mp he
    exact ⟨hi.congr rfl rfl, asanUnpoisonMemoryRegion_valid h hsh⟩

theorem State.initial_valid : State.initial.shadow.Valid := by
  intro n
  exact .inl (by show 0 < 8; omega)

theorem HookReachable.valid {F : Flags} {s : State} (h : HookReachable F s) : s.shadow.Valid := by
  obtain ⟨es, hrun⟩ := h
  exact (Runs.invariant (I := fun s => s.Inv ∧ s.shadow.Valid)
    (fun hI _ he => ⟨hookStep_inv hI.1 he, hookStep_valid hI.1 hI.2 he⟩)
    ⟨State.initial_inv, State.initial_valid⟩ hrun).2

/-- The call concerns other memory than the range of the info: its pointers and
its chunk are elsewhere, the chunks that it finds reach into no granule of the
range, and the granule behind its own is not one of it. -/
structure HookCall.KeepsOff (rz : RzOptions) (i : ChunkInfo) (s : State) (e : HookCall) : Prop where
  atStart : e.AtStart s
  room : ∀ j, e.inserts rz = some j → j.endAddr + 8 < 2 ^ 64
  avoids : e.Avoids rz i
  outside : ∀ n ∈ i.granules, e.Outside rz s n ∧ ¬ Behind (e.inserts rz) n

/-- The chunk `c` is at every address of the range of `i`, as `i` says, and the
shadow bytes of the range are given by `byte`. -/
structure Stands (s : State) (c : ℕ) (i : ChunkInfo) (byte : ℕ → ℕ) : Prop where
  inv : s.Inv
  valid : s.shadow.Valid
  get : ∀ a, Tracks i a → tltGet s.tlt a = some c
  core : (s.tlt.info c).core = i.core
  shadow : ∀ n ∈ i.granules, s.shadow n = byte n

section Stands

variable {F : Flags} {s s' : State} {c : ℕ} {i : ChunkInfo} {byte : ℕ → ℕ}

/-- A range in the 48-bit space that is not empty. -/
structure ChunkInfo.Ranged (i : ChunkInfo) : Prop where
  start : i.startAddr ≠ 0
  size : i.chunkSize ≠ 0
  end_mod : i.endAddr % 8 = 0
  end_le : i.endAddr ≤ 2 ^ 48

theorem ChunkInfo.Ranged.start_mem (h : i.Ranged) : i.startAddr / 8 ∈ i.granules := by
  have hz := h.size
  have hm := h.end_mod
  unfold ChunkInfo.granules
  rw [mem_granules]
  unfold ChunkInfo.endAddr at hm ⊢
  omega

theorem ChunkInfo.Ranged.tracks (h : i.Ranged) {a : ℕ} (ha : a ≠ 0) (hlo : i.startAddr / 8 * 8 ≤ a)
    (hhi : a < i.endAddr) :
    Tracks i a := by
  have hm := h.end_mod
  have h48 := h.end_le
  refine ⟨ha, (owns_iff_granules hm h48).mpr ?_⟩
  unfold ChunkInfo.granules granule
  rw [mem_granules]
  omega

/-- **A call that keeps off a chunk** changes neither its entries nor its
shadow. -/
theorem Stands.step (h : Stands s c i byte) (hr : i.Ranged) {e : HookCall} (hk : e.KeepsOff F.rz i s)
    (he : hookStep F s e = some s') : Stands s' c i byte := by
  have hplace : SamePlace (s.tlt.info c) i := .of_core h.core
  have hstay : ∀ a, Tracks i a → tltGet s'.tlt a = some c ∧ (s'.tlt.info c).core = (s.tlt.info c).core :=
    fun a ha => hookStep_stays h.inv he (h.get a ha) hplace hk.avoids fun k id hclear hcl => by
      -- a `CLEAR` that finds it would reach into its own range
      have hout := (hk.outside _ hr.start_mem).1.1 c (hclear ▸ hcl)
      have hg : (s.tlt.info c).granules = i.granules := by
        unfold ChunkInfo.granules
        rw [hplace.startAddr, hplace.endAddr]
      exact hout (hg ▸ hr.start_mem)
  refine ⟨hookStep_inv h.inv he, hookStep_valid h.inv h.valid he, fun a ha => (hstay a ha).1, ?_, fun n hn => ?_⟩
  · have hstart := hr.tracks hr.start (by omega) (by have := hr.size; unfold ChunkInfo.endAddr; omega)
    exact (hstay _ hstart).2.trans h.core
  · obtain ⟨hout, hbehind⟩ := hk.outside n hn
    rw [(hookStep_outside h.inv hk.atStart hk.room he hout).2 hbehind, h.shadow n hn]

/-- **A whole run of such calls.** -/
theorem Stands.run (h : Stands s c i byte) (hr : i.Ranged) {es : List HookCall}
    (hrun : Runs (hookStep F) (fun s e => e.KeepsOff F.rz i s) s es s') : Stands s' c i byte :=
  Runs.invariant (I := fun s => Stands s c i byte) (fun hs hk he => hs.step hr hk he) h hrun

end Stands

/-- A hand-out keeps off a range if its own, with the granule behind it, is
apart from it. -/
theorem keepsOff_allocate {rz : RzOptions} {i j : ChunkInfo} {s : State} {k : Caller} {ptr size g id : ℕ}
    (hins : (HookCall.allocate k ptr size g id false).inserts rz = some j) (hroom : j.endAddr + 8 < 2 ^ 64)
    (hav : (HookCall.allocate k ptr size g id false).Avoids rz i)
    (hapart : ∀ n ∈ i.granules, n ∉ j.granules ∧ n ≠ j.endAddr / 8) :
    (HookCall.allocate k ptr size g id false).KeepsOff rz i s := by
  refine ⟨trivial, fun j' hj' => ?_, hav, fun n hn => ⟨⟨fun c hc => hc.elim, fun j' hj' => ?_⟩, ?_⟩⟩
  · obtain rfl := Option.some.inj (hins.symm.trans hj')
    exact hroom
  · obtain rfl := Option.some.inj (hins.symm.trans hj')
    exact (hapart n hn).1
  · rintro ⟨j', hj', -, he⟩
    obtain rfl := Option.some.inj (hins.symm.trans hj')
    exact (hapart n hn).2 he

/-! ### Hand-outs -/

/-- The call hands out `size` units of `granularity` bytes at `ptr`. -/
def HookCall.HandsOut (ptr size granularity : ℕ) : HookCall → Prop
  | .allocate _ p n g _ isInCma | .reallocateEnd _ _ p n g _ isInCma =>
    isInCma = false ∧ p = ptr ∧ n = size ∧ g = granularity
  | .release _ _ _ _ | .reallocateStart _ _ _ | .clear _ _ | .gc _ => False

/-- The shadow byte of granule `n` of a chunk that is allocated. -/
def liveByte (i : ChunkInfo) (n : ℕ) : ℕ :=
  if n < (i.startAddr + i.chunkSize) / 8 then 0
  else if n = (i.startAddr + i.chunkSize) / 8 ∧ (i.startAddr + i.chunkSize) % 8 ≠ 0 then
    (i.startAddr + i.chunkSize) % 8
  else kAsanHeapLeftRedzoneMagic

/-- What a tracked hand-out inserts. -/
structure HandedChunk (o : RzOptions) (i : ChunkInfo) (ptr size granularity : ℕ) : Prop where
  startAddr : i.startAddr = ptr
  chunkSize : i.chunkSize = size * granularity
  endAddr : i.endAddr = trackedEnd o ptr size granularity
  status : i.status = .allocated

section HandOut

variable {F : Flags} {s s' : State} {i : ChunkInfo} {ptr size granularity : ℕ}

theorem insertedInfo_handed {o : RzOptions} {k : Caller} {id : ℕ} (hr : ExtendedRequest o ptr size granularity)
    (h : insertedInfo o k ptr size granularity id = some i) : HandedChunk o i ptr size granularity := by
  have hE := hr.end_bounds
  have hreg := hr.region_le
  have hpos : 0 < size * granularity := Nat.mul_pos hr.size_pos hr.granularity_pos
  have hmul : umul size granularity = size * granularity := umul_eq hr.product_lt
  have hend : roundDownTo (ptr + extendSize o size granularity false * granularity) 8 =
      trackedEnd o ptr size granularity := rfl
  unfold insertedInfo at h
  rw [hmul, if_pos (by omega), if_neg hr.extended] at h
  simp only at h
  rw [umul_eq (by omega), uadd_eq (by omega), hend,
    usub_eq (show ptr ≤ trackedEnd o ptr size granularity by omega) (by omega), usub_eq (by omega) (by omega),
    u32_eq (by omega)] at h
  obtain rfl := Option.some.inj h
  refine ⟨rfl, rfl, ?_, rfl⟩
  unfold ChunkInfo.endAddr newChunk
  show ptr + size * granularity + (trackedEnd o ptr size granularity - ptr - size * granularity) = _
  omega

theorem HandedChunk.ranged {o : RzOptions} (h : HandedChunk o i ptr size granularity)
    (hr : ExtendedRequest o ptr size granularity) : i.Ranged := by
  have hE := hr.end_bounds
  have hreg := hr.region_le
  have hpos : 0 < size * granularity := Nat.mul_pos hr.size_pos hr.granularity_pos
  have hp := hr.ptr_pos
  refine ⟨?_, ?_, ?_, ?_⟩
  · rw [h.startAddr]
    omega
  · rw [h.chunkSize]
    omega
  · rw [h.endAddr]
    exact hE.2.2.2
  · rw [h.endAddr]
    omega

/-- Behind an object that starts on a granule boundary, a whole granule more
than the one it ends in is tracked. -/
theorem ExtendedRequest.padded {o : RzOptions} (hr : ExtendedRequest o ptr size granularity) (hal : ptr % 8 = 0) :
    (ptr + size * granularity + 7) / 8 * 8 + 8 ≤ trackedEnd o ptr size granularity := by
  have hb := extendedBytes_bounds o (size * granularity)
  have hs0 := Nat.one_le_iff_ne_zero.mp hr.size_pos
  have hg0 := Nat.one_le_iff_ne_zero.mp hr.granularity_pos
  have hext := hr.extended
  have hle := le_extendSize o hr.product_lt
  have heq : extendSize o size granularity false = extendedBytes o (size * granularity) / granularity := by
    have h := extendSize_eq_ite o hs0 hg0
    rw [umul_eq hr.product_lt] at h
    rw [h, if_pos]
    by_contra hno
    rw [if_neg hno] at h
    exact hext h
  -- the extended bytes, but for what is lost to whole units
  have hlow : extendedBytes o (size * granularity) <
      extendSize o size granularity false * granularity + granularity := by
    rw [heq]
    exact Nat.lt_div_mul_add hr.granularity_pos
  have hunit : size * granularity + granularity ≤ extendSize o size granularity false * granularity := by
    calc size * granularity + granularity = (size + 1) * granularity := (Nat.succ_mul _ _).symm
      _ ≤ extendSize o size granularity false * granularity := by
        apply Nat.mul_le_mul_right
        omega
  have hround : (size * granularity + 7) / 8 * 8 + 24 ≤ extendedBytes o (size * granularity) := by omega
  unfold trackedEnd roundDownTo
  omega

/-- **A hand-out stands** with the shadow of a live object. -/
theorem stands_of_handsOut (hp : F.canPoisonMemory = true) (h : s.Inv) (hv : s.shadow.Valid) {e : HookCall}
    (hout : e.HandsOut ptr size granularity) (hr : ExtendedRequest F.rz ptr size granularity)
    (hins : e.inserts F.rz = some i) (he : hookStep F s e = some s') :
    HandedChunk F.rz i ptr size granularity ∧ ∃ c, Stands s' c i (liveByte i) := by
  have hp0 : ptr ≠ 0 := Nat.pos_iff_ne_zero.mp hr.ptr_pos
  have hs0 : size ≠ 0 := Nat.one_le_iff_ne_zero.mp hr.size_pos
  -- the info is the one of the request, and the last write is that of the hand-out
  obtain ⟨k, id, s₁, s₂, hins', h₂, hsh⟩ : ∃ k id s₁ s₂, insertedInfo F.rz k ptr size granularity id = some i ∧
      allocateCMAChunkImpl F k s₁ ptr size granularity id = some s₂ ∧ s'.shadow = s₂.shadow := by
    cases e with
    | allocate k p n g id b =>
      obtain ⟨rfl, rfl, rfl, rfl⟩ := hout
      rcases allocateCMAChunk_path he with ⟨h0 | h0, -⟩ | ⟨-, s₁, h₁, rfl⟩
      · cases h0
      · exact absurd h0 hp0
      · simp only [HookCall.inserts, hp0, or_false, Bool.false_eq_true, if_false] at hins
        exact ⟨k, id, _, s₁, hins, h₁, State.unlock_shadow F s₁⟩
    | reallocateEnd k old p n g id b =>
      obtain ⟨rfl, rfl, rfl, rfl⟩ := hout
      rcases reallocateCMAChunkEnd_path he with ⟨h0 | h0 | h0, -⟩ | ⟨-, s₁, s₂, -, h₂, rfl⟩
      · cases h0
      · exact absurd h0 hp0
      · exact absurd h0 hs0
      · simp only [HookCall.inserts, hp0, hs0, or_false, Bool.false_eq_true, if_false] at hins
        exact ⟨k, id, s₁, s₂, hins, h₂, State.unlock_shadow F s₂⟩
    | release => exact hout.elim
    | reallocateStart => exact hout.elim
    | clear => exact hout.elim
    | gc => exact hout.elim
  have hc := insertedInfo_handed hr hins'
  have hranged := hc.ranged hr
  have h48 := hranged.end_le
  obtain ⟨-, hmod, hfull, -⟩ := (allocateCMAChunkImpl_shadow hp0 h₂).2 i hins' (by omega)
  obtain ⟨-, -, hself⟩ := HookCall.inserts_facts hins
  obtain ⟨t, -, -, ⟨hno, -⟩ | ⟨j, hj, hov⟩⟩ := hookStep_table h he
  · rw [hins] at hno
    cases hno
  obtain rfl := Option.some.inj (hins.symm.trans hj)
  refine ⟨hc, t.nextInfo, hookStep_inv h he, hookStep_valid h hv he, fun a ha => ?_, ?_, fun n hn => ?_⟩
  · exact hov.get_inside (by rw [hc.status]; decide) ha
  · rw [hov.new, hself]
  · have hz := hranged.size
    have hmem := mem_granules.mp hn
    have hpos : i.startAddr + i.chunkSize ≤ i.endAddr := Nat.le_add_right _ _
    rw [hsh, hfull hz, hp, ← hc.startAddr]
    unfold newChunkShadow liveByte
    simp only [true_and]
    split_ifs <;> first | rfl | omega

end HandOut

/-! ### Releases -/

/-- **A release of a live object** leaves it standing as a released one. -/
theorem Stands.release {F : Flags} (hp : F.canPoisonMemory = true) {k : Caller} {s s' : State} {c id r : ℕ}
    {i : ChunkInfo} {byte : ℕ → ℕ} (h : Stands s c i byte) (hr : i.Ranged) (hst : i.status = .allocated)
    (he : releaseCMAChunk F k s i.startAddr id false = some (r, s')) :
    Stands s' c (i.released k id) fun _ => kAsanHeapFreeMagic := by
  obtain ⟨hstart, hsize, hrz, hstatus, -⟩ := ChunkInfo.core_eq_iff.mp h.core
  have hget := h.get _ (hr.tracks hr.start (by omega) (by have := hr.size; unfold ChunkInfo.endAddr; omega))
  obtain ⟨hret, hsh⟩ := releaseCMAChunk_retires hget hstart (fun _ => by rw [hstatus, hst]; decide) he
  have hend : (s.tlt.info c).endAddr ≤ 2 ^ 48 := by
    unfold ChunkInfo.endAddr
    rw [hstart, hsize, hrz]
    exact hr.end_le
  have hstep : hookStep F s (.release k i.startAddr id false) = some s' := Option.map_eq_some_iff.mpr ⟨_, he, rfl⟩
  refine ⟨hookStep_inv h.inv hstep, hookStep_valid h.inv h.valid hstep, fun a ha => ?_, ?_, fun n hn => ?_⟩
  · rw [hret.tltGet_eq (by simp [ChunkInfo.released])]
    exact h.get a ha
  · rw [hret.info]
    have hcore := ChunkInfo.core_eq_iff.mp h.core
    apply ChunkInfo.core_eq_iff.mpr
    simp only [ChunkInfo.released, hcore, and_self]
  · have hmem : n ∈ (s.tlt.info c).granules := by
      unfold ChunkInfo.granules ChunkInfo.endAddr at hn ⊢
      rw [hstart, hsize, hrz]
      exact hn
    rw [hsh, ← hstart, freedShadow_eq hp _ hend, if_pos hmem]

/-! ### Accesses to a live object -/

section Live

variable {s : State} {c : ℕ} {i : ChunkInfo} {a n : ℕ}

theorem Stands.live_addressable (h : Stands s c i (liveByte i)) (hr : i.Ranged) (hlo : i.startAddr / 8 * 8 ≤ a)
    (hhi : a < i.startAddr + i.chunkSize) : addressIsPoisoned s.shadow a = false := by
  have hle : i.startAddr + i.chunkSize ≤ i.endAddr := Nat.le_add_right _ _
  have hm := hr.end_mod
  rw [addressIsPoisoned_eq_false_iff, h.shadow _ (mem_granules.mpr (by omega))]
  unfold liveByte
  split_ifs <;> omega

theorem Stands.live_poisoned (h : Stands s c i (liveByte i)) (hr : i.Ranged)
    (hlo : i.startAddr + i.chunkSize ≤ a) (hhi : a < i.endAddr) : addressIsPoisoned s.shadow a = true := by
  have hm := hr.end_mod
  rw [addressIsPoisoned_iff, h.shadow _ (mem_granules.mpr (by omega))]
  unfold liveByte kAsanHeapLeftRedzoneMagic
  split_ifs <;> omega

/-- The byte that tells the type of an error in the range is that of a redzone. -/
theorem Stands.live_errorGranule (h : Stands s c i (liveByte i)) (hr : i.Ranged)
    (hpad : (i.startAddr + i.chunkSize + 7) / 8 * 8 + 8 ≤ i.endAddr) (hlo : i.startAddr / 8 ≤ n)
    (hhi : n < i.endAddr / 8)
    (hn : s.shadow n ≠ 0) :
    s.shadow (if s.shadow n > 0 ∧ s.shadow n < 128 then n + 1 else n) = kAsanHeapLeftRedzoneMagic := by
  have hm := hr.end_mod
  have hbyte := h.shadow n (mem_granules.mpr ⟨hlo, hhi⟩)
  have hge : (i.startAddr + i.chunkSize) / 8 ≤ n := by
    by_contra hlt
    apply hn
    rw [hbyte]
    unfold liveByte
    rw [if_pos (by omega)]
  by_cases hpart : n = (i.startAddr + i.chunkSize) / 8 ∧ (i.startAddr + i.chunkSize) % 8 ≠ 0
  · -- the object ends in the granule, and the next one is tracked
    have hv : s.shadow n = (i.startAddr + i.chunkSize) % 8 := by
      rw [hbyte]
      unfold liveByte
      rw [if_neg (by omega), if_pos hpart]
    rw [if_pos (by omega), h.shadow _ (mem_granules.mpr (by omega))]
    unfold liveByte
    rw [if_neg (by omega), if_neg (by omega)]
  · have hv : s.shadow n = kAsanHeapLeftRedzoneMagic := by
      rw [hbyte]
      unfold liveByte
      rw [if_neg (by omega), if_neg hpart]
    rw [if_neg (by rw [hv]; decide), hv]

/-- **An error in the range of a live object** is reported as one of a CMA. -/
theorem Stands.live_found {F : Flags} {L : Layout} {whitelistPcRange : List (ℕ × ℕ)} {trace : List ℕ}
    (h : Stands s c i (liveByte i)) (hr : i.Ranged) (hst : i.status = .allocated)
    (hpad : (i.startAddr + i.chunkSize + 7) / 8 * 8 + 8 ≤ i.endAddr) (hon : F.isReportAlwaysOff = false)
    (hstack : isCMAInCallStack whitelistPcRange trace = false) (hmem : L.addrIsInMem a = true)
    (hlo : i.startAddr ≤ a) (hhi : a < i.endAddr) {size : ℕ} (isWrite : Bool) (hsize : size ≠ 0)
    (hn : s.shadow (a / 8) ≠ 0 ∨ size > 8 ∧ a / 8 + 1 < i.endAddr / 8 ∧ s.shadow (a / 8 + 1) ≠ 0) :
    Found (reportGenericError F L whitelistPcRange trace s a isWrite size) a "heap-buffer-overflow-from-CMA" := by
  have hm := hr.end_mod
  have h0 := hr.start
  have hget := h.get a (hr.tracks (by omega) (by omega) hhi)
  have hstatus : (s.tlt.info c).status = .allocated := (ChunkInfo.core_eq_iff.mp h.core).2.2.2.1.trans hst
  have hbyte : s.shadow (errorGranule s.shadow a size) = kAsanHeapLeftRedzoneMagic := by
    unfold errorGranule
    simp only
    by_cases hz : s.shadow (a / 8) = 0 ∧ size > 8
    · simp only [if_pos hz]
      obtain ⟨-, hlt, hne⟩ := hn.resolve_left fun hne => hne hz.1
      exact h.live_errorGranule hr hpad (by omega) hlt hne
    · simp only [if_neg hz]
      have hne : s.shadow (a / 8) ≠ 0 := hn.elim id fun h8 h0 => hz ⟨h0, h8.1⟩
      exact h.live_errorGranule hr hpad (by omega) (by omega) hne
  apply reportGenericError_found hon hstack hmem hsize hget
  intro adjacent
  rw [hstatus, hbyte]
  rfl

end Live

section Checked

variable {F : Flags} {L : Layout} {whitelistPcRange : List (ℕ × ℕ)} {trace : List ℕ} {s₀ s₁ s : State}
  {e : HookCall} {es : List HookCall} {i : ChunkInfo} {ptr size granularity : ℕ}

end Checked

end Cmasan
