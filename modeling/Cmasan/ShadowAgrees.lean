/-
# The shadow against the table

`GranuleOk` says that the shadow byte of a granule is what the info of its
chunk says: a released chunk's granule is poisoned, an allocated chunk's is
addressable on the bytes of the object and poisoned behind it. A hook writes
the infos of one chunk and the shadow of a range. Poisoning another chunk's
granule is right if it has no byte of an allocated object (`NoUserByte`), and
making it addressable if it is neither released nor of a redzone
(`NoFreedOrRedzone`). One lemma for each write says which granules are right
after it.

Key definitions: `GranuleOk`, `ShadowOk`, `NoUserByte`, `NoFreedOrRedzone`.
Key theorems: `ShadowOk.free`, `ShadowOk.start`, `ShadowOk.allocate`,
`ShadowOk.clear`.
-/
import Cmasan.HookEffects

namespace Cmasan

/-! ### Granules -/

/-- The shadow of granule `n` is what the info of its chunk says. -/
structure GranuleOk (i : ChunkInfo) (s : Shadow) (n : ℕ) : Prop where
  freed : i.status = .deallocated → ∀ a, a / 8 = n → addressIsPoisoned s a = true
  user : i.status = .allocated → ∀ a, a / 8 = n → i.startAddr ≤ a → a < i.startAddr + i.chunkSize →
    addressIsPoisoned s a = false
  redzone : i.status = .allocated → ∀ a, a / 8 = n → i.startAddr + i.chunkSize ≤ a →
    addressIsPoisoned s a = true

/-- Granule `n` has no byte of an allocated object. -/
def NoUserByte (i : ChunkInfo) (n : ℕ) : Prop :=
  i.status = .allocated →
    i.chunkSize = 0 ∨ i.startAddr + i.chunkSize ≤ 8 * n ∨ 8 * n + 8 ≤ i.startAddr

/-- Granule `n` has no byte of a released chunk or of a redzone. -/
def NoFreedOrRedzone (i : ChunkInfo) (n : ℕ) : Prop :=
  i.status ≠ .deallocated ∧ (i.status = .allocated → 8 * n + 8 ≤ i.startAddr + i.chunkSize)

instance (i : ChunkInfo) (n : ℕ) : Decidable (NoUserByte i n) := by unfold NoUserByte; infer_instance

instance (i : ChunkInfo) (n : ℕ) : Decidable (NoFreedOrRedzone i n) := by
  unfold NoFreedOrRedzone; infer_instance

section Granules

variable {i j : ChunkInfo} {s s' : Shadow} {n : ℕ}

theorem addressIsPoisoned_congr {a : ℕ} (h : s' (a / 8) = s (a / 8)) :
    addressIsPoisoned s' a = addressIsPoisoned s a := by
  unfold addressIsPoisoned
  rw [h]

/-- What matters of an info are its status and the bounds of its object. -/
theorem GranuleOk.congr (h : GranuleOk i s n) (hst : j.status = i.status) (hstart : j.startAddr = i.startAddr)
    (hsize : j.chunkSize = i.chunkSize) (hs : s' n = s n) : GranuleOk j s' n := by
  have hp : ∀ a, a / 8 = n → addressIsPoisoned s' a = addressIsPoisoned s a := fun a ha =>
    addressIsPoisoned_congr (by rw [ha, hs])
  refine ⟨fun hd a ha => ?_, fun hd a ha h1 h2 => ?_, fun hd a ha h1 => ?_⟩
  · rw [hp a ha]
    exact h.freed (hst ▸ hd) a ha
  · rw [hp a ha]
    exact h.user (hst ▸ hd) a ha (hstart ▸ h1) (hstart ▸ hsize ▸ h2)
  · rw [hp a ha]
    exact h.redzone (hst ▸ hd) a ha (hstart ▸ hsize ▸ h1)

theorem granuleOk_of_poisoned (hs : 128 ≤ s n) (h : NoUserByte i n) : GranuleOk i s n := by
  have hp := forall_poisoned_iff.mpr hs
  refine ⟨fun _ => hp, fun hd a ha h1 h2 => ?_, fun _ a ha _ => hp a ha⟩
  have := h hd
  omega

theorem granuleOk_of_zero (hs : s n = 0) (h : NoFreedOrRedzone i n) : GranuleOk i s n := by
  refine ⟨fun hd => absurd hd h.1, fun _ a ha _ _ => ?_, fun hd a ha h1 => ?_⟩
  · unfold addressIsPoisoned
    rw [ha, hs]
    simp
  · have := h.2 hd
    omega

theorem granuleOk_of_inRealloc (h : i.status = .inRealloc) : GranuleOk i s n :=
  ⟨fun hd => by simp [h] at hd, fun hd => by simp [h] at hd, fun hd => by simp [h] at hd⟩

end Granules

/-- The granules from `lo` to below `hi`. -/
def granules (lo hi : ℕ) : List ℕ := List.range' lo (hi - lo)

theorem mem_granules {lo hi n : ℕ} : n ∈ granules lo hi ↔ lo ≤ n ∧ n < hi := by
  unfold granules
  rw [List.mem_range'_1]
  omega

/-- The granules of a chunk's range. -/
def ChunkInfo.granules (i : ChunkInfo) : List ℕ := Cmasan.granules (i.startAddr / 8) (i.endAddr / 8)

/-! ### States -/

/-- The chunks lie in the 48-bit space, and the granules of `P` are right. -/
structure ShadowOk (s : State) (P : ℕ → Prop) : Prop where
  inv : s.Inv
  bounded : ∀ n c, slot s.tlt n = some c → (s.tlt.info c).endAddr ≤ 2 ^ 48
  ok : ∀ n, P n → ∀ c, slot s.tlt n = some c → GranuleOk (s.tlt.info c) s.shadow n

theorem ShadowOk.initial (P : ℕ → Prop) : ShadowOk .initial P :=
  ⟨State.initial_inv, fun n c h => by simp [State.initial, slot, initializeTlt] at h,
    fun n _ c h => by simp [State.initial, slot, initializeTlt] at h⟩

section States

variable {s s' : State} {P Q : ℕ → Prop}

theorem ShadowOk.mono (h : ShadowOk s P) (hpq : ∀ n, Q n → P n) : ShadowOk s Q :=
  ⟨h.inv, h.bounded, fun n hn => h.ok n (hpq n hn)⟩

theorem ShadowOk.congr (h : ShadowOk s P) (hi : s'.Inv) (ht : s'.tlt = s.tlt) (hs : s'.shadow = s.shadow) :
    ShadowOk s' P := by
  refine ⟨hi, ?_, ?_⟩
  · rw [ht]
    exact h.bounded
  · rw [ht, hs]
    exact h.ok

theorem ShadowOk.same (h : ShadowOk s P) (hs : State.Same s s') : ShadowOk s' P :=
  h.congr (h.inv.congr hs.tlt hs.qz) hs.tlt hs.shadow

theorem ShadowOk.mem_granules (h : ShadowOk s P) {n c : ℕ} (hs : slot s.tlt n = some c) :
    n ∈ (s.tlt.info c).granules := by
  have hr := h.inv.tlt.range hs (h.bounded n c hs)
  unfold roundDownTo at hr
  exact Cmasan.mem_granules.mpr (by omega)

/-- **A change of one chunk's info** and of the shadow: what is left to check
are the chunk's own granules, and those of others whose shadow changed. -/
theorem ShadowOk.setInfo (h : ShadowOk s P) {c : ℕ} {i : ChunkInfo} (hi : s'.Inv)
    (ht : s'.tlt = s.tlt.setInfo c i) (hstart : i.startAddr = (s.tlt.info c).startAddr)
    (hsize : i.chunkSize = (s.tlt.info c).chunkSize) (hrz : i.rzSize = (s.tlt.info c).rzSize)
    (hown : ∀ n, Q n → slot s.tlt n = some c → GranuleOk i s'.shadow n)
    (hother : ∀ n, Q n → ∀ c', slot s.tlt n = some c' → c' ≠ c →
      P n ∧ s'.shadow n = s.shadow n ∨ GranuleOk (s.tlt.info c') s'.shadow n) : ShadowOk s' Q := by
  refine ⟨hi, fun n c' hc' => ?_, fun n hn c' hc' => ?_⟩
  · rw [ht, slot_setInfo] at hc'
    rw [ht, info_setInfo]
    split
    · rename_i he
      have := h.bounded n c (he ▸ hc')
      unfold ChunkInfo.endAddr at this ⊢
      omega
    · exact h.bounded n c' hc'
  · rw [ht, slot_setInfo] at hc'
    rw [ht, info_setInfo]
    split
    · rename_i he
      exact hown n hn (he ▸ hc')
    · rename_i hne
      rcases hother n hn c' hc' hne with ⟨hp, hs⟩ | hok
      · exact (h.ok n hp c' hc').congr rfl rfl rfl hs
      · exact hok

/-- The range of the chunk `c` has no byte of another allocated object. -/
def PoisonsOnly (t : Tlt) (c : ℕ) : Prop :=
  ∀ n ∈ (t.info c).granules, ∀ c' ∈ slot t n, c' ≠ c → NoUserByte (t.info c') n

instance (t : Tlt) (c : ℕ) : Decidable (PoisonsOnly t c) := by unfold PoisonsOnly; infer_instance

theorem freedShadow_eq {F : Flags} (hp : F.canPoisonMemory = true) (s : Shadow) {i : ChunkInfo}
    (hb : i.endAddr ≤ 2 ^ 48) (n : ℕ) :
    freedShadow F s i i.startAddr n = if n ∈ i.granules then kAsanHeapFreeMagic else s n := by
  have hend : roundDownTo i.startAddr 8 +
      uadd (uadd i.rzSize i.chunkSize) (i.startAddr - roundDownTo i.startAddr 8) = i.endAddr := by
    have := roundDownTo_le i.startAddr 8
    unfold ChunkInfo.endAddr at hb ⊢
    rw [uadd_eq (a := i.rzSize) (by omega), uadd_eq (by omega)]
    omega
  unfold freedShadow fastPoisonShadow
  rw [if_pos hp, hend]
  have hdown : roundDownTo i.startAddr 8 / 8 = i.startAddr / 8 := by unfold roundDownTo; omega
  simp only [hdown, ChunkInfo.granules, Cmasan.mem_granules]

/-- **A released chunk.** Its own granules are right, and so are those that
were, if its range has no byte of another allocated object. -/
theorem ShadowOk.free {F : Flags} (hp : F.canPoisonMemory = true) (h : ShadowOk s P) {k : Caller}
    {c id ptr a : ℕ} (hget : tltGet s.tlt a = some c) (hstart : (s.tlt.info c).startAddr = ptr) (hi : s'.Inv)
    (ht : s'.tlt = s.tlt.setInfo c ((s.tlt.info c).released k id))
    (hs : s'.shadow = freedShadow F s.shadow (s.tlt.info c) ptr)
    (hone : ∀ n, Q n → n ∈ (s.tlt.info c).granules → ∀ c', slot s.tlt n = some c' → c' ≠ c →
      NoUserByte (s.tlt.info c') n)
    (hq : ∀ n, Q n → P n ∨ slot s.tlt n = some c) : ShadowOk s' Q := by
  have hb := h.bounded _ c (tltGet_eq_some.mp hget).2.1
  have hsh : ∀ n, s'.shadow n = if n ∈ (s.tlt.info c).granules then kAsanHeapFreeMagic else s.shadow n :=
    fun n => by rw [hs, ← hstart, freedShadow_eq hp _ hb]
  refine h.setInfo hi ht rfl rfl rfl (fun n _ hc => ?_) (fun n hn c' hc' hne => ?_)
  · refine granuleOk_of_poisoned ?_ (fun hd => by simp [ChunkInfo.released] at hd)
    rw [hsh, if_pos (h.mem_granules hc)]
    decide
  · by_cases hm : n ∈ (s.tlt.info c).granules
    · refine .inr (granuleOk_of_poisoned ?_ (hone n hn hm c' hc' hne))
      rw [hsh, if_pos hm]
      decide
    · refine .inl ⟨(hq n hn).resolve_right fun hc => hne ?_, by rw [hsh, if_neg hm]⟩
      exact Option.some.inj (hc'.symm.trans hc)

/-- The range that the start of a `realloc` lets go of has no byte of another
chunk that is released or in a redzone. -/
def ExposesOnly (t : Tlt) (oldPtr c : ℕ) : Prop :=
  ∀ n ∈ granules (roundDownTo oldPtr 8 / 8) ((roundDownTo oldPtr 8 +
      uadd (uadd (t.info c).rzSize (t.info c).chunkSize) (oldPtr - roundDownTo oldPtr 8)) / 8),
    ∀ c' ∈ slot t n, c' ≠ c → NoFreedOrRedzone (t.info c') n

instance (t : Tlt) (oldPtr c : ℕ) : Decidable (ExposesOnly t oldPtr c) := by
  unfold ExposesOnly; infer_instance

/-- **The start of a `realloc`** keeps all granules right. -/
theorem ShadowOk.start {F : Flags} (h : ShadowOk s fun _ => True) {oldPtr id : ℕ}
    (hone : ∀ c ∈ tltGet s.tlt oldPtr, ExposesOnly s.tlt oldPtr c) :
    ShadowOk (reallocateCMAChunkStart F s oldPtr false id) fun _ => True := by
  have hi := reallocateCMAChunkStart_inv (F := F) h.inv oldPtr id false
  rcases reallocateCMAChunkStart_cases F s oldPtr id false with ⟨-, hs⟩ | ⟨c, -, hget, ht, hsh, -⟩
  · exact h.same hs
  · refine h.setInfo hi ht rfl rfl rfl (fun n _ _ => granuleOk_of_inRealloc rfl) (fun n _ c' hc' hne => ?_)
    rw [hsh]
    unfold fastPoisonShadow
    split
    · rename_i hr
      exact .inr (granuleOk_of_zero (if_pos hr) (hone c hget n (Cmasan.mem_granules.mpr hr) c' hc' hne))
    · exact .inl ⟨trivial, rfl⟩

/-! ### Hand-outs -/

/-- The shadow that a tracked hand-out writes is what its info says. -/
theorem newChunkShadow_ok {sh : Shadow} {i : ChunkInfo} {ptr size E n : ℕ} (hE : ptr + size < E)
    (hi : i.status = .allocated) (hstart : i.startAddr = ptr) (hsize : i.chunkSize = size) (hlt : n < E / 8) :
    GranuleOk i (newChunkShadow true sh ptr size E) n := by
  refine ⟨fun hd => by simp [hi] at hd, fun _ a _ h1 h2 => ?_, fun _ a ha h1 => ?_⟩
  · exact newChunkShadow_addressable true sh hE (hstart ▸ h1) (hstart ▸ hsize ▸ h2)
  · rw [hstart, hsize] at h1
    unfold addressIsPoisoned newChunkShadow kAsanHeapLeftRedzoneMagic
    simp only [true_and, decide_eq_true_eq]
    rw [if_neg (by omega)]
    by_cases hlast : a / 8 = (ptr + size) / 8 ∧ (ptr + size) % 8 ≠ 0
    · rw [if_pos hlast]
      omega
    · rw [if_neg hlast, if_pos (by omega)]
      omega

theorem newChunkShadow_end {sh : Shadow} {ptr size E : ℕ} (hE : ptr + size < E) (hE8 : E % 8 = 0) :
    newChunkShadow true sh ptr size E (E / 8) = 0 := by
  unfold newChunkShadow
  rw [if_neg (by omega), if_neg (by omega), if_neg (by omega), if_pos (by omega)]

theorem newChunkShadow_outside {sh : Shadow} {ptr size E n : ℕ} (hE : ptr + size < E)
    (hn : ¬ (ptr / 8 ≤ n ∧ n ≤ E / 8)) : newChunkShadow true sh ptr size E n = sh n := by
  unfold newChunkShadow
  rw [if_neg (by omega), if_neg (by omega), if_neg (by omega), if_neg hn]

/-- A hand-out is not empty, and the granule behind a tracked one, which it
makes addressable, is neither released nor of a redzone. -/
def AllocateSafe (rz : RzOptions) (t : Tlt) (ptr size g : ℕ) : Prop :=
  size * g ≠ 0 ∧ (extendSize rz size g false ≠ size →
    ∀ c ∈ slot t (trackedEnd rz ptr size g / 8), NoFreedOrRedzone (t.info c) (trackedEnd rz ptr size g / 8))

instance (rz : RzOptions) (t : Tlt) (ptr size g : ℕ) : Decidable (AllocateSafe rz t ptr size g) := by
  unfold AllocateSafe; infer_instance

/-- The granules that a tracked hand-out enters. -/
def NewGranule (rz : RzOptions) (ptr size g n : ℕ) : Prop :=
  extendSize rz size g false ≠ size ∧ ptr / 8 ≤ n ∧ n < trackedEnd rz ptr size g / 8

instance (rz : RzOptions) (ptr size g n : ℕ) : Decidable (NewGranule rz ptr size g n) := by
  unfold NewGranule; infer_instance

/-- **A hand-out** makes its own granules right, and keeps the others so. -/
theorem ShadowOk.allocate {F : Flags} (hp : F.canPoisonMemory = true) (h : ShadowOk s P) {k : Caller}
    {ptr size g id : ℕ} (hf : Fits F.rz ptr size g) (hsafe : AllocateSafe F.rz s.tlt ptr size g)
    (hall : ∀ n, ¬ NewGranule F.rz ptr size g n → P n)
    (he : allocateCMAChunkImpl F k s ptr size g id = some s') : ShadowOk s' fun _ => True := by
  have hi := allocateCMAChunkImpl_inv h.inv he
  rcases (allocateCMAChunkImpl_cases h.inv hf he).2 with ⟨-, hext, rfl⟩ | ⟨hr, hins, hsh, -⟩ | ⟨hz, -⟩
  · exact h.mono fun n _ => hall n fun hn => hn.1 hext
  · have hE := hr.end_bounds
    have hbound := hf.end_le
    rw [hp] at hsh
    have hcases : ∀ n c, slot s'.tlt n = some c →
        (c = s.tlt.nextInfo ∧ n < trackedEnd F.rz ptr size g / 8) ∨
        (c ≠ s.tlt.nextInfo ∧ slot s.tlt n = some c ∧
          ¬ (ptr / 8 ≤ n ∧ n < trackedEnd F.rz ptr size g / 8)) := fun n c hc => by
      by_cases hin : ptr / 8 ≤ n ∧ n < trackedEnd F.rz ptr size g / 8
      · rw [hins.inside n hin.1 hin.2] at hc
        exact .inl ⟨(Option.some.inj hc).symm, hin.2⟩
      · rw [hins.outside n hin] at hc
        exact .inr ⟨(h.inv.tlt.used _ _ hc).ne, hc, hin⟩
    have hstart : (s'.tlt.info s.tlt.nextInfo).startAddr = ptr := congrArg ChunkInfo.startAddr hins.new
    have hsize : (s'.tlt.info s.tlt.nextInfo).chunkSize = size * g := congrArg ChunkInfo.chunkSize hins.new
    have hrz : (s'.tlt.info s.tlt.nextInfo).rzSize = trackedEnd F.rz ptr size g - ptr - size * g :=
      congrArg ChunkInfo.rzSize hins.new
    have hst : (s'.tlt.info s.tlt.nextInfo).status = .allocated := congrArg ChunkInfo.status hins.new
    refine ⟨hi, fun n c hc => ?_, fun n _ c hc => ?_⟩
    · rcases hcases n c hc with ⟨rfl, -⟩ | ⟨hne, hold, -⟩
      · unfold ChunkInfo.endAddr
        rw [hstart, hsize, hrz]
        omega
      · have hcore := ChunkInfo.core_eq_iff.mp (hins.old c hne)
        unfold ChunkInfo.endAddr
        rw [hcore.1, hcore.2.1, hcore.2.2.1]
        exact h.bounded n c hold
    · rcases hcases n c hc with ⟨rfl, hlt⟩ | ⟨hne, hold, hout⟩
      · rw [hsh]
        exact newChunkShadow_ok (by omega) hst hstart hsize hlt
      · -- an old chunk: its shadow is as it was, but for the granule at the end
        have hcore := ChunkInfo.core_eq_iff.mp (hins.old c hne)
        by_cases hend : n = trackedEnd F.rz ptr size g / 8
        · have hzero : s'.shadow n = 0 := by
            rw [hsh, hend, newChunkShadow_end (by omega) hE.2.2.2]
          have hno := hsafe.2 hr.extended c (hend ▸ hold)
          refine granuleOk_of_zero hzero ?_
          unfold NoFreedOrRedzone at hno ⊢
          rw [hcore.1, hcore.2.1, hcore.2.2.2.1, hend]
          exact hno
        · refine (h.ok n (hall n fun hn => hout hn.2) c hold).congr hcore.2.2.2.1 hcore.1 hcore.2.1 ?_
          rw [hsh, newChunkShadow_outside (by omega) (by omega)]
  · exact absurd hz hsafe.1

/-! ### Clears -/

/-- The chunks that a `CLEAR` over `ptrs` releases. -/
def Cleared (t : Tlt) (ptrs : List ℕ) (c : ℕ) : Prop := ∃ p ∈ ptrs, clearable t p = some c

instance (t : Tlt) (ptrs : List ℕ) (c : ℕ) : Decidable (Cleared t ptrs c) := by
  unfold Cleared; infer_instance

/-- A `CLEAR` finds no byte of an object that it does not drop itself in the
ranges of the chunks it drops. -/
def ClearSafe (t : Tlt) (ptrs : List ℕ) : Prop :=
  ∀ p ∈ ptrs, ∀ c ∈ clearable t p, ∀ n ∈ (t.info c).granules, ∀ c' ∈ slot t n,
    c' ≠ c → ¬ Cleared t ptrs c' → NoUserByte (t.info c') n

instance (t : Tlt) (ptrs : List ℕ) : Decidable (ClearSafe t ptrs) := by unfold ClearSafe; infer_instance

/-- The state of the loop of a `CLEAR` that started with the table `t` and
has the pointers `left` before it. -/
structure Clearing (t : Tlt) (ptrs left : List ℕ) (s : State) : Prop where
  sub : left ⊆ ptrs
  slots : ∀ n, slot s.tlt n = slot t n
  gets : ∀ a, tltGet s.tlt a = tltGet t a
  infos : ∀ c, s.tlt.info c = t.info c ∨
    (s.tlt.info c).status = .deallocated ∧ (s.tlt.info c).startAddr = (t.info c).startAddr ∧
      (s.tlt.info c).chunkSize = (t.info c).chunkSize ∧ (s.tlt.info c).rzSize = (t.info c).rzSize
  pending : ∀ c, Cleared t ptrs c → (s.tlt.info c).status = .deallocated ∨ Cleared t left c
  ok : ShadowOk s fun n => ∀ c, slot t n = some c →
    (s.tlt.info c).status ≠ .deallocated → ¬ Cleared t left c

theorem cleared_cons {t : Tlt} {p : ℕ} {ptrs : List ℕ} {c : ℕ} :
    Cleared t (p :: ptrs) c ↔ clearable t p = some c ∨ Cleared t ptrs c := by
  unfold Cleared
  rw [List.exists_mem_cons_iff]

section Clearing

variable {t : Tlt} {ptrs left : List ℕ} {p c : ℕ}

theorem Clearing.info_eq (h : Clearing t ptrs left s) (hd : (s.tlt.info c).status ≠ .deallocated) :
    s.tlt.info c = t.info c := (h.infos c).resolve_right fun hn => hd hn.1

theorem Clearing.clearable_iff (h : Clearing t ptrs left s) :
    clearable s.tlt p = some c ↔ clearable t p = some c ∧ (s.tlt.info c).status ≠ .deallocated := by
  rw [clearable_eq_some, clearable_eq_some, h.gets]
  constructor
  · rintro ⟨h1, h2, h3⟩
    rw [← h.info_eq h2]
    exact ⟨⟨h1, h2, h3⟩, h2⟩
  · rintro ⟨⟨h1, -, h3⟩, h4⟩
    exact ⟨h1, h4, h.info_eq h4 ▸ h3⟩

theorem Clearing.skip (h : Clearing t ptrs (p :: left) s) (hc : clearable s.tlt p = none) :
    Clearing t ptrs left s := by
  have hno : ∀ c, clearable t p = some c → (s.tlt.info c).status = .deallocated := fun c hp => by
    by_contra hd
    rw [h.clearable_iff.mpr ⟨hp, hd⟩] at hc
    cases hc
  refine ⟨List.subset_of_cons_subset h.sub, h.slots, h.gets, h.infos, fun c hcl => ?_,
    h.ok.mono fun n hn c hc hd hcl => ?_⟩
  · rcases h.pending c hcl with hd | hcl'
    · exact .inl hd
    · exact (cleared_cons.mp hcl').imp_left (hno c)
  · exact (cleared_cons.mp hcl).elim (fun hp => hd (hno c hp)) (hn c hc hd)

theorem Clearing.free {F : Flags} (hp : F.canPoisonMemory = true) (h : Clearing t ptrs (p :: left) s)
    (hsafe : ClearSafe t ptrs) {k : Caller} {id : ℕ} (hc : clearable s.tlt p = some c)
    (hf : freeChunk F k s c p id = some s') : Clearing t ptrs left s' := by
  obtain ⟨ht, hsh, -⟩ := freeChunk_cases hf
  obtain ⟨hget, hd, hstart⟩ := clearable_eq_some.mp hc
  have hct := (h.clearable_iff.mp hc).1
  have hi := freeChunk_inv h.ok.inv hf
  have hinfo : ∀ c', s'.tlt.info c' = if c' = c then (s.tlt.info c).released k id else s.tlt.info c' :=
    fun c' => by rw [ht, info_setInfo]
  -- a chunk that is at `p` is this one
  have hcons : ∀ c', c' ≠ c → Cleared t (p :: left) c' → Cleared t left c' := fun c' hne hcl =>
    (cleared_cons.mp hcl).resolve_left fun hp => hne (Option.some.inj (hp.symm.trans hct))
  refine
    { sub := List.subset_of_cons_subset h.sub
      slots := fun n => by rw [ht, slot_setInfo, h.slots]
      gets := fun a => by rw [ht, tltGet_setInfo hget (by simp [ChunkInfo.released]), h.gets]
      infos := fun c' => ?_
      pending := fun c' hcl => ?_
      ok := h.ok.free hp hget hstart hi ht hsh (fun n hn hm c' hc' hne => ?_) (fun n hn => ?_) }
  · rw [hinfo]
    split
    · rename_i he
      rw [he, ← h.info_eq hd]
      exact .inr ⟨rfl, rfl, rfl, rfl⟩
    · exact h.infos c'
  · rw [hinfo]
    split
    · exact .inl rfl
    · rename_i hne
      exact (h.pending c' hcl).imp_right (hcons c' hne)
  · -- another chunk in the range is released already, or has no byte of an object here
    by_cases hd' : (s.tlt.info c').status = .deallocated
    · intro ha
      rw [hd'] at ha
      cases ha
    · rw [h.info_eq hd']
      rw [h.slots] at hc'
      refine hsafe p (h.sub List.mem_cons_self) c hct n (h.info_eq hd ▸ hm) c' hc' hne fun hcl => ?_
      have hst : (s'.tlt.info c').status ≠ .deallocated := by
        rw [hinfo, if_neg hne]
        exact hd'
      exact hn c' hc' hst (hcons c' hne ((h.pending c' hcl).resolve_left hd'))
  · by_cases hs : slot s.tlt n = some c
    · exact .inr hs
    · refine .inl fun c' hc' hd' hcl => ?_
      have hne : c' ≠ c := fun he => hs (by rw [h.slots, hc', he])
      exact hn c' hc' (by rwa [hinfo, if_neg hne]) (hcons c' hne hcl)

theorem Clearing.loop {F : Flags} (hp : F.canPoisonMemory = true) (hsafe : ClearSafe t ptrs) {k : Caller}
    {id : ℕ} : ∀ (left : List ℕ) {s s' : State}, Clearing t ptrs left s →
      clearLoop F k id left s = some s' → Clearing t ptrs [] s'
  | [], _, _, h, he => Option.some.inj he ▸ h
  | p :: left, s, s', h, he => by
    unfold clearLoop at he
    rcases hc : clearable s.tlt p with _ | c
    · rw [hc] at he
      exact Clearing.loop hp hsafe left (h.skip hc) he
    · rw [hc] at he
      obtain ⟨s₁, hf, he⟩ := Option.bind_eq_some_iff.mp he
      exact Clearing.loop hp hsafe left (h.free hp hsafe hc hf) he

end Clearing

/-- The pointers in the list of an id. -/
def State.listed (s : State) (id : ℕ) : List ℕ :=
  (List.range (s.alz.view newAllocListZone id).pos).map (s.alz.view newAllocListZone id).allocList

/-- **A `CLEAR`** keeps all granules right. -/
theorem ShadowOk.clear {F : Flags} (hp : F.canPoisonMemory = true) (h : ShadowOk s fun _ => True) {k : Caller}
    {id : ℕ} (hsafe : ClearSafe s.tlt (s.listed id)) (he : clearCMAChunks F k s id = some s') :
    ShadowOk s' fun _ => True := by
  have hi : s'.Inv := hookStep_inv (e := .clear k id) h.inv he
  obtain ⟨s₁, s₂, ptrs, hl, hptrs, ht₁, hs₁, hq₁, -, ht₂, hs₂, -⟩ := clearCMAChunks_cases he
  have hptrs' : ptrs = s.listed id := hptrs
  rw [← hptrs'] at hsafe
  have h₁ : Clearing s.tlt ptrs ptrs s₁ :=
    { sub := List.Subset.refl _
      slots := fun n => by rw [ht₁]
      gets := fun a => by rw [ht₁]
      infos := fun c => .inl (by rw [ht₁])
      pending := fun c hc => .inr hc
      ok := (h.congr (h.inv.congr ht₁ hq₁) ht₁ hs₁).mono fun _ _ => trivial }
  have h₂ := (h₁.loop hp hsafe ptrs hl).ok
  refine (h₂.mono fun n _ c _ _ hc => ?_).congr hi ht₂ hs₂
  obtain ⟨p, hm, -⟩ := hc
  cases hm

end States

end Cmasan
