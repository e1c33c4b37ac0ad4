/-
# What a CLEAR does, exactly

`__asan_clearCMAChunks` walks the list of its id. An entry is a raw address:
the chunk found there is released if it begins at the entry and is not
`DEALLOCATED` yet, whatever its id. An entry that comes again finds its chunk
released. So the loop releases the chunks that some entry finds in the table
the call started with (`Cleared`), under the id of the call, poisons their
ranges, and does nothing else (`clearCMAChunks_spec`).

Key definitions: `ChunkInfo.poisons`, `RangePoisoned`, `ClearedBy`.
Key theorems: `freeChunk_returns`, `clearLoop_spec`, `clearCMAChunks_spec`.
-/
import Cmasan.ShadowAgrees

namespace Cmasan

/-- Granule `n` is one of those that freeing the chunk poisons. -/
def ChunkInfo.poisons (i : ChunkInfo) (n : ℕ) : Prop :=
  i.startAddr / 8 ≤ n ∧ n < (roundDownTo i.startAddr 8 +
    uadd (uadd i.rzSize i.chunkSize) (i.startAddr - roundDownTo i.startAddr 8)) / 8

instance (i : ChunkInfo) (n : ℕ) : Decidable (i.poisons n) := by unfold ChunkInfo.poisons; infer_instance

theorem ChunkInfo.poisons_iff {i : ChunkInfo} (h : i.endAddr ≤ 2 ^ 48) {n : ℕ} :
    i.poisons n ↔ n ∈ i.granules := by
  have hdown := roundDownTo_le i.startAddr 8
  have hend : roundDownTo i.startAddr 8 +
      uadd (uadd i.rzSize i.chunkSize) (i.startAddr - roundDownTo i.startAddr 8) = i.endAddr := by
    unfold ChunkInfo.endAddr at h ⊢
    rw [uadd_eq (a := i.rzSize) (by omega), uadd_eq (by omega)]
    omega
  unfold ChunkInfo.poisons
  rw [hend]
  exact mem_granules.symm

theorem freedShadow_apply (F : Flags) (sh : Shadow) (i : ChunkInfo) (n : ℕ) :
    freedShadow F sh i i.startAddr n =
      if F.canPoisonMemory = true ∧ i.poisons n then kAsanHeapFreeMagic else sh n := by
  have hdown : roundDownTo i.startAddr 8 / 8 = i.startAddr / 8 := by unfold roundDownTo; omega
  unfold freedShadow ChunkInfo.poisons
  by_cases hp : F.canPoisonMemory = true
  · rw [if_pos hp]
    unfold fastPoisonShadow
    rw [hdown]
    simp only [hp, true_and]
  · rw [if_neg hp, if_neg fun h => hp h.1]

/-- Every byte of the tracked range is poisoned. -/
def RangePoisoned (i : ChunkInfo) (sh : Shadow) : Prop :=
  ∀ a, roundDownTo i.startAddr 8 ≤ a → a < i.endAddr → addressIsPoisoned sh a = true

section RangePoisoned

variable {i : ChunkInfo} {sh sh' : Shadow}

theorem div_mem_granules (hal : i.endAddr % 8 = 0) {a : ℕ} (h1 : roundDownTo i.startAddr 8 ≤ a)
    (h2 : a < i.endAddr) : a / 8 ∈ i.granules := by
  unfold roundDownTo at h1
  exact mem_granules.mpr (by omega)

theorem rangePoisoned_of_magic (hal : i.endAddr % 8 = 0) (h : ∀ n ∈ i.granules, sh n = kAsanHeapFreeMagic) :
    RangePoisoned i sh := by
  intro a h1 h2
  apply addressIsPoisoned_of_ge
  rw [h _ (div_mem_granules hal h1 h2)]
  decide

theorem rangePoisoned_congr (hal : i.endAddr % 8 = 0) (h : ∀ n ∈ i.granules, sh' n = sh n) :
    RangePoisoned i sh' ↔ RangePoisoned i sh := by
  apply forall_congr'
  intro a
  apply forall_congr'
  intro h1
  apply forall_congr'
  intro h2
  rw [addressIsPoisoned_congr (h _ (div_mem_granules hal h1 h2))]

end RangePoisoned

/-- **Freeing a chunk of the table returns**: its range ends on a granule
boundary. -/
theorem freeChunk_returns (F : Flags) (k : Caller) {s : State} (h : s.Inv) {c ptr : ℕ}
    (hget : tltGet s.tlt ptr = some c) (hstart : (s.tlt.info c).startAddr = ptr) (id : ℕ) :
    ∃ s', freeChunk F k s c ptr id = some s' := by
  have hal := h.tlt.aligned _ _ (tltGet_eq_some.mp hget).2.1
  have hdown := roundDownTo_le ptr 8
  have hend : isAligned (uadd (roundDownTo ptr 8)
      (uadd (uadd (s.tlt.info c).rzSize (s.tlt.info c).chunkSize) (ptr - roundDownTo ptr 8))) 8 := by
    unfold isAligned uadd at hal ⊢
    rw [hstart] at hal
    simp only [decide_eq_true_eq] at hal ⊢
    omega
  have hbeg : isAligned (roundDownTo ptr 8) 8 := by
    unfold isAligned roundDownTo
    simp
  unfold freeChunk
  simp only [poisonShadow]
  split
  · exact ⟨_, rfl⟩
  · rw [if_pos ⟨hbeg, hend⟩]
    exact ⟨_, rfl⟩

/-! ### The loop -/

section Freed

variable {F : Flags} {k : Caller} {s s' : State} {p c c' id : ℕ} {ptrs : List ℕ}

/-- A released chunk is not to be cleared any more, and every other one is as
it was. -/
theorem clearable_freeChunk (hget : tltGet s.tlt p = some c) (hf : freeChunk F k s c p id = some s') (q : ℕ) :
    clearable s'.tlt q = some c' ↔ clearable s.tlt q = some c' ∧ c' ≠ c := by
  obtain ⟨ht, -⟩ := freeChunk_cases hf
  rw [clearable_eq_some, clearable_eq_some, ht, tltGet_setInfo hget (by simp [ChunkInfo.released]), info_setInfo]
  by_cases he : c' = c
  · simp [he, ChunkInfo.released]
  · simp [he]

theorem cleared_freeChunk (hc : clearable s.tlt p = some c) (hf : freeChunk F k s c p id = some s') :
    Cleared s'.tlt ptrs c' ↔ Cleared s.tlt (p :: ptrs) c' ∧ c' ≠ c := by
  have hfree : ∀ q, clearable s'.tlt q = some c' ↔ clearable s.tlt q = some c' ∧ c' ≠ c :=
    clearable_freeChunk (clearable_eq_some.mp hc).1 hf
  rw [cleared_cons]
  unfold Cleared
  simp only [hfree]
  constructor
  · rintro ⟨q, hm, hq, hne⟩
    exact ⟨.inr ⟨q, hm, hq⟩, hne⟩
  · rintro ⟨hp | ⟨q, hm, hq⟩, hne⟩
    · exact absurd (Option.some.inj (hp.symm.trans hc)) hne
    · exact ⟨q, hm, hq, hne⟩

end Freed

/-- What a loop over `ptrs` in state `s` leaves. -/
structure ClearedBy (F : Flags) (k : Caller) (id : ℕ) (ptrs : List ℕ) (s s' : State) : Prop where
  slots : ∀ n, slot s'.tlt n = slot s.tlt n
  gets : ∀ a, tltGet s'.tlt a = tltGet s.tlt a
  nextInfo : s'.tlt.nextInfo = s.tlt.nextInfo
  released : ∀ c, Cleared s.tlt ptrs c → s'.tlt.info c = (s.tlt.info c).released k id
  kept : ∀ c, ¬ Cleared s.tlt ptrs c → s'.tlt.info c = s.tlt.info c
  poisoned : F.canPoisonMemory = true → ∀ c, Cleared s.tlt ptrs c → ∀ n, (s.tlt.info c).poisons n →
    s'.shadow n = kAsanHeapFreeMagic
  shadow : ∀ n, (∀ c, Cleared s.tlt ptrs c → F.canPoisonMemory = true → ¬ (s.tlt.info c).poisons n) →
    s'.shadow n = s.shadow n
  qz : s'.qz = s.qz

theorem ClearedBy.skip {F : Flags} {k : Caller} {id p : ℕ} {ptrs : List ℕ} {s s' : State}
    (h : ClearedBy F k id ptrs s s') (hc : clearable s.tlt p = none) : ClearedBy F k id (p :: ptrs) s s' := by
  have hcl : ∀ c, Cleared s.tlt (p :: ptrs) c ↔ Cleared s.tlt ptrs c := fun c => by
    rw [cleared_cons, hc]
    simp
  exact
    { h with
      released := fun c h' => h.released c ((hcl c).mp h')
      kept := fun c h' => h.kept c fun hn => h' ((hcl c).mpr hn)
      poisoned := fun hp c h' => h.poisoned hp c ((hcl c).mp h')
      shadow := fun n h' => h.shadow n fun c hn => h' c ((hcl c).mpr hn) }

theorem ClearedBy.free {F : Flags} {k : Caller} {id p c : ℕ} {ptrs : List ℕ} {s s₁ s' : State}
    (hc : clearable s.tlt p = some c) (hf : freeChunk F k s c p id = some s₁)
    (h : ClearedBy F k id ptrs s₁ s') : ClearedBy F k id (p :: ptrs) s s' := by
  obtain ⟨ht, hsh, hq, -⟩ := freeChunk_cases hf
  obtain ⟨hget, -, hstart⟩ := clearable_eq_some.mp hc
  have hmine : Cleared s.tlt (p :: ptrs) c := cleared_cons.mpr (.inl hc)
  have hcl : ∀ c', Cleared s₁.tlt ptrs c' ↔ Cleared s.tlt (p :: ptrs) c' ∧ c' ≠ c := fun c' =>
    cleared_freeChunk hc hf
  have hno : ¬ Cleared s₁.tlt ptrs c := fun h' => ((hcl c).mp h').2 rfl
  have hinfo : ∀ c', c' ≠ c → s₁.tlt.info c' = s.tlt.info c' := fun c' hne => by
    rw [ht, info_setInfo, if_neg hne]
  have hself : s₁.tlt.info c = (s.tlt.info c).released k id := by
    rw [ht, info_setInfo, if_pos rfl]
  have hshadow : ∀ n, s₁.shadow n =
      if F.canPoisonMemory = true ∧ (s.tlt.info c).poisons n then kAsanHeapFreeMagic else s.shadow n :=
    fun n => by rw [hsh, ← hstart, freedShadow_apply]
  refine
    { slots := fun n => by rw [h.slots, ht, slot_setInfo]
      gets := fun a => by rw [h.gets, ht, tltGet_setInfo hget (by simp [ChunkInfo.released])]
      nextInfo := by rw [h.nextInfo, ht]; rfl
      released := fun c' hc' => ?_
      kept := fun c' hc' => ?_
      poisoned := fun hp c' hc' n hn => ?_
      shadow := fun n hn => ?_
      qz := by rw [h.qz, hq] }
  · by_cases he : c' = c
    · rw [he, h.kept c hno, hself]
    · rw [h.released c' ((hcl c').mpr ⟨hc', he⟩), hinfo c' he]
  · have he : c' ≠ c := fun he => hc' (he ▸ hmine)
    rw [h.kept c' fun h' => hc' ((hcl c').mp h').1, hinfo c' he]
  · by_cases he : c' = c
    · -- the granule is poisoned now, and stays so
      subst he
      by_cases hagain : ∃ c'', Cleared s₁.tlt ptrs c'' ∧ (s₁.tlt.info c'').poisons n
      · obtain ⟨c'', h1, h2⟩ := hagain
        exact h.poisoned hp c'' h1 n h2
      · rw [h.shadow n fun c'' h1 _ h2 => hagain ⟨c'', h1, h2⟩, hshadow, if_pos ⟨hp, hn⟩]
    · refine h.poisoned hp c' ((hcl c').mpr ⟨hc', he⟩) n ?_
      rw [hinfo c' he]
      exact hn
  · rw [h.shadow n, hshadow, if_neg fun hn' => hn c hmine hn'.1 hn'.2]
    intro c' hc' hp
    obtain ⟨h1, h2⟩ := (hcl c').mp hc'
    rw [hinfo c' h2]
    exact hn c' h1 hp

/-- **The loop of a `CLEAR`** returns and does what its entries say. -/
theorem clearLoop_spec (F : Flags) (k : Caller) (id : ℕ) : ∀ (ptrs : List ℕ) {s : State}, s.Inv →
    ∃ s', clearLoop F k id ptrs s = some s' ∧ ClearedBy F k id ptrs s s'
  | [], s, _ => by
    have hno : ∀ c, ¬ Cleared s.tlt [] c := by
      rintro c ⟨p, hm, -⟩
      cases hm
    exact ⟨s, rfl, fun _ => rfl, fun _ => rfl, rfl, fun c h => absurd h (hno c), fun _ _ => rfl,
      fun _ c h => absurd h (hno c), fun _ _ => rfl, rfl⟩
  | p :: ptrs, s, h => by
    unfold clearLoop
    rcases hc : clearable s.tlt p with _ | c
    · obtain ⟨s', he, hs⟩ := clearLoop_spec F k id ptrs h
      exact ⟨s', he, hs.skip hc⟩
    · obtain ⟨hget, -, hstart⟩ := clearable_eq_some.mp hc
      obtain ⟨s₁, hf⟩ := freeChunk_returns F k h hget hstart id
      obtain ⟨s', he, hs⟩ := clearLoop_spec F k id ptrs (freeChunk_inv h hf)
      refine ⟨s', ?_, hs.free hc hf⟩
      simp only [hf, Option.bind_some]
      exact he

/-- **`__asan_clearCMAChunks`** returns, releases the chunks that the list of
its id finds, and leaves every other chunk as it is. -/
theorem clearCMAChunks_spec (F : Flags) (k : Caller) {s : State} (h : s.Inv) (id : ℕ) :
    ∃ s', clearCMAChunks F k s id = some s' ∧ ClearedBy F k id (s.listed id) s s' := by
  have hcell := s.alz.cell_getOrCreate newAllocListZone id
  unfold clearCMAChunks State.listed
  rcases hg : s.alz.getOrCreate newAllocListZone id with ⟨z, alz⟩
  rw [hg] at hcell
  simp only at hcell ⊢
  rw [hcell]
  obtain ⟨s₁, hl, hs⟩ := clearLoop_spec F k id
    ((List.range (s.alz.view newAllocListZone id).pos).map (s.alz.view newAllocListZone id).allocList)
    (s := ({ s with alz } : State).lock F) (h.congr (by simp) (by simp))
  rw [hl]
  refine ⟨_, rfl, ?_⟩
  obtain ⟨h1, h2, h3, h4, h5, h6, h7, h8⟩ := hs
  simp only [State.lock_tlt, State.lock_shadow, State.lock_qz] at h1 h2 h3 h4 h5 h6 h7 h8
  exact ⟨by simpa using h1, by simpa using h2, by simpa using h3, by simpa using h4, by simpa using h5,
    by simpa using h6, by simpa using h7, by simpa using h8⟩

end Cmasan
