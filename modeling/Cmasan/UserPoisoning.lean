/-
# Poisoning by the program

`__asan_poison_memory_region` and `__asan_unpoison_memory_region` work on the
shadow bytes of the granules that the region starts and ends in, and write all
those between. A granule can only be poisoned from some byte on, so the last
one is poisoned only if nothing behind the region is addressable in it, and
the first one is made addressable as a whole.

Key definitions: `asanPoisonMemoryRegion`, `asanUnpoisonMemoryRegion`.
Key theorems: `user_poisoning`.
-/
import Cmasan.AccessCheck

namespace Cmasan

/-! ### The functions -/

/-- An `s8` stored in a byte. -/
def u8 (v : ℤ) : ℕ := (v % 256).toNat

/-- `kAsanUserPoisonedMemoryMagic`. -/
def kAsanUserPoisonedMemoryMagic : ℕ := 0xf7

/-- `ShadowSegmentEndpoint`; a chunk is named by its granule. -/
structure ShadowSegmentEndpoint where
  chunk : ℕ
  offset : ℤ
  value : ℤ

/-- The constructor of `ShadowSegmentEndpoint`; `none` is the `CHECK` of `MemToShadow`. -/
def shadowSegmentEndpoint (L : Layout) (s : Shadow) (address : ℕ) : Option ShadowSegmentEndpoint :=
  if L.addrIsInMem address then some ⟨address / 8, (address % 8 : ℕ), s8 (s (address / 8))⟩ else none

/-- `memset` of the shadow bytes of the granules from `lo` to below `hi`. -/
def memset (s : Shadow) (lo hi value : ℕ) : Shadow := fun n => if lo ≤ n ∧ n < hi then value else s n

/-- `__asan_poison_memory_region`; `none` is a failed `CHECK`. -/
def asanPoisonMemoryRegion (allowUserPoisoning : Bool) (L : Layout) (s : Shadow) (addr size : ℕ) : Option Shadow :=
  if ¬ allowUserPoisoning ∨ size = 0 then some s
  else
    (shadowSegmentEndpoint L s addr).bind fun beg =>
      (shadowSegmentEndpoint L s (uadd addr size)).bind fun end_ =>
        if beg.chunk = end_.chunk then
          if ¬ beg.offset < end_.offset ∨ beg.value ≠ end_.value then none
          -- only if the byte at the end is not addressable
          else if beg.value > 0 ∧ beg.value ≤ end_.offset then
            if beg.offset > 0 then some (Function.update s beg.chunk (u8 (min beg.value beg.offset)))
            else some (Function.update s beg.chunk kAsanUserPoisonedMemoryMagic)
          else some s
        else if ¬ beg.chunk < end_.chunk then none
        else
          let first : Shadow :=
            if beg.offset > 0 then
              if beg.value = 0 then Function.update s beg.chunk (u8 beg.offset)
              else Function.update s beg.chunk (u8 (min beg.value beg.offset))
            else s
          let begChunk := if beg.offset > 0 then beg.chunk + 1 else beg.chunk
          let middle := memset first begChunk end_.chunk kAsanUserPoisonedMemoryMagic
          if end_.value > 0 ∧ end_.value ≤ end_.offset then
            some (Function.update middle end_.chunk kAsanUserPoisonedMemoryMagic)
          else some middle

/-- `__asan_unpoison_memory_region`; `none` is a failed `CHECK`. -/
def asanUnpoisonMemoryRegion (allowUserPoisoning : Bool) (L : Layout) (s : Shadow) (addr size : ℕ) : Option Shadow :=
  if ¬ allowUserPoisoning ∨ size = 0 then some s
  else
    (shadowSegmentEndpoint L s addr).bind fun beg =>
      (shadowSegmentEndpoint L s (uadd addr size)).bind fun end_ =>
        if beg.chunk = end_.chunk then
          if ¬ beg.offset < end_.offset ∨ beg.value ≠ end_.value then none
          else if beg.value ≠ 0 then some (Function.update s beg.chunk (u8 (max beg.value end_.offset)))
          else some s
        else if ¬ beg.chunk < end_.chunk then none
        else
          let first : Shadow := if beg.offset > 0 then Function.update s beg.chunk 0 else s
          let begChunk := if beg.offset > 0 then beg.chunk + 1 else beg.chunk
          let middle := memset first begChunk end_.chunk 0
          if end_.offset > 0 ∧ end_.value ≠ 0 then
            some (Function.update middle end_.chunk (u8 (max end_.value end_.offset)))
          else some middle

/-! ### Shadow bytes -/

/-- A shadow byte as `Shadow.Valid` wants it. -/
def ValidByte (b : ℕ) : Prop := b < 8 ∨ 128 ≤ b ∧ b < 256

theorem Shadow.Valid.update {s : Shadow} (h : s.Valid) (n : ℕ) {b : ℕ} (hb : ValidByte b) :
    Shadow.Valid (Function.update s n b) := by
  intro m
  rw [Function.update_apply]
  split
  · exact hb
  · exact h m

theorem Shadow.Valid.memset {s : Shadow} (h : s.Valid) (lo hi : ℕ) {b : ℕ} (hb : ValidByte b) :
    Shadow.Valid (memset s lo hi b) := by
  intro m
  unfold Cmasan.memset
  split
  · exact hb
  · exact h m

theorem u8_small {v : ℕ} (h : v < 256) : u8 v = v := by
  unfold u8
  omega

theorem u8_s8 {b : ℕ} (h : b < 256) : u8 (s8 b) = b := by
  have hb : b % 256 = b := Nat.mod_eq_of_lt h
  unfold u8 s8
  rw [hb]
  split <;> omega

theorem s8_eq_zero_iff {b : ℕ} (h : ValidByte b) : s8 b = 0 ↔ b = 0 := by
  rcases h with h | h
  · rw [s8_small (by omega)]
    omega
  · have := s8_magic h.1 h.2
    omega

/-- The test of a poisoning: the byte at the offset is not addressable, and the
granule is not poisoned as a whole. -/
theorem s8_le_offset_iff {b o : ℕ} (h : ValidByte b) (ho : o < 8) : 0 < s8 b ∧ s8 b ≤ o ↔ 0 < b ∧ b ≤ o := by
  rcases h with h | h
  · rw [s8_small (by omega)]
    omega
  · have := s8_magic h.1 h.2
    omega

theorem u8_min {b o : ℕ} (h : ValidByte b) (ho : o < 8) : u8 (min (s8 b) o) = if b < 8 then min b o else b := by
  rcases h with h | h
  · rw [s8_small (by omega), if_pos h, ← Nat.cast_min, u8_small (by omega)]
  · have := s8_magic h.1 h.2
    rw [if_neg (by omega), min_eq_left (by omega), u8_s8 h.2]

theorem u8_max {b o : ℕ} (h : ValidByte b) (ho : o < 8) : u8 (max (s8 b) o) = if b < 8 then max b o else o := by
  rcases h with h | h
  · rw [s8_small (by omega), if_pos h, ← Nat.cast_max, u8_small (by omega)]
  · have := s8_magic h.1 h.2
    rw [if_neg (by omega), max_eq_right (by omega), u8_small (by omega)]

/-- The writes to the first granule `c`, if the region starts inside of it, and
to those behind it. -/
theorem memset_first (s : Shadow) {c hi o first value : ℕ} (n : ℕ) :
    memset (if 0 < o then Function.update s c first else s) (if 0 < o then c + 1 else c) hi value n =
      if n = c ∧ 0 < o then first else if c ≤ n ∧ n < hi then value else s n := by
  unfold memset
  by_cases ho : 0 < o
  · simp only [if_pos ho, Function.update_apply]
    by_cases hn : n = c
    · rw [if_neg (by omega), if_pos hn, if_pos ⟨hn, ho⟩]
    · rw [if_neg hn, if_neg (show ¬ (n = c ∧ 0 < o) from fun h => hn h.1)]
      exact if_congr (by omega) rfl rfl
  · rw [if_neg ho, if_neg ho, if_neg (show ¬ (n = c ∧ 0 < o) from fun h => ho h.2)]

/-- What a poisoning from byte `o` on writes into the first granule. -/
def poisonFrom (b o : ℕ) : ℕ := if b = 0 then o else if b < 8 then min b o else b

theorem poisonFrom_valid {b o : ℕ} (h : ValidByte b) (ho : o < 8) : ValidByte (poisonFrom b o) := by
  unfold poisonFrom
  unfold ValidByte at h ⊢
  split_ifs <;> omega

theorem poisonFrom_eq {s : Shadow} (c o : ℕ) {b : ℕ} (h : ValidByte b) (ho : o < 8) :
    (if s8 b = 0 then Function.update s c (u8 o) else Function.update s c (u8 (min (s8 b) o))) =
      Function.update s c (poisonFrom b o) := by
  unfold poisonFrom
  simp only [s8_eq_zero_iff h, u8_min h ho, u8_small (show o < 256 by omega)]
  split_ifs <;> rfl

theorem Shadow.Valid.writes {s : Shadow} (h : s.Valid) (p : Prop) [Decidable p] (c lo hi : ℕ) {first value : ℕ}
    (hf : ValidByte first) (hb : ValidByte value) :
    Shadow.Valid (Cmasan.memset (if p then Function.update s c first else s) lo hi value) := by
  apply Shadow.Valid.memset _ _ _ hb
  split
  · exact h.update c hf
  · exact h

theorem shadowSegmentEndpoint_eq_some {L : Layout} {s : Shadow} {a : ℕ} {e : ShadowSegmentEndpoint}
    (h : shadowSegmentEndpoint L s a = some e) : e = ⟨a / 8, (a % 8 : ℕ), s8 (s (a / 8))⟩ := by
  unfold shadowSegmentEndpoint at h
  split at h
  · exact (Option.some.inj h).symm
  · cases h

/-- **A poisoning leaves the shadow valid**, wherever the region is. -/
theorem asanPoisonMemoryRegion_valid {b : Bool} {L : Layout} {s s' : Shadow} (hv : s.Valid) {addr size : ℕ}
    (he : asanPoisonMemoryRegion b L s addr size = some s') : s'.Valid := by
  have hvb : ValidByte (s (addr / 8)) := hv _
  have ho : addr % 8 < 8 := Nat.mod_lt _ (by omega)
  have hmagic : ValidByte kAsanUserPoisonedMemoryMagic := .inr (by decide)
  have hmin : ValidByte (u8 (min (s8 (s (addr / 8))) (addr % 8 : ℕ))) := by
    rw [u8_min hvb ho]
    unfold ValidByte at hvb ⊢
    split <;> omega
  unfold asanPoisonMemoryRegion at he
  split at he
  · exact Option.some.inj he ▸ hv
  obtain ⟨beg, hbeg, he⟩ := Option.bind_eq_some_iff.mp he
  obtain ⟨end_, -, he⟩ := Option.bind_eq_some_iff.mp he
  obtain rfl := shadowSegmentEndpoint_eq_some hbeg
  simp only at he
  rw [poisonFrom_eq _ _ hvb ho] at he
  split at he
  · -- one granule
    split at he
    · cases he
    · split at he
      · split at he <;> obtain rfl := Option.some.inj he
        · exact hv.update _ hmin
        · exact hv.update _ hmagic
      · exact Option.some.inj he ▸ hv
  · split at he
    · cases he
    · split at he <;> obtain rfl := Option.some.inj he
      · exact (hv.writes _ _ _ _ (poisonFrom_valid hvb ho) hmagic).update _ hmagic
      · exact hv.writes _ _ _ _ (poisonFrom_valid hvb ho) hmagic

/-- **So does an unpoisoning.** -/
theorem asanUnpoisonMemoryRegion_valid {b : Bool} {L : Layout} {s s' : Shadow} (hv : s.Valid) {addr size : ℕ}
    (he : asanUnpoisonMemoryRegion b L s addr size = some s') : s'.Valid := by
  have hmax : ∀ c a, ValidByte (u8 (max (s8 (s c)) (a % 8 : ℕ))) := fun c a => by
    have hvc : ValidByte (s c) := hv c
    rw [u8_max hvc (Nat.mod_lt _ (by omega))]
    unfold ValidByte at hvc ⊢
    split <;> omega
  have hzero : ValidByte 0 := .inl (by omega)
  unfold asanUnpoisonMemoryRegion at he
  split at he
  · exact Option.some.inj he ▸ hv
  obtain ⟨beg, hbeg, he⟩ := Option.bind_eq_some_iff.mp he
  obtain ⟨end_, hend, he⟩ := Option.bind_eq_some_iff.mp he
  obtain rfl := shadowSegmentEndpoint_eq_some hbeg
  obtain rfl := shadowSegmentEndpoint_eq_some hend
  simp only at he
  split at he
  · split at he
    · cases he
    · split at he <;> obtain rfl := Option.some.inj he
      · exact hv.update _ (hmax _ _)
      · exact hv
  · split at he
    · cases he
    · split at he <;> obtain rfl := Option.some.inj he
      · exact (hv.writes _ _ _ _ hzero hzero).update _ (hmax _ _)
      · exact hv.writes _ _ _ _ hzero hzero

/-! ### What the functions do -/

section Region

variable {L : Layout} {s : Shadow} {addr size : ℕ}

theorem shadowSegmentEndpoint_eq {a : ℕ} (h : L.addrIsInMem a = true) :
    shadowSegmentEndpoint L s a = some ⟨a / 8, (a % 8 : ℕ), s8 (s (a / 8))⟩ := if_pos h

theorem Layout.Covers.ends (hL : L.Covers addr size) :
    L.addrIsInMem addr = true ∧ L.addrIsInMem (addr + size) = true ∧ uadd addr size = addr + size := by
  have hlt := hL.lt
  exact ⟨hL.mem _ (by omega) (by omega), hL.mem _ (by omega) (by omega), uadd_eq (by omega)⟩

/-- The byte `a` after a poisoning of `[addr, addr + size)`. -/
def Poisons (s : Shadow) (addr size a : ℕ) : Prop :=
  addr ≤ a ∧ a < addr + size ∧ (a / 8 ≠ (addr + size) / 8 ∨ addressIsPoisoned s (addr + size) = true)

theorem asanPoisonMemoryRegion_spec (hL : L.Covers addr size) (hsize : 0 < size) (hv : s.Valid) :
    ∃ s', asanPoisonMemoryRegion true L s addr size = some s' ∧
      ∀ a, addressIsPoisoned s' a = true ↔ addressIsPoisoned s a = true ∨ Poisons s addr size a := by
  obtain ⟨hb, he, hadd⟩ := hL.ends
  have hvb : ValidByte (s (addr / 8)) := hv _
  have hve : ValidByte (s ((addr + size) / 8)) := hv _
  unfold asanPoisonMemoryRegion
  rw [if_neg (by simp; omega), hadd, shadowSegmentEndpoint_eq hb, shadowSegmentEndpoint_eq he]
  simp only [Option.bind_some, gt_iff_lt,
    s8_le_offset_iff hve (Nat.mod_lt _ (by omega : 0 < 8)), Nat.cast_lt, Nat.cast_pos]
  by_cases hsame : addr / 8 = (addr + size) / 8
  · rw [if_pos hsame, if_neg (by rw [hsame]; simp; omega), hsame]
    simp only [s8_le_offset_iff hve (Nat.mod_lt _ (by omega : 0 < 8))]
    split
    · rename_i htest
      split
      · -- the bytes of the granule from the beginning on
        rw [u8_min hve (Nat.mod_lt _ (by omega)), if_pos (by omega)]
        refine ⟨_, rfl, fun a => ?_⟩
        unfold Poisons
        simp only [addressIsPoisoned_iff, Function.update_apply]
        by_cases ha : a / 8 = (addr + size) / 8
        · rw [if_pos ha, ha]
          omega
        · rw [if_neg ha]
          omega
      · refine ⟨_, rfl, fun a => ?_⟩
        unfold Poisons kAsanUserPoisonedMemoryMagic
        simp only [addressIsPoisoned_iff, Function.update_apply]
        by_cases ha : a / 8 = (addr + size) / 8
        · rw [if_pos ha, ha]
          omega
        · rw [if_neg ha]
          omega
    · refine ⟨s, rfl, fun a => ?_⟩
      unfold Poisons
      simp only [addressIsPoisoned_iff]
      have := hve
      unfold ValidByte at this
      by_cases ha : a / 8 = (addr + size) / 8
      · rw [ha]
        omega
      · omega
  · have ho : addr % 8 < 8 := Nat.mod_lt _ (by omega)
    have hlt : addr / 8 < (addr + size) / 8 := by omega
    rw [if_neg hsame, if_neg (by omega), poisonFrom_eq _ _ hvb ho]
    unfold ValidByte at hvb hve
    -- the last granule is poisoned if nothing is addressable in it behind the region
    split
    · refine ⟨_, rfl, fun a => ?_⟩
      unfold Poisons
      rw [addressIsPoisoned_iff, addressIsPoisoned_iff, addressIsPoisoned_iff, Function.update_apply,
        memset_first s]
      unfold poisonFrom kAsanUserPoisonedMemoryMagic
      by_cases ha : a / 8 = (addr + size) / 8
      · rw [if_pos ha, ha]
        omega
      · by_cases hfst : a / 8 = addr / 8 ∧ 0 < addr % 8
        · rw [if_neg ha, if_pos hfst, hfst.1]
          split_ifs <;> omega
        · rw [if_neg ha, if_neg hfst]
          split_ifs <;> omega
    · refine ⟨_, rfl, fun a => ?_⟩
      unfold Poisons
      rw [addressIsPoisoned_iff, addressIsPoisoned_iff, addressIsPoisoned_iff, memset_first s]
      unfold poisonFrom kAsanUserPoisonedMemoryMagic
      by_cases hfst : a / 8 = addr / 8 ∧ 0 < addr % 8
      · rw [if_pos hfst, hfst.1]
        split_ifs <;> omega
      · rw [if_neg hfst]
        by_cases ha : a / 8 = (addr + size) / 8
        · rw [if_neg (by omega), ha]
          omega
        · split_ifs <;> omega

theorem asanUnpoisonMemoryRegion_spec (hL : L.Covers addr size) (hsize : 0 < size) (hv : s.Valid) :
    ∃ s', asanUnpoisonMemoryRegion true L s addr size = some s' ∧
      ∀ a, addressIsPoisoned s' a = true ↔
        addressIsPoisoned s a = true ∧ ¬ (addr / 8 * 8 ≤ a ∧ a < addr + size) := by
  obtain ⟨hb, he, hadd⟩ := hL.ends
  have hve : ValidByte (s ((addr + size) / 8)) := hv _
  have ho : (addr + size) % 8 < 8 := Nat.mod_lt _ (by omega)
  unfold asanUnpoisonMemoryRegion
  rw [if_neg (by simp; omega), hadd, shadowSegmentEndpoint_eq hb, shadowSegmentEndpoint_eq he]
  simp only [Option.bind_some, gt_iff_lt, ne_eq, s8_eq_zero_iff hve, Nat.cast_lt, Nat.cast_pos, u8_max hve ho]
  by_cases hsame : addr / 8 = (addr + size) / 8
  · rw [if_pos hsame, if_neg (by rw [hsame]; simp; omega), hsame]
    simp only [s8_eq_zero_iff hve, u8_max hve ho]
    unfold ValidByte at hve
    split
    · refine ⟨_, rfl, fun a => ?_⟩
      rw [addressIsPoisoned_iff, addressIsPoisoned_iff, Function.update_apply]
      by_cases ha : a / 8 = (addr + size) / 8
      · rw [if_pos ha, ha]
        split <;> omega
      · rw [if_neg ha]
        omega
    · refine ⟨s, rfl, fun a => ?_⟩
      rw [addressIsPoisoned_iff]
      by_cases ha : a / 8 = (addr + size) / 8
      · rw [ha]
        omega
      · omega
  · rw [if_neg hsame, if_neg (by omega)]
    unfold ValidByte at hve
    split
    · refine ⟨_, rfl, fun a => ?_⟩
      rw [addressIsPoisoned_iff, addressIsPoisoned_iff, Function.update_apply, memset_first s]
      by_cases ha : a / 8 = (addr + size) / 8
      · rw [if_pos ha, ha]
        split <;> omega
      · rw [if_neg ha]
        split_ifs <;> omega
    · refine ⟨_, rfl, fun a => ?_⟩
      rw [addressIsPoisoned_iff, addressIsPoisoned_iff, memset_first s]
      by_cases ha : a / 8 = (addr + size) / 8
      · rw [ha, if_neg (by omega), if_neg (by omega)]
        omega
      · split_ifs <;> omega

end Region

end Cmasan
