/-
# What a hand-out does to the shadow and the table

A tracked request enters its range `[RoundDown(ptr, 8), trackedEnd)` into the
table as one new chunk and writes the shadow of the range: the object
addressable to the byte, the redzone behind it poisoned, and the granule after
the range addressable, as the first of the writes is a granule longer than the
chunk (`newChunkShadow`). A request that is not extended leaves everything as
it is. So the bytes handed out are addressable afterwards exactly if the
request is extended or they were before (`allocate_addressable_iff`).

Key definitions: `newChunkShadow`.
Key theorems: `poisonNewChunk_eq`, `allocateCMAChunkImpl_extended`,
`allocateCMAChunkImpl_same`, `allocate_addressable_iff`.
-/
import Cmasan.HookRuns

namespace Cmasan

open Lib

/-- The shadow with a new chunk of `size` bytes at `ptr` whose range ends at `E`. -/
def newChunkShadow (canPoisonMemory : Bool) (s : Shadow) (ptr size E : ℕ) : Shadow := fun n =>
  if ptr / 8 ≤ n ∧ n < (ptr + size) / 8 then 0
  else if canPoisonMemory ∧ n = (ptr + size) / 8 ∧ (ptr + size) % 8 ≠ 0 then (ptr + size) % 8
  else if canPoisonMemory ∧ ptr / 8 ≤ n ∧ n < E / 8 then kAsanHeapLeftRedzoneMagic
  else if ptr / 8 ≤ n ∧ n ≤ E / 8 then 0
  else s n

/-- **The writes of `allocateCMAChunkImpl`**, one over the other. -/
theorem poisonNewChunk_eq (canPoisonMemory : Bool) (s : Shadow) {ptr size E : ℕ}
    (hE : ptr + size ≤ E) (hE8 : E % 8 = 0) (hlt : E + 8 < 2 ^ 64) :
    poisonNewChunk canPoisonMemory s ptr size (E - ptr - size) =
      some (newChunkShadow canPoisonMemory s ptr size E) := by
  -- the bounds of the writes, in the code's terms
  obtain ⟨b, hb⟩ : ∃ b, b = roundDownTo ptr 8 := ⟨_, rfl⟩
  have hb' : b = ptr / 8 * 8 := hb
  obtain ⟨A, hA⟩ : ∃ A, A = size + (ptr - b) := ⟨_, rfl⟩
  obtain ⟨d, hd⟩ : ∃ d, d = roundDownTo A 8 := ⟨_, rfl⟩
  have hd' : d = A / 8 * 8 := hd
  have hP : uadd A (E - ptr - size) = E - b := by
    rw [uadd_eq (by omega)]
    omega
  have hand : A &&& 7 = (ptr + size) % 8 := by
    have : A &&& 7 = A % 8 := Nat.and_two_pow_sub_one_eq_mod A 3
    omega
  have hrem : A ≠ d ↔ (ptr + size) % 8 ≠ 0 := by omega
  have hend : (b + d) / 8 = (ptr + size) / 8 := by omega
  have hmid : ∀ s' : Shadow, (if d ≠ 0 then poisonShadow canPoisonMemory s' b d 0 else some s') =
      some (fastPoisonShadow s' b d 0) := fun s' => by
    by_cases h0 : d = 0
    · rw [if_neg (not_not.mpr h0), h0, fastPoisonShadow_nil]
    · rw [if_pos h0]
      exact unpoisonShadow_eq canPoisonMemory s' (by omega) (by omega) (by omega)
  -- the same bounds as granules
  have hlo : b / 8 = ptr / 8 := by omega
  have hhi : (b + (E - b)) / 8 = E / 8 := by omega
  have hhi8 : (b + (E - b + 8)) / 8 = E / 8 + 1 := by omega
  have hbounds : ptr / 8 ≤ (ptr + size) / 8 ∧ (ptr + size) / 8 ≤ E / 8 ∧
      ((ptr + size) % 8 ≠ 0 → (ptr + size) / 8 < E / 8) := by omega
  unfold poisonNewChunk
  simp only [← hb]
  rw [uadd_eq (show size + (ptr - b) < 2 ^ 64 by omega), ← hA, ← hd, hP, uadd_eq (by omega),
    unpoisonShadow_eq canPoisonMemory s (by omega) (by omega) (by omega), Option.bind_some, hand,
    uadd_eq (show b + d < 2 ^ 64 by omega),
    hend]
  simp only [hrem]
  cases canPoisonMemory with
  | false =>
    rw [show ∀ s', poisonShadow false s' b (E - b) kAsanHeapLeftRedzoneMagic = some s' from
      fun s' => if_pos ⟨by decide, by decide⟩, Option.bind_some, hmid, Option.map_some, if_neg (by simp)]
    congr 1
    funext n
    unfold newChunkShadow fastPoisonShadow
    simp only [Bool.false_eq_true, false_and, if_false, hlo, hhi8, hend]
    generalize ptr / 8 = lo, (ptr + size) / 8 = mid, (ptr + size) % 8 = rem, E / 8 = hi at hbounds ⊢
    split_ifs <;> first | rfl | omega
  | true =>
    rw [poisonShadow_eq true _ (fun _ => rfl) (by omega) (by omega) (by omega), Option.bind_some, hmid,
      Option.map_some]
    congr 1
    by_cases hr : (ptr + size) % 8 = 0
    · rw [if_neg (by simp [hr])]
      funext n
      unfold newChunkShadow fastPoisonShadow
      simp only [hr, ne_eq, not_true_eq_false, and_false, if_false, true_and, hlo, hhi, hhi8, hend]
      generalize ptr / 8 = lo, (ptr + size) / 8 = mid, (ptr + size) % 8 = rem, E / 8 = hi at hbounds ⊢
      split_ifs <;> first | rfl | omega
    · rw [if_pos ⟨hr, rfl⟩]
      funext n
      unfold newChunkShadow fastPoisonShadow
      simp only [Function.update_apply, ne_eq, hr, not_false_eq_true, and_true, true_and, hlo, hhi, hhi8, hend]
      generalize ptr / 8 = lo, (ptr + size) / 8 = mid, (ptr + size) % 8 = rem, E / 8 = hi at hbounds ⊢
      split_ifs <;> first | rfl | omega

theorem newChunkShadow_addressable (canPoisonMemory : Bool) (s : Shadow) {ptr size E a : ℕ}
    (hE : ptr + size < E) (hlo : ptr ≤ a) (hhi : a < ptr + size) :
    addressIsPoisoned (newChunkShadow canPoisonMemory s ptr size E) a = false := by
  have hle : ptr / 8 ≤ a / 8 := Nat.div_le_div_right hlo
  unfold addressIsPoisoned newChunkShadow
  rw [decide_eq_false_iff_not]
  by_cases h1 : a / 8 < (ptr + size) / 8
  · rw [if_pos ⟨hle, h1⟩]
    simp
  · -- `a` is in the last granule of the object, which is not a whole one
    rw [if_neg (by omega)]
    cases canPoisonMemory with
    | true =>
      rw [if_pos ⟨rfl, by omega, by omega⟩]
      omega
    | false =>
      rw [if_neg (by simp), if_neg (by simp), if_pos (by omega)]
      simp

/-! ### Hand-outs -/

/-- **A hand-out of an extended request** inserts its chunk, writes the shadow
of its range and remembers its pointer. -/
theorem allocateCMAChunkImpl_extended {F : Flags} {s : State} (h : s.Inv) {ptr size g : ℕ} (hs : size ≠ 0)
    (hg : g ≠ 0) (hw : size * g < 2 ^ 64) (hne : extendSize F.rz size g false ≠ size)
    (hfit : ptr + extendSize F.rz size g false * g + 8 < 2 ^ 64) (k : Caller) (id : ℕ) :
    ∃ t', tltInsert s.tlt ptr (size * g) (trackedEnd F.rz ptr size g - ptr - size * g) id k.stackId
        k.tid = some t' ∧
      allocateCMAChunkImpl F k s ptr size g id = some
        { s with
          tlt := t'
          shadow :=
            newChunkShadow F.canPoisonMemory s.shadow ptr (size * g) (trackedEnd F.rz ptr size g)
          alz := addCMAAllocChunk F s.alz id ptr
          log := s.log ++ [.insertChunkInfo, .writeAllocListZone id] } := by
  have hE := trackedEnd_bounds F.rz ptr hs hg hw hne
  have hpos : 0 < size * g := Nat.mul_pos (Nat.pos_of_ne_zero hs) (Nat.pos_of_ne_zero hg)
  have hend : roundDownTo (ptr + extendSize F.rz size g false * g) 8 = trackedEnd F.rz ptr size g := rfl
  generalize trackedEnd F.rz ptr size g = E at hE hend ⊢
  have halign : isAligned (uadd (uadd ptr (size * g)) (E - ptr - size * g)) 8 :=
    (isAligned_end_iff (by omega)).mpr (by omega)
  obtain ⟨t', ht'⟩ : ∃ t', tltInsert s.tlt ptr (size * g) (E - ptr - size * g) id k.stackId k.tid = some t' := by
    by_cases hp : ptr = 0
    · exact ⟨s.tlt, if_pos hp⟩
    · obtain ⟨t', ht', -⟩ := tltInsert_spec h.tlt id k.stackId k.tid hp halign
      exact ⟨t', ht'⟩
  refine ⟨t', ht', ?_⟩
  unfold allocateCMAChunkImpl
  simp only
  rw [umul_eq (show size * g < 2 ^ 64 by omega), if_pos (by omega), if_neg hne,
    umul_eq (by omega), uadd_eq (by omega), hend, usub_eq (show ptr ≤ E by omega) (by omega),
    usub_eq (by omega) (by omega), u32_eq (by omega), ht', Option.bind_some,
    poisonNewChunk_eq F.canPoisonMemory s.shadow (by omega) (by omega) (by omega)]
  rfl

theorem allocateCMAChunkImpl_tracked {F : Flags} {s : State} (h : s.Inv) {ptr size g : ℕ}
    (hr : TrackedRequest F.rz ptr size g) (k : Caller) (id : ℕ) :
    ∃ t', tltInsert s.tlt ptr (size * g) (trackedEnd F.rz ptr size g - ptr - size * g) id k.stackId
        k.tid = some t' ∧
      allocateCMAChunkImpl F k s ptr size g id = some
        { s with
          tlt := t'
          shadow :=
            newChunkShadow F.canPoisonMemory s.shadow ptr (size * g) (trackedEnd F.rz ptr size g)
          alz := addCMAAllocChunk F s.alz id ptr
          log := s.log ++ [.insertChunkInfo, .writeAllocListZone id] } := by
  have := hr.no_wrap
  exact allocateCMAChunkImpl_extended h hr.size_ne hr.granularity_ne (by omega) hr.extended hr.fits k id

/-- **A request that is not extended** leaves all as it is. -/
theorem allocateCMAChunkImpl_same {F : Flags} (s : State) {size g : ℕ} (hs : size ≠ 0) (hg : g ≠ 0)
    (hw : size * g < 2 ^ 64) (hne : extendSize F.rz size g false = size) (k : Caller) (ptr id : ℕ) :
    allocateCMAChunkImpl F k s ptr size g id = some s := by
  have hpos : 0 < size * g := Nat.mul_pos (Nat.pos_of_ne_zero hs) (Nat.pos_of_ne_zero hg)
  unfold allocateCMAChunkImpl
  simp only
  rw [umul_eq hw, if_pos (by omega), if_pos hne]

/-- **What a hand-out makes addressable.** In every reachable state and for
every request without a wrap, `__asan_allocateCMAChunk` returns, and the bytes
it hands out are addressable exactly if one more unit fits in the extended
bytes, so that the request is extended, or they were addressable before. -/
theorem allocate_addressable_iff {F : Flags} {s : State} (h : HookReachable F s) (k : Caller)
    (ptr size granularity id : ℕ) (hp : ptr ≠ 0) (hs : 1 ≤ size) (hg : 1 ≤ granularity)
    (hw : size * granularity + 2063 < 2 ^ 64)
    (hfit : ptr + extendSize F.rz size granularity false * granularity + 8 < 2 ^ 64) :
    ∃ s', allocateCMAChunk F k s ptr size granularity id false = some s' ∧
      ((∀ a, ptr ≤ a → a < ptr + size * granularity → addressIsPoisoned s'.shadow a = false) ↔
        size * granularity + granularity ≤ extendedBytes F.rz (size * granularity) ∨
          ∀ a, ptr ≤ a → a < ptr + size * granularity → addressIsPoisoned s.shadow a = false) := by
  have hinv : (s.lock F).Inv := h.inv.lock
  have hiff := extendSize_ne_iff F.rz (show size ≠ 0 by omega) (show granularity ≠ 0 by omega) hw
  unfold allocateCMAChunk
  rw [if_neg (by simp [hp])]
  by_cases hext : extendSize F.rz size granularity false = size
  · rw [allocateCMAChunkImpl_same (s.lock F) (by omega) (by omega) (by omega) hext k ptr id]
    have hno : ¬ size * granularity + granularity ≤ extendedBytes F.rz (size * granularity) :=
      fun hle => hiff.mpr hle hext
    exact ⟨_, rfl, by simp [hno]⟩
  · have hr : TrackedRequest F.rz ptr size granularity :=
      ⟨hp, by omega, by omega, hw, hfit, hext⟩
    obtain ⟨t', -, he⟩ := allocateCMAChunkImpl_tracked hinv hr k id
    rw [he]
    refine ⟨_, rfl, ⟨fun _ => .inl (hiff.mp hext), fun _ a hlo hhi => ?_⟩⟩
    simp only [State.unlock_shadow, State.lock_shadow]
    have := hr.end_bounds
    exact newChunkShadow_addressable _ _ (by omega) hlo hhi

/-- An object of 24 bytes in the place of one that was freed. -/
theorem allocate_addressable_reused :
    ∃ s s', HookRun { rz := .default }
        [.allocate {} 0x602000000010 32 1 1 false, .release {} 0x602000000010 1 false] s ∧
      addressIsPoisoned s.shadow 0x602000000010 = true ∧
      allocateCMAChunk { rz := .default } {} s 0x602000000010 24 1 1 false = some s' ∧
      ∀ a, 0x602000000010 ≤ a → a < 0x602000000010 + 24 → addressIsPoisoned s'.shadow a = false := by
  have h : (exec (hookStep { rz := .default }) (fun _ _ => True) .initial
      [.allocate {} 0x602000000010 32 1 1 false, .release {} 0x602000000010 1 false]).map (fun s =>
        addressIsPoisoned s.shadow 0x602000000010) = some true := by
    decide +kernel
  obtain ⟨s, hs, h⟩ := Option.map_eq_some_iff.mp h
  have hrun := runs_of_exec hs
  obtain ⟨s', he, hiff⟩ := allocate_addressable_iff (F := { rz := .default }) ⟨_, hrun⟩ {} 0x602000000010 24 1 1
    (by decide) (by decide) (by decide) (by decide) (by decide)
  exact ⟨s, s', hrun, h, he, hiff.mpr (.inl (by decide))⟩

/-- An object of 32 bytes, dropped by its allocator, and one of 4096 bytes in
its place, which is handed out poisoned. -/
theorem allocate_leaves_poisoned :
    ∃ s s', HookRun { rz := .default } [.allocate {} 0x602000000010 32 1 1 false, .clear {} 1] s ∧
      allocateCMAChunk { rz := .default } {} s 0x602000000010 1 4096 1 false = some s' ∧
      addressIsPoisoned s'.shadow 0x602000000010 = true := by
  have h : ((exec (hookStep { rz := .default }) (fun _ _ => True) .initial
      [.allocate {} 0x602000000010 32 1 1 false, .clear {} 1]).bind fun s =>
        (allocateCMAChunk { rz := .default } {} s 0x602000000010 1 4096 1 false).map fun s' =>
          addressIsPoisoned s'.shadow 0x602000000010) = some true := by
    decide +kernel
  obtain ⟨s, hs, h⟩ := Option.bind_eq_some_iff.mp h
  obtain ⟨s', hs', h⟩ := Option.map_eq_some_iff.mp h
  exact ⟨s, s', runs_of_exec hs, hs', h⟩

end Cmasan
