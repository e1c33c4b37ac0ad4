/-
# The check of a memory access

An instrumented access calls the runtime with its address: `__asan_load4` and
the like for an aligned access of a fixed size, which read the shadow byte of
the address and no other, and `__asan_loadN` for any other, which asks
`__asan_region_is_poisoned`. That looks at the first and the last byte of the
region and at the shadow of the whole granules between them, and at each byte
only if it finds something there. So it does not see the bytes of the first
granule behind the first one, when the region starts inside of it
(`regionIsPoisoned_eq_zero_iff`); where the granule behind is poisoned as a
whole, as it is behind an object, nothing is missed
(`regionIsPoisoned_of_first`). What is found goes to `ReportGenericError`.

Key definitions: `regionIsPoisoned`, `memoryAccess`, `accessN`, `ErrorGeneric`,
`reportGenericError`, `Shadow.Valid`, `Shadow.Clean`.
Key theorems: `regionIsPoisoned_clean`, `regionIsPoisoned_of_first`,
`regionIsPoisoned_eq_zero_iff`, `memoryAccess_iff`.
-/
import Cmasan.CallStack
import Cmasan.ReportRows
import Cmasan.ShadowAgrees

namespace Cmasan

/-! ### The checks -/

/-- A byte as `s8`. -/
def s8 (b : ℕ) : ℤ := if b % 256 < 128 then (b % 256 : ℕ) else (b % 256 : ℕ) - 256

/-- `mem_is_zero` on the shadow bytes of the granules from `lo` to below `hi`. -/
def memIsZero (s : Shadow) (lo hi : ℕ) : Bool := (granules lo hi).all fun n => s n = 0

/-- The loop of `__asan_region_is_poisoned` over `n` bytes from `beg`; `none`
is its `UNREACHABLE`. -/
def findPoisoned (s : Shadow) : ℕ → ℕ → Option ℕ
  | _, 0 => none
  | beg, n + 1 => if addressIsPoisoned s beg then some beg else findPoisoned s (beg + 1) n

/-- `__asan_region_is_poisoned`; `none` is a failed `CHECK` or the
`UNREACHABLE`. Shadow addresses are those of their granules. -/
def regionIsPoisoned (L : Layout) (s : Shadow) (beg size : ℕ) : Option ℕ :=
  if size = 0 then some 0
  else
    let end_ := uadd beg size
    if ¬ L.addrIsInMem beg then some beg
    else if ¬ L.addrIsInMem end_ then some end_
    else if ¬ beg < end_ then none
    else
      let alignedB := roundUpTo beg 8
      let alignedE := roundDownTo end_ 8
      if ¬ (L.addrIsInMem alignedB ∧ L.addrIsInMem alignedE) then none
      else if ¬ addressIsPoisoned s beg ∧ ¬ addressIsPoisoned s (end_ - 1) ∧
          (alignedE / 8 ≤ alignedB / 8 ∨ memIsZero s (alignedB / 8) (alignedE / 8)) then some 0
      else findPoisoned s beg (end_ - beg)

/-- `ASAN_MEMORY_ACCESS_CALLBACK_BODY`: the address that it passes to
`ReportGenericErrorWrapper`, if it calls it. -/
def memoryAccess (s : Shadow) (addr size : ℕ) : Option ℕ :=
  let v := if size ≤ 8 then s (addr / 8) else s (addr / 8) + 256 * s (addr / 8 + 1)
  if v ≠ 0 ∧ (size ≥ 8 ∨ s8 (addr % 8 + size - 1) ≥ s8 v) then some addr else none

/-- `__asan_loadN` and `__asan_storeN`: the address that they pass to
`ReportGenericError`, if they call it. -/
def accessN (L : Layout) (s : Shadow) (addr size : ℕ) : Option (Option ℕ) :=
  (regionIsPoisoned L s addr size).map fun a => if a ≠ 0 then some a else none

/-! ### The report -/

/-- What the switch of `ErrorGeneric` sets. -/
structure BugType where
  bugDescr : String
  bugTypeScore : ℕ
  readAfterFreeBonus : ℕ := 0
  farFromBounds : Bool := false
  deriving DecidableEq, Repr

/-- The switch of `ErrorGeneric` over the shadow value; `status` is that of the
chunk found at the address, `adjacent` that both neighbours of the shadow byte
are fully poisoned. -/
def bugType (status : Option Status) (adjacent isWrite : Bool) (shadowVal : ℕ) : BugType :=
  let heapOverflow : BugType :=
    ⟨if status = some .allocated then "heap-buffer-overflow-from-CMA" else "heap-buffer-overflow", 10, 0, adjacent⟩
  match shadowVal with
  | 0xfa => heapOverflow
  | 0xac => heapOverflow
  | 0xfd =>
    ⟨if status = some .deallocated then "heap-use-after-free-from-CMA" else "heap-use-after-free", 20,
      if isWrite then 0 else 18, false⟩
  | 0xf1 => ⟨"stack-buffer-underflow", 25, 0, adjacent⟩
  | 0xf6 => ⟨"initialization-order-fiasco", 1, 0, false⟩
  | 0xf2 => ⟨"stack-buffer-overflow", 25, 0, adjacent⟩
  | 0xf3 => ⟨"stack-buffer-overflow", 25, 0, adjacent⟩
  | 0xf5 => ⟨"stack-use-after-return", 30, if isWrite then 0 else 18, false⟩
  | 0xf7 => ⟨"use-after-poison", 20, 0, false⟩
  | 0xfc => ⟨"container-overflow", 10, 0, false⟩
  | 0xf8 => ⟨"stack-use-after-scope", 10, 0, false⟩
  | 0xf9 => ⟨"global-buffer-overflow", 10, 0, adjacent⟩
  | 0xbb => ⟨"intra-object-overflow", 10, 0, false⟩
  | 0xca => ⟨"dynamic-stack-buffer-overflow", 25, 0, adjacent⟩
  | 0xcb => ⟨"dynamic-stack-buffer-overflow", 25, 0, adjacent⟩
  | _ => ⟨"unknown-crash", 0, 0, false⟩

/-- `ErrorGeneric`; the description is left unset for an access of no bytes. -/
structure ErrorGeneric where
  addr : ℕ
  accessSize : ℕ
  isWrite : Bool
  shadowVal : ℕ
  bugDescr : Option String
  scariness : List (ℕ × String)
  deriving DecidableEq, Repr

/-- The granule whose shadow byte tells the type of the error. -/
def errorGranule (s : Shadow) (addr accessSize : ℕ) : ℕ :=
  -- an access of 16 bytes may be fine in its first granule
  let n := if s (addr / 8) = 0 ∧ accessSize > 8 then addr / 8 + 1 else addr / 8
  -- in the partial right redzone the next byte tells
  if s n > 0 ∧ s n < 128 then n + 1 else n

/-- The scariness of the access itself. -/
def accessScariness (accessSize : ℕ) (isWrite : Bool) : List (ℕ × String) :=
  [if accessSize ≤ 9 then (accessSize + accessSize / 2, String.ofList [Char.ofNat (48 + accessSize)] ++ "-byte")
    else (15, "multi-byte"),
   if isWrite then (20, "write") else (1, "read")]

/-- The constructor of `ErrorGeneric`. -/
def errorGeneric (L : Layout) (s : State) (addr : ℕ) (isWrite : Bool) (accessSize : ℕ) : ErrorGeneric :=
  if accessSize = 0 then ⟨addr, accessSize, isWrite, 0, none, []⟩
  else if L.addrIsInMem addr then
    let n := errorGranule s.shadow addr accessSize
    let b := bugType ((tltGet s.tlt addr).map fun c => (s.tlt.info c).status)
      (s.shadow (n - 1) > 127 && s.shadow (n + 1) > 127) isWrite (s.shadow n)
    ⟨addr, accessSize, isWrite, s.shadow n, some b.bugDescr,
      accessScariness accessSize isWrite ++ [(b.bugTypeScore + b.readAfterFreeBonus, b.bugDescr)] ++
        if b.farFromBounds then [(10, "far-from-bounds")] else []⟩
  else ⟨addr, accessSize, isWrite, 0, some "unknown-crash", accessScariness accessSize isWrite⟩

/-- `IsPoisonAccessFalsePositive`: the access was made inside a CMA. -/
def isPoisonAccessFalsePositive (whitelistPcRange : List (ℕ × ℕ)) (trace : List ℕ) (addr : ℕ) : Bool :=
  addr ≠ 0 && isCMAInCallStack whitelistPcRange trace

/-- `ReportGenericError` of a fatal error: what is reported, if anything is. -/
def reportGenericError (F : Flags) (L : Layout) (whitelistPcRange : List (ℕ × ℕ)) (trace : List ℕ) (s : State)
    (addr : ℕ) (isWrite : Bool) (accessSize : ℕ) : Option ErrorGeneric :=
  if isPoisonAccessFalsePositive whitelistPcRange trace addr then none
  else if F.isReportAlwaysOff then none
  else some (errorGeneric L s addr isWrite accessSize)

section Access

variable (F : Flags) (L : Layout) (whitelistPcRange : List (ℕ × ℕ)) (trace : List ℕ) (s : State) (addr size : ℕ)
  (isWrite : Bool)

/-- `__asan_loadN` and `__asan_storeN` with the report; `none` as in `regionIsPoisoned`. -/
def asanLoadStoreN : Option (Option ErrorGeneric) :=
  (accessN L s.shadow addr size).map fun bad =>
    bad.bind fun a => reportGenericError F L whitelistPcRange trace s a isWrite size

/-- `__asan_load1` to `__asan_store16` with the report. -/
def asanLoadStore : Option ErrorGeneric :=
  (memoryAccess s.shadow addr size).bind fun a => reportGenericError F L whitelistPcRange trace s a isWrite size

end Access

/-! ### Shadow bytes -/

/-- A shadow byte of a granule: a number of addressable bytes or a magic value. -/
def Shadow.Valid (s : Shadow) : Prop := ∀ n, s n < 8 ∨ 128 ≤ s n ∧ s n < 256

/-- The bytes from `lo` to below `hi` are addressable. -/
def Shadow.Clean (s : Shadow) (lo hi : ℕ) : Prop := ∀ a, lo ≤ a → a < hi → addressIsPoisoned s a = false

theorem s8_small {b : ℕ} (h : b < 128) : s8 b = b := by
  have hb : b % 256 = b := Nat.mod_eq_of_lt (by omega)
  unfold s8
  rw [hb, if_pos h]

theorem s8_magic {b : ℕ} (h : 128 ≤ b) (hlt : b < 256) : s8 b < 0 := by
  have hb : b % 256 = b := Nat.mod_eq_of_lt hlt
  unfold s8
  rw [hb, if_neg (by omega)]
  omega

section Bytes

variable {s : Shadow} {a n : ℕ}

theorem addressIsPoisoned_eq_false_iff : addressIsPoisoned s a = false ↔
    s (a / 8) = 0 ∨ s (a / 8) < 128 ∧ a % 8 < s (a / 8) := by
  unfold addressIsPoisoned
  rw [decide_eq_false_iff_not]
  omega

theorem addressIsPoisoned_iff : addressIsPoisoned s a = true ↔
    s (a / 8) ≠ 0 ∧ (128 ≤ s (a / 8) ∨ s (a / 8) ≤ a % 8) := by
  unfold addressIsPoisoned
  rw [decide_eq_true_iff]

theorem addressIsPoisoned_up {b : ℕ} (h : addressIsPoisoned s a = true) (hab : a ≤ b) (hg : b / 8 = a / 8) :
    addressIsPoisoned s b = true := by
  rw [addressIsPoisoned_iff] at h ⊢
  rw [hg]
  omega

theorem Shadow.Valid.eq_zero (hv : s.Valid) (h : addressIsPoisoned s (8 * n + 7) = false) : s n = 0 := by
  rw [addressIsPoisoned_eq_false_iff, show (8 * n + 7) / 8 = n by omega, show (8 * n + 7) % 8 = 7 by omega] at h
  have := hv n
  omega

theorem memIsZero_iff {lo hi : ℕ} : memIsZero s lo hi = true ↔ ∀ n, lo ≤ n → n < hi → s n = 0 := by
  unfold memIsZero
  rw [List.all_eq_true]
  simp only [mem_granules, decide_eq_true_eq, and_imp]

end Bytes

/-! ### The region check -/

theorem findPoisoned_eq_none_iff {s : Shadow} {beg n : ℕ} : findPoisoned s beg n = none ↔ s.Clean beg (beg + n) := by
  induction n generalizing beg with
  | zero => exact ⟨fun _ a h1 h2 => by omega, fun _ => rfl⟩
  | succ n ih =>
    unfold findPoisoned
    by_cases hp : addressIsPoisoned s beg = true
    · rw [if_pos hp]
      refine ⟨fun h => (by cases h), fun h => ?_⟩
      rw [h beg (Nat.le_refl _) (by omega)] at hp
      cases hp
    · rw [if_neg hp, ih]
      refine ⟨fun h a h1 h2 => ?_, fun h a h1 h2 => h a (by omega) (by omega)⟩
      rcases Nat.eq_or_lt_of_le h1 with rfl | hlt
      · simpa using hp
      · exact h a hlt (by omega)

/-- The byte `q` is the first poisoned one of the `size` from `beg` on. -/
structure Shadow.FirstPoisoned (s : Shadow) (beg size q : ℕ) : Prop where
  ge : beg ≤ q
  lt : q < beg + size
  poisoned : addressIsPoisoned s q = true
  clean : s.Clean beg q

/-- The loop stops at the first poisoned byte. -/
theorem findPoisoned_eq_some_iff {s : Shadow} {q : ℕ} :
    ∀ {n beg : ℕ}, findPoisoned s beg n = some q ↔ s.FirstPoisoned beg n q := by
  intro n
  induction n with
  | zero =>
    intro beg
    refine ⟨fun h => (by cases h), fun h => ?_⟩
    have := h.ge
    have := h.lt
    omega
  | succ n ih =>
    intro beg
    unfold findPoisoned
    by_cases hp : addressIsPoisoned s beg = true
    · rw [if_pos hp, Option.some.injEq]
      constructor
      · rintro rfl
        exact ⟨Nat.le_refl _, by omega, hp, fun a h1 h2 => by omega⟩
      · intro h
        by_contra hne
        have hlt : beg < q := lt_of_le_of_ne h.ge hne
        rw [h.clean beg (Nat.le_refl _) hlt] at hp
        cases hp
    · rw [if_neg hp, ih]
      constructor
      · intro h
        have hge := h.ge
        have hlt := h.lt
        refine ⟨by omega, by omega, h.poisoned, fun a h1 h2 => ?_⟩
        rcases Nat.eq_or_lt_of_le h1 with rfl | h3
        · simpa using hp
        · exact h.clean a h3 h2
      · intro h
        have hge := h.ge
        have hlt := h.lt
        have hne : beg ≠ q := fun he => hp (he ▸ h.poisoned)
        exact ⟨by omega, by omega, h.poisoned, fun a h1 h2 => h.clean a (by omega) h2⟩

/-- The region and the granules that it starts and ends in are in memory. -/
structure Layout.Covers (L : Layout) (beg size : ℕ) : Prop where
  lt : beg + size + 7 < 2 ^ 64
  mem : ∀ a, beg / 8 * 8 ≤ a → a ≤ beg + size + 7 → L.addrIsInMem a = true

theorem covers_linuxX8664 {beg size : ℕ} (hlo : 0x10007fff8000 ≤ beg / 8 * 8)
    (hhi : beg + size + 7 ≤ 0x7fffffffffff) : linuxX8664.Covers beg size := by
  refine ⟨by omega, fun a h1 h2 => ?_⟩
  have happ : linuxX8664.addrIsInAppMem a = true := (linuxX8664_appMem a).mpr (by omega)
  show (linuxX8664.addrIsInAppMem a || _) = true
  rw [happ, Bool.true_or]

section Region

variable {L : Layout} {s : Shadow} {beg size : ℕ}

theorem regionIsPoisoned_eq (hL : L.Covers beg size) (hsize : 0 < size) : regionIsPoisoned L s beg size =
    if addressIsPoisoned s beg = false ∧ addressIsPoisoned s (beg + size - 1) = false ∧
        (∀ n, (beg + 7) / 8 ≤ n → n < (beg + size) / 8 → s n = 0) then some 0
    else findPoisoned s beg size := by
  have hlt := hL.lt
  have hup : roundUpTo beg 8 = (beg + 7) / 8 * 8 := roundUpTo_eight (by omega)
  have hdown : roundDownTo (beg + size) 8 = (beg + size) / 8 * 8 := rfl
  have hb : L.addrIsInMem beg = true := hL.mem _ (by omega) (by omega)
  have he : L.addrIsInMem (beg + size) = true := hL.mem _ (by omega) (by omega)
  have hab : L.addrIsInMem ((beg + 7) / 8 * 8) = true := hL.mem _ (by omega) (by omega)
  have hae : L.addrIsInMem ((beg + size) / 8 * 8) = true := hL.mem _ (by omega) (by omega)
  have hdiv : ∀ x, x * 8 / 8 = x := fun x => by omega
  unfold regionIsPoisoned
  rw [if_neg (by omega), uadd_eq (by omega)]
  simp only [hb, he, hup, hdown, hab, hae, hdiv, not_true_eq_false, if_false, and_self, Nat.add_sub_cancel_left]
  rw [if_neg (by omega)]
  congr 1
  rw [memIsZero_iff, Bool.not_eq_true, Bool.not_eq_true, eq_iff_iff]
  refine and_congr_right fun _ => and_congr_right fun _ => ⟨?_, .inr⟩
  rintro (hle | h) n h1 h2
  · omega
  · exact h n h1 h2

/-- **Nothing is reported in a region without a poisoned byte.** -/
theorem regionIsPoisoned_clean (hL : L.Covers beg size) (hsize : 0 < size) (hv : s.Valid)
    (hclean : s.Clean beg (beg + size)) : regionIsPoisoned L s beg size = some 0 := by
  rw [regionIsPoisoned_eq hL hsize, if_pos]
  refine ⟨hclean _ (by omega) (by omega), hclean _ (by omega) (by omega), fun n h1 h2 => ?_⟩
  exact hv.eq_zero (hclean _ (by omega) (by omega))

/-- What the check can miss: the region starts inside of a granule, at an
addressable byte, goes on past the granule, and all behind it is addressable. -/
def Shadow.TailOnly (s : Shadow) (beg size : ℕ) : Prop :=
  addressIsPoisoned s beg = false ∧ (beg + 7) / 8 * 8 < beg + size ∧ s.Clean ((beg + 7) / 8 * 8) (beg + size)

/-- **What the region check answers**: 0 exactly for regions without a poisoned
byte and for those with such bytes in the tail of the first granule only. -/
theorem regionIsPoisoned_eq_zero_iff (hL : L.Covers beg size) (hsize : 0 < size) (hbeg : 0 < beg) (hv : s.Valid) :
    regionIsPoisoned L s beg size = some 0 ↔ s.Clean beg (beg + size) ∨ s.TailOnly beg size := by
  rw [regionIsPoisoned_eq hL hsize]
  constructor
  · intro h
    split at h
    · rename_i hfast
      obtain ⟨hb, he, hz⟩ := hfast
      by_cases hle : beg + size ≤ (beg + 7) / 8 * 8
      · -- the region is in one granule
        refine .inl fun a h1 h2 => ?_
        by_contra hp
        have := addressIsPoisoned_up (b := beg + size - 1) (by simpa using hp) (by omega) (by omega)
        rw [he] at this
        cases this
      · refine .inr ⟨hb, by omega, fun a h1 h2 => ?_⟩
        by_cases hlast : a / 8 < (beg + size) / 8
        · rw [addressIsPoisoned_eq_false_iff]
          exact .inl (hz _ (by omega) hlast)
        · by_contra hp
          have := addressIsPoisoned_up (b := beg + size - 1) (by simpa using hp) (by omega) (by omega)
          rw [he] at this
          cases this
    · -- what the loop finds is not before the region
      exact absurd (findPoisoned_eq_some_iff.mp h).ge (by omega)
  · rintro (hclean | ⟨hb, hlt, hclean⟩)
    · rw [← regionIsPoisoned_eq hL hsize]
      exact regionIsPoisoned_clean hL hsize hv hclean
    · rw [if_pos]
      refine ⟨hb, hclean _ (by omega) (by omega), fun n h1 h2 => ?_⟩
      exact hv.eq_zero (hclean _ (by omega) (by omega))

/-- **The check returns**: where it does not answer 0, it is with the first
poisoned byte. -/
theorem regionIsPoisoned_first (hL : L.Covers beg size) (hsize : 0 < size) (hv : s.Valid)
    (h : regionIsPoisoned L s beg size ≠ some 0) :
    ∃ q, regionIsPoisoned L s beg size = some q ∧ s.FirstPoisoned beg size q := by
  have hfind : regionIsPoisoned L s beg size = findPoisoned s beg size := by
    rw [regionIsPoisoned_eq hL hsize] at h ⊢
    split at h
    · exact absurd rfl h
    · rw [if_neg (by assumption)]
  rcases hq : findPoisoned s beg size with _ | q
  · exact absurd (regionIsPoisoned_clean hL hsize hv (findPoisoned_eq_none_iff.mp hq)) h
  · exact ⟨q, hfind.trans hq, findPoisoned_eq_some_iff.mp hq⟩

/-- **The first poisoned byte is found**, if the region starts at it or at a
granule, or it is in another granule, or the granule behind its own is poisoned
as a whole. -/
theorem regionIsPoisoned_of_first (hL : L.Covers beg size) {q : ℕ} (hf : s.FirstPoisoned beg size q)
    (htail : beg = q ∨ beg % 8 = 0 ∨ beg / 8 ≠ q / 8 ∨ 128 ≤ s (q / 8 + 1)) :
    regionIsPoisoned L s beg size = some q := by
  obtain ⟨hlo, hhi, hq, hclean⟩ := hf
  rw [regionIsPoisoned_eq hL (by omega), if_neg, findPoisoned_eq_some_iff.mpr ⟨hlo, hhi, hq, hclean⟩]
  rintro ⟨hb, he, hz⟩
  have hend : (beg + size - 1) / 8 ≠ q / 8 := fun hg => by
    have := addressIsPoisoned_up hq (show q ≤ beg + size - 1 by omega) hg
    rw [he] at this
    cases this
  have hbq : beg ≠ q := fun h => by
    rw [h, hq] at hb
    cases hb
  rcases htail with h | h | h | h
  · exact hbq h
  · exact (addressIsPoisoned_iff.mp hq).1 (hz _ (by omega) (by omega))
  · exact (addressIsPoisoned_iff.mp hq).1 (hz _ (by omega) (by omega))
  · by_cases hnext : (beg + size - 1) / 8 = q / 8 + 1
    · have : addressIsPoisoned s (beg + size - 1) = true := addressIsPoisoned_of_ge (by rw [hnext]; exact h)
      rw [he] at this
      cases this
    · have := hz (q / 8 + 1) (by omega) (by omega)
      omega

end Region

/-! ### Accesses of a fixed size -/

/-- A size with a function of its own, at an address that is aligned for it;
the widest needs the alignment of a granule only. -/
def FixedSize (addr size : ℕ) : Prop :=
  size = 1 ∨ size = 2 ∧ addr % 2 = 0 ∨ size = 4 ∧ addr % 4 = 0 ∨ size = 8 ∧ addr % 8 = 0 ∨ size = 16 ∧ addr % 8 = 0

instance (addr size : ℕ) : Decidable (FixedSize addr size) := by unfold FixedSize; infer_instance

/-- **An access of a fixed size is reported exactly if it touches a poisoned
byte.** -/
theorem memoryAccess_iff {s : Shadow} (hv : s.Valid) {addr size : ℕ} (h : FixedSize addr size) :
    memoryAccess s addr size = none ↔ s.Clean addr (addr + size) := by
  have hv0 := hv (addr / 8)
  have hv1 := hv (addr / 8 + 1)
  unfold memoryAccess
  simp only
  rw [ite_eq_right_iff]
  simp only [reduceCtorEq, imp_false]
  constructor
  · intro hno a h1 h2
    rw [addressIsPoisoned_eq_false_iff]
    by_cases hs : size < 8
    · -- the last byte decides, as the access is in one granule
      have hg : a / 8 = addr / 8 := by unfold FixedSize at h; omega
      rw [if_pos (by omega)] at hno
      rw [hg]
      by_contra hp
      apply hno
      refine ⟨by omega, .inr ?_⟩
      rw [s8_small (by omega)]
      rcases hv0 with hv0 | hv0
      · rw [s8_small (by omega)]
        omega
      · exact le_trans (s8_magic hv0.1 hv0.2).le (by omega)
    · by_cases hs8 : size ≤ 8
      · rw [if_pos hs8] at hno
        have hg : a / 8 = addr / 8 := by unfold FixedSize at h; omega
        rw [hg]
        omega
      · rw [if_neg hs8] at hno
        have hg : a / 8 = addr / 8 ∨ a / 8 = addr / 8 + 1 := by unfold FixedSize at h; omega
        rcases hg with hg | hg <;> rw [hg] <;> omega
  · intro hclean hrep
    have hpos : 0 < size := by unfold FixedSize at h; omega
    have hlast := addressIsPoisoned_eq_false_iff.mp (hclean (addr + size - 1) (by omega) (by omega))
    by_cases hs : size < 8
    · have hg : (addr + size - 1) / 8 = addr / 8 := by unfold FixedSize at h; omega
      rw [if_pos (by omega)] at hrep
      rw [hg] at hlast
      have hle := hrep.2.resolve_left (by omega)
      rw [s8_small (by omega), s8_small (by omega)] at hle
      omega
    · have hmid : s (addr / 8) = 0 :=
        hv.eq_zero (hclean _ (by unfold FixedSize at h; omega) (by unfold FixedSize at h; omega))
      by_cases hs8 : size ≤ 8
      · rw [if_pos hs8] at hrep
        exact hrep.1 hmid
      · have hsec : s (addr / 8 + 1) = 0 :=
          hv.eq_zero (hclean _ (by unfold FixedSize at h; omega) (by unfold FixedSize at h; omega))
        rw [if_neg hs8, hmid, hsec] at hrep
        exact hrep.1 rfl

/-! ### Reports -/

/-- The error is reported for the address under the description. -/
def Found (r : Option ErrorGeneric) (addr : ℕ) (bugDescr : String) : Prop :=
  ∃ err, r = some err ∧ err.addr = addr ∧ err.bugDescr = some bugDescr

section Report

variable {F : Flags} {L : Layout} {whitelistPcRange : List (ℕ × ℕ)} {trace : List ℕ} {s : State} {addr size c : ℕ}
  {isWrite : Bool}

/-- **What is reported** for an address of a chunk: what the byte of the
granule says that tells the type, if it is a whole granule's. -/
theorem reportGenericError_found (hon : F.isReportAlwaysOff = false)
    (hstack : isCMAInCallStack whitelistPcRange trace = false) (hmem : L.addrIsInMem addr = true) (hsize : size ≠ 0)
    (hget : tltGet s.tlt addr = some c) {descr : String}
    (hdescr : ∀ adjacent, (bugType (some (s.tlt.info c).status) adjacent isWrite
      (s.shadow (errorGranule s.shadow addr size))).bugDescr = descr) :
    Found (reportGenericError F L whitelistPcRange trace s addr isWrite size) addr descr := by
  unfold reportGenericError isPoisonAccessFalsePositive
  rw [if_neg (by simp [hstack]), if_neg (by simp [hon])]
  refine ⟨_, rfl, ?_, ?_⟩
  · unfold errorGeneric
    rw [if_neg hsize, if_pos hmem]
  · unfold errorGeneric
    rw [if_neg hsize, if_pos hmem, hget]
    exact congrArg some (hdescr _)

theorem asanLoadStoreN_passes (h : regionIsPoisoned L s.shadow addr size = some 0) :
    asanLoadStoreN F L whitelistPcRange trace s addr size isWrite = some none := by
  unfold asanLoadStoreN accessN
  rw [h]
  rfl

theorem asanLoadStoreN_reports {q : ℕ} (h : regionIsPoisoned L s.shadow addr size = some q) (hq : q ≠ 0) :
    asanLoadStoreN F L whitelistPcRange trace s addr size isWrite =
      some (reportGenericError F L whitelistPcRange trace s q isWrite size) := by
  unfold asanLoadStoreN accessN
  rw [h, Option.map_some, Option.map_some, if_pos hq, Option.bind_some]

/-- An access of a fixed size is let through, or its own address is reported. -/
theorem asanLoadStore_passes (h : memoryAccess s.shadow addr size = none) :
    asanLoadStore F L whitelistPcRange trace s addr size isWrite = none := by
  unfold asanLoadStore
  rw [h]
  rfl

theorem asanLoadStore_reports (h : memoryAccess s.shadow addr size ≠ none) :
    asanLoadStore F L whitelistPcRange trace s addr size isWrite =
      reportGenericError F L whitelistPcRange trace s addr isWrite size := by
  have hor : memoryAccess s.shadow addr size = some addr ∨ memoryAccess s.shadow addr size = none :=
    ite_eq_or_eq _ _ _
  unfold asanLoadStore
  rw [hor.resolve_right h, Option.bind_some]

end Report

end Cmasan
