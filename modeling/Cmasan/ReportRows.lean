/-
# The rows around a bad address

A report ends with eleven rows of shadow bytes around the bad address and
eleven rows of tracking info for the same memory. Rows up to five before and
after the address can leave the shadow: the first loop skips those, the second
one hands each to `ShadowToMem`, whose CHECK stops the process. The shadow of
a row is the shadow of 128 bytes of memory, so the report is printed iff the
blocks of 128 bytes up to five before and after the address's are all in
application memory (`RowsInMem`).

Key definitions: `Layout`, `Layout.addrIsInMem`, `Layout.addrIsInShadow`,
`printShadowMemoryForAddress`, `RowsInMem`.
Key theorems: `Layout.rowShadowAddr_eq`, `Layout.addrIsInShadow_row_iff`,
`printShadowMemoryForAddress_isSome_iff`, `rowsInMem_linuxX8664`.
-/
import Cmasan.Tlt

namespace Cmasan

/-! ### The layout of memory -/

/-- A layout of `asan_mapping.h` with a nonzero shadow offset. Offsets and
the ends of the regions are those of pages; `InitializeHighMemEnd` rounds
`kHighMemEnd` up to a page's memory, and the CHECKs of
`PrintAddressSpaceLayout` order the regions around a mid memory. -/
structure Layout where
  bits : ℕ
  shadowOffset : ℕ
  kHighMemEnd : ℕ
  kMidMemBeg : ℕ
  kMidMemEnd : ℕ
  protectShadowGap : Bool
  offset_pos : 0 < shadowOffset
  offset_page : 4096 ∣ shadowOffset
  end_lt : kHighMemEnd < 2 ^ bits
  end_page : 4096 * 8 ∣ kHighMemEnd + 1
  high_nonempty : kHighMemEnd / 8 + shadowOffset + 1 ≤ kHighMemEnd
  mid_page : 4096 ∣ kMidMemBeg
  mid_order : kMidMemBeg ≠ 0 → kMidMemBeg ≤ kMidMemEnd ∧
    (shadowOffset - 1) / 8 + shadowOffset < kMidMemBeg / 8 + shadowOffset ∧
    kMidMemEnd / 8 + shadowOffset < kMidMemBeg ∧
    kMidMemEnd < (kHighMemEnd / 8 + shadowOffset + 1) / 8 + shadowOffset

namespace Layout

variable (L : Layout)

/-- `MEM_TO_SHADOW`. -/
def memToShadow (mem : ℕ) : ℕ := (mem / 8 + L.shadowOffset) % 2 ^ L.bits

/-- `SHADOW_TO_MEM`. -/
def shadowToMem (shadow : ℕ) : ℕ := (shadow - L.shadowOffset) * 8 % 2 ^ L.bits

/-- `kLowMemEnd`. -/
def kLowMemEnd : ℕ := if L.shadowOffset = 0 then 0 else L.shadowOffset - 1

/-- `kLowShadowEnd`. -/
def kLowShadowEnd : ℕ := L.memToShadow L.kLowMemEnd

/-- `kHighMemBeg`. -/
def kHighMemBeg : ℕ := L.memToShadow L.kHighMemEnd + 1

/-- `kHighShadowBeg`. -/
def kHighShadowBeg : ℕ := L.memToShadow L.kHighMemBeg

/-- `kHighShadowEnd`. -/
def kHighShadowEnd : ℕ := L.memToShadow L.kHighMemEnd

/-- `kMidShadowBeg`. -/
def kMidShadowBeg : ℕ := L.memToShadow L.kMidMemBeg

/-- `kMidShadowEnd`. -/
def kMidShadowEnd : ℕ := L.memToShadow L.kMidMemEnd

/-- `kShadowGapBeg`. -/
def kShadowGapBeg : ℕ := if L.kLowShadowEnd = 0 then 0 else L.kLowShadowEnd + 1

/-- `kShadowGapEnd`. -/
def kShadowGapEnd : ℕ := (if L.kMidMemBeg = 0 then L.kHighShadowBeg else L.kMidShadowBeg) - 1

/-- `AddrIsInLowMem`. -/
def addrIsInLowMem (a : ℕ) : Bool := a ≤ L.kLowMemEnd

/-- `AddrIsInLowShadow`. -/
def addrIsInLowShadow (a : ℕ) : Bool := a ≥ L.shadowOffset ∧ a ≤ L.kLowShadowEnd

/-- `AddrIsInMidMem`. -/
def addrIsInMidMem (a : ℕ) : Bool := L.kMidMemBeg ≠ 0 ∧ a ≥ L.kMidMemBeg ∧ a ≤ L.kMidMemEnd

/-- `AddrIsInMidShadow`. -/
def addrIsInMidShadow (a : ℕ) : Bool := L.kMidMemBeg ≠ 0 ∧ a ≥ L.kMidShadowBeg ∧ a ≤ L.kMidShadowEnd

/-- `AddrIsInHighMem`. -/
def addrIsInHighMem (a : ℕ) : Bool := L.kHighMemBeg ≠ 0 ∧ a ≥ L.kHighMemBeg ∧ a ≤ L.kHighMemEnd

/-- `AddrIsInHighShadow`. -/
def addrIsInHighShadow (a : ℕ) : Bool := L.kHighMemBeg ≠ 0 ∧ a ≥ L.kHighShadowBeg ∧ a ≤ L.kHighShadowEnd

/-- `AddrIsInShadowGap` for a nonzero shadow offset; the gaps 2 and 3 are
those around a mid memory. -/
def addrIsInShadowGap (a : ℕ) : Bool :=
  if L.kMidMemBeg ≠ 0 then
    if a ≤ L.kShadowGapEnd then L.shadowOffset = 0 ∨ a ≥ L.kShadowGapBeg
    else (a ≥ L.kMidShadowEnd + 1 ∧ a ≤ L.kMidMemBeg - 1) ∨ (a ≥ L.kMidMemEnd + 1 ∧ a ≤ L.kHighShadowBeg - 1)
  else a ≥ L.kShadowGapBeg ∧ a ≤ L.kShadowGapEnd

/-- `AddrIsInMem`. -/
def addrIsInMem (a : ℕ) : Bool :=
  L.addrIsInLowMem a || L.addrIsInMidMem a || L.addrIsInHighMem a ||
    (!L.protectShadowGap && L.addrIsInShadowGap a)

/-- `AddrIsInShadow`. -/
def addrIsInShadow (a : ℕ) : Bool :=
  L.addrIsInLowShadow a || L.addrIsInMidShadow a || L.addrIsInHighShadow a

/-- The address is in application memory, no gap. -/
def addrIsInAppMem (a : ℕ) : Bool := L.addrIsInLowMem a || L.addrIsInMidMem a || L.addrIsInHighMem a

end Layout

/-! ### The report -/

/-- A byte of a row with what is printed around it. -/
structure Cell where
  before : String
  byte : ℕ
  after : String
  deriving DecidableEq, Repr

/-- A row: its prefix, its address and its bytes. -/
structure Row where
  before : String
  address : ℕ
  cells : List Cell
  deriving DecidableEq, Repr

/-- `PrintShadowBytes`. -/
def printShadowBytes (shadow : ℕ → ℕ) (before : String) (bytes guilty n : ℕ) : Row where
  before := before
  address := bytes
  cells := (List.range n).map fun i =>
    let p := bytes + i
    { before := if p = guilty then "[" else if p = guilty + 1 ∧ i ≠ 0 then "" else " "
      byte := shadow p
      after := if p = guilty then "]" else "" }

/-- The byte of `PrintCMABytes` for the granule at `p`. -/
def cmaByte (t : Tlt) (p : ℕ) : ℕ :=
  match tltGet t p with
  | none => 0xfe
  | some c =>
    if (t.info c).status = .deallocated then 0xfd
    else if p < (t.info c).startAddr then
      let addressable := usub 8 (usub (t.info c).startAddr p)
      let addressable := if addressable > (t.info c).chunkSize then (t.info c).chunkSize else addressable
      addressable <<< 4 % 256
    else if p - (t.info c).startAddr < (t.info c).chunkSize then
      let remains := (t.info c).chunkSize - (p - (t.info c).startAddr)
      if remains < 8 then remains else 0x00
    else 0xfa

/-- `PrintCMABytes`. -/
def printCMABytes (t : Tlt) (before : String) (bytes guilty n : ℕ) : Row where
  before := before
  address := bytes
  cells := (List.range (n / 8)).map fun i =>
    let p := roundDownTo bytes 8 + 8 * i
    { before := if p = guilty then "[" else if usub p 8 = guilty ∧ i ≠ 0 then "" else " "
      byte := cmaByte t p
      after := if p = guilty then "]" else "" }

/-- The numbers of the rows. -/
def rowNumbers : List ℤ := [-5, -4, -3, -2, -1, 0, 1, 2, 3, 4, 5]

/-- `row_shadow_addr` of row `i`, with the shadow address aligned to a row. -/
def Layout.rowShadowAddr (L : Layout) (addr : ℕ) (i : ℤ) : ℕ :=
  (((L.memToShadow addr / 16 * 16 : ℕ) + i * 16) % (2 ^ L.bits : ℕ)).toNat

/-- The prefix of row `i`. -/
def rowPrefix (i : ℤ) : String := if i = 0 then "=>" else "  "

/-- The first loop: rows outside the shadow are skipped. -/
def shadowRows (L : Layout) (shadow : ℕ → ℕ) (addr : ℕ) : List Row :=
  (rowNumbers.filter fun i => L.addrIsInShadow (L.rowShadowAddr addr i)).map fun i =>
    printShadowBytes shadow (rowPrefix i) (L.rowShadowAddr addr i) (L.memToShadow addr) 16

/-- `ShadowToMem`, `none` where its CHECK fails. -/
def shadowToMemChecked (L : Layout) (a : ℕ) : Option ℕ :=
  if L.addrIsInShadow a then some (L.shadowToMem a) else none

/-- The second loop. -/
def cmaRows (L : Layout) (t : Tlt) (addr : ℕ) : List ℤ → Option (List Row)
  | [] => some []
  | i :: is =>
    match shadowToMemChecked L (L.rowShadowAddr addr i) with
    | none => none
    | some rowCmaAddr =>
      (cmaRows L t addr is).map
        (printCMABytes t (rowPrefix i) rowCmaAddr (roundDownTo addr 8) (16 <<< 3) :: ·)

/-- `PrintShadowMemoryForAddress`: the rows that are printed, none for an
address that is not in memory; `none` where a CHECK fails. The legends are
left out. -/
def printShadowMemoryForAddress (L : Layout) (shadow : ℕ → ℕ) (t : Tlt) (addr : ℕ) : Option (List Row) :=
  if L.addrIsInMem addr then (cmaRows L t addr rowNumbers).map (shadowRows L shadow addr ++ ·)
  else some []

/-- The 128 bytes of memory of the row `i` from the address's are application
memory. -/
def RowInMem (L : Layout) (addr : ℕ) (i : ℤ) : Prop :=
  ∃ k : ℕ, (k : ℤ) = (addr / 128 : ℕ) + i ∧ L.addrIsInAppMem (128 * k)

/-- Those of all eleven rows are. -/
def RowsInMem (L : Layout) (addr : ℕ) : Prop := ∀ i : ℤ, -5 ≤ i → i ≤ 5 → RowInMem L addr i

namespace Layout

variable (L : Layout)

/-! ### The mapping without a wrap -/

theorem memToShadow_eq {mem : ℕ} (h : mem ≤ L.kHighMemEnd) :
    L.memToShadow mem = mem / 8 + L.shadowOffset := by
  apply Nat.mod_eq_of_lt
  have := L.end_lt
  have := L.high_nonempty
  omega

theorem kLowMemEnd_eq : L.kLowMemEnd = L.shadowOffset - 1 := if_neg L.offset_pos.ne'

theorem kHighMemBeg_eq : L.kHighMemBeg = L.kHighMemEnd / 8 + L.shadowOffset + 1 := by
  unfold kHighMemBeg
  rw [L.memToShadow_eq (Nat.le_refl _)]

theorem kHighMemBeg_le : L.kHighMemBeg ≤ L.kHighMemEnd := by
  rw [L.kHighMemBeg_eq]
  exact L.high_nonempty

/-- `InitializeHighMemEnd`'s CHECK holds. -/
theorem kHighMemBeg_page : 4096 ∣ L.kHighMemBeg := by
  have h₁ := L.offset_page
  have h₂ := L.end_page
  rw [L.kHighMemBeg_eq]
  omega

theorem kHighShadowEnd_eq : L.kHighShadowEnd = L.kHighMemEnd / 8 + L.shadowOffset :=
  L.memToShadow_eq (Nat.le_refl _)

theorem kHighShadowBeg_eq : L.kHighShadowBeg = L.kHighMemBeg / 8 + L.shadowOffset :=
  L.memToShadow_eq L.kHighMemBeg_le

theorem kLowShadowEnd_eq : L.kLowShadowEnd = (L.shadowOffset - 1) / 8 + L.shadowOffset := by
  have := L.high_nonempty
  unfold kLowShadowEnd
  rw [L.kLowMemEnd_eq, L.memToShadow_eq (by omega)]

theorem kMidMemEnd_le (h : L.kMidMemBeg ≠ 0) : L.kMidMemEnd ≤ L.kHighMemEnd := by
  have hmid := (L.mid_order h).2.2.2
  have hhigh := L.high_nonempty
  omega

theorem kMidShadowBeg_eq (h : L.kMidMemBeg ≠ 0) : L.kMidShadowBeg = L.kMidMemBeg / 8 + L.shadowOffset :=
  L.memToShadow_eq ((L.mid_order h).1.trans (L.kMidMemEnd_le h))

theorem kMidShadowEnd_eq (h : L.kMidMemBeg ≠ 0) : L.kMidShadowEnd = L.kMidMemEnd / 8 + L.shadowOffset :=
  L.memToShadow_eq (L.kMidMemEnd_le h)

theorem le_of_addrIsInMem {a : ℕ} (h : L.addrIsInMem a) : a ≤ L.kHighMemEnd := by
  have hhigh := L.high_nonempty
  simp only [addrIsInMem, Bool.or_eq_true, Bool.and_eq_true] at h
  rcases h with ((h | h) | h) | ⟨-, h⟩
  · have hle : a ≤ L.kLowMemEnd := of_decide_eq_true h
    rw [L.kLowMemEnd_eq] at hle
    omega
  · obtain ⟨hmid, -, hle⟩ := of_decide_eq_true h
    exact hle.trans (L.kMidMemEnd_le hmid)
  · exact (of_decide_eq_true h).2.2
  · have hbeg := L.kHighShadowBeg_eq
    have hmem := L.kHighMemBeg_eq
    unfold addrIsInShadowGap at h
    by_cases hmid : L.kMidMemBeg = 0
    · rw [if_neg (not_not.mpr hmid)] at h
      have hle := (of_decide_eq_true h).2
      unfold kShadowGapEnd at hle
      rw [if_pos hmid] at hle
      omega
    · have hord := L.mid_order hmid
      have hmbeg := L.kMidShadowBeg_eq hmid
      rw [if_pos hmid] at h
      split at h
      · rename_i hle
        unfold kShadowGapEnd at hle
        rw [if_neg hmid] at hle
        omega
      · have hgap := of_decide_eq_true h
        omega

/-! ### The rows -/

/-- A row's shadow address: sixteen shadow bytes for each block of 128. -/
theorem rowShadowAddr_eq {addr : ℕ} (h : addr ≤ L.kHighMemEnd) {i : ℤ} (hl : -5 ≤ i) (hu : i ≤ 5) :
    (L.rowShadowAddr addr i : ℤ) = 16 * ((addr / 128 : ℕ) + i) + L.shadowOffset := by
  have hpage := L.offset_page
  have hend := L.end_page
  have hbeg := L.kHighMemBeg_page
  have hle := L.kHighMemBeg_le
  have hlt := L.end_lt
  have hpos := L.offset_pos
  have haligned : L.memToShadow addr / 16 * 16 = addr / 128 * 16 + L.shadowOffset := by
    rw [L.memToShadow_eq h]
    omega
  rw [L.kHighMemBeg_eq] at hbeg hle
  unfold rowShadowAddr
  rw [haligned, Int.emod_eq_of_lt (by omega) (by omega), Int.toNat_of_nonneg (by omega)]
  push_cast
  ring

/-- **A block's shadow row is in the shadow iff the block is application
memory.** -/
theorem addrIsInShadow_block (k : ℕ) :
    L.addrIsInShadow (16 * k + L.shadowOffset) = true ↔ L.addrIsInAppMem (128 * k) = true := by
  have hpos := L.offset_pos
  have hpage := L.kHighMemBeg_page
  have hmpage := L.mid_page
  have hlow : L.addrIsInLowShadow (16 * k + L.shadowOffset) = true ↔ L.addrIsInLowMem (128 * k) = true := by
    unfold addrIsInLowShadow addrIsInLowMem
    rw [decide_eq_true_iff, decide_eq_true_iff, L.kLowShadowEnd_eq, L.kLowMemEnd_eq]
    omega
  have hmid : L.addrIsInMidShadow (16 * k + L.shadowOffset) = true ↔ L.addrIsInMidMem (128 * k) = true := by
    unfold addrIsInMidShadow addrIsInMidMem
    rw [decide_eq_true_iff, decide_eq_true_iff]
    apply and_congr_right
    intro hm
    rw [L.kMidShadowBeg_eq hm, L.kMidShadowEnd_eq hm]
    omega
  have hhigh : L.addrIsInHighShadow (16 * k + L.shadowOffset) = true ↔ L.addrIsInHighMem (128 * k) = true := by
    unfold addrIsInHighShadow addrIsInHighMem
    rw [decide_eq_true_iff, decide_eq_true_iff, L.kHighShadowBeg_eq, L.kHighShadowEnd_eq]
    omega
  simp only [addrIsInShadow, addrIsInAppMem, Bool.or_eq_true, hlow, hmid, hhigh]

theorem not_addrIsInShadow {a : ℕ} (h : a < L.shadowOffset) : L.addrIsInShadow a = false := by
  have hlow : L.addrIsInLowShadow a = false := decide_eq_false (by omega)
  have hmid : L.addrIsInMidShadow a = false := by
    apply decide_eq_false
    intro ⟨hm, hge, _⟩
    rw [L.kMidShadowBeg_eq hm] at hge
    omega
  have hhigh : L.addrIsInHighShadow a = false := by
    apply decide_eq_false
    intro ⟨_, hge, _⟩
    rw [L.kHighShadowBeg_eq] at hge
    omega
  unfold addrIsInShadow
  rw [hlow, hmid, hhigh]
  rfl

/-- **A row is in the shadow iff its memory is application memory.** -/
theorem addrIsInShadow_row_iff {addr : ℕ} (h : addr ≤ L.kHighMemEnd) {i : ℤ} (hl : -5 ≤ i) (hu : i ≤ 5) :
    L.addrIsInShadow (L.rowShadowAddr addr i) = true ↔ RowInMem L addr i := by
  have hrow := L.rowShadowAddr_eq h hl hu
  rcases lt_or_ge (((addr / 128 : ℕ) : ℤ) + i) 0 with hneg | hnonneg
  · rw [L.not_addrIsInShadow (by omega)]
    constructor
    · intro hf
      cases hf
    · intro ⟨k, hk, _⟩
      omega
  · obtain ⟨k, hk⟩ := Int.eq_ofNat_of_zero_le hnonneg
    have heq : L.rowShadowAddr addr i = 16 * k + L.shadowOffset := by omega
    rw [heq, L.addrIsInShadow_block]
    constructor
    · intro hm
      exact ⟨k, hk.symm, hm⟩
    · intro ⟨k', hk', hm⟩
      obtain rfl : k' = k := by omega
      exact hm

end Layout

/-! ### The loops -/

theorem cmaRows_isSome_iff (L : Layout) (t : Tlt) (addr : ℕ) : ∀ is : List ℤ,
    (cmaRows L t addr is).isSome ↔ ∀ i ∈ is, L.addrIsInShadow (L.rowShadowAddr addr i) = true
  | [] => by simp [cmaRows]
  | i :: is => by
    unfold cmaRows shadowToMemChecked
    by_cases h : L.addrIsInShadow (L.rowShadowAddr addr i) = true
    · rw [if_pos h]
      simp [cmaRows_isSome_iff L t addr is, h]
    · rw [if_neg h]
      simp [h]

theorem mem_rowNumbers {i : ℤ} : i ∈ rowNumbers ↔ -5 ≤ i ∧ i ≤ 5 := by
  simp only [rowNumbers, List.mem_cons, List.not_mem_nil, or_false]
  omega

/-- **The report is printed iff the memory of its eleven rows is application
memory**; otherwise a CHECK fails. -/
theorem printShadowMemoryForAddress_isSome_iff (L : Layout) (shadow : ℕ → ℕ) (t : Tlt) {addr : ℕ}
    (h : L.addrIsInMem addr = true) :
    (printShadowMemoryForAddress L shadow t addr).isSome ↔ RowsInMem L addr := by
  have hle := L.le_of_addrIsInMem h
  unfold printShadowMemoryForAddress RowsInMem
  rw [if_pos h, Option.isSome_map, cmaRows_isSome_iff]
  constructor
  · intro hall i hl hu
    exact (L.addrIsInShadow_row_iff hle hl hu).mp (hall i (mem_rowNumbers.mpr ⟨hl, hu⟩))
  · intro hall i hi
    obtain ⟨hl, hu⟩ := mem_rowNumbers.mp hi
    exact (L.addrIsInShadow_row_iff hle hl hu).mpr (hall i hl hu)

/-! ### Linux on x86-64 -/

/-- The layout of Linux on x86-64. -/
def linuxX8664 : Layout where
  bits := 64
  shadowOffset := 0x7fff8000
  kHighMemEnd := 0x7fffffffffff
  kMidMemBeg := 0
  kMidMemEnd := 0
  protectShadowGap := true
  offset_pos := by decide
  offset_page := by decide
  end_lt := by decide
  end_page := by decide
  high_nonempty := by decide
  mid_page := by decide
  mid_order h := absurd rfl h

theorem linuxX8664_appMem (a : ℕ) : linuxX8664.addrIsInAppMem a = true ↔
    a ≤ 0x7fff7fff ∨ (0x10007fff8000 ≤ a ∧ a ≤ 0x7fffffffffff) := by
  have hlow : linuxX8664.addrIsInLowMem a = true ↔ a ≤ 0x7fff7fff := by
    unfold Layout.addrIsInLowMem
    rw [decide_eq_true_iff, linuxX8664.kLowMemEnd_eq]
    rfl
  have hmid : linuxX8664.addrIsInMidMem a = false := decide_eq_false fun h => h.1 rfl
  have hhigh : linuxX8664.addrIsInHighMem a = true ↔ 0x10007fff8000 ≤ a ∧ a ≤ 0x7fffffffffff := by
    unfold Layout.addrIsInHighMem
    rw [decide_eq_true_iff, linuxX8664.kHighMemBeg_eq]
    show 0x7fffffffffff / 8 + 0x7fff8000 + 1 ≠ 0 ∧ a ≥ 0x7fffffffffff / 8 + 0x7fff8000 + 1 ∧
      a ≤ 0x7fffffffffff ↔ _
    omega
  unfold Layout.addrIsInAppMem
  rw [Bool.or_eq_true, Bool.or_eq_true, hlow, hhigh, hmid]
  simp

/-- On Linux on x86-64 the report is printed for all but the first and the
last 640 bytes of low and of high memory. -/
theorem rowsInMem_linuxX8664 (addr : ℕ) : RowsInMem linuxX8664 addr ↔
    (0x280 ≤ addr ∧ addr < 0x7fff7d80) ∨ (0x10007fff8280 ≤ addr ∧ addr < 0x7ffffffffd80) := by
  constructor
  · intro h
    obtain ⟨k, hk, hmem⟩ := h (-5) (by decide) (by decide)
    obtain ⟨k', hk', hmem'⟩ := h 5 (by decide) (by decide)
    rw [linuxX8664_appMem] at hmem hmem'
    omega
  · intro h i hl hu
    refine ⟨((addr / 128 : ℕ) + i).toNat, by omega, ?_⟩
    rw [linuxX8664_appMem]
    omega

/-- An address of the first 640 bytes of high memory: the rows before it are
in the shadow gap. -/
theorem printShadowMemoryForAddress_high_bottom :
    linuxX8664.addrIsInMem 0x10007fff8200 = true ∧
      printShadowMemoryForAddress linuxX8664 (fun _ => 0) initializeTlt 0x10007fff8200 = none := by
  decide +kernel

/-- 128 bytes on, it is printed. -/
theorem printShadowMemoryForAddress_high :
    (printShadowMemoryForAddress linuxX8664 (fun _ => 0) initializeTlt 0x10007fff8280).isSome :=
  (printShadowMemoryForAddress_isSome_iff linuxX8664 (fun _ => 0) initializeTlt (by decide)).mpr
    ((rowsInMem_linuxX8664 _).mpr (by decide))

end Cmasan
