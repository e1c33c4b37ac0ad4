/-
# Redzones

`__asan_extendSize` asks a custom allocator for more than the program does: the
request rounded up to granules, a redzone that grows with the request, and a
granule of padding for an unaligned pointer, all in units of the granularity.
The redzone is 16 to 2048 bytes, within the limits of `CheckOptions`, which
`RzOptions` carries.

Key definitions: `RzOptions`, `computeRzLog`, `extendSize`, `TrackedRequest`,
`trackedEnd`.
Key theorems: `rzSize_bounds`, `extendSize_eq_ite`, `le_extendSize`,
`extendSize_ne_iff`, `trackedEnd_bounds`.
-/
import Cmasan.Word
import Mathlib.Tactic.IntervalCases

namespace Cmasan

/-- The redzone limits as `CheckOptions` lets them pass. -/
structure RzOptions where
  minRedzone : ℕ
  maxRedzone : ℕ
  min_ge : 16 ≤ minRedzone
  max_ge : minRedzone ≤ maxRedzone
  max_le : maxRedzone ≤ 2048
  min_pow : minRedzone.isPowerOfTwo
  max_pow : maxRedzone.isPowerOfTwo

/-- `RZLog2Size`. -/
def rzLog2Size (rzLog : ℕ) : ℕ := 16 <<< rzLog

/-- `RZSize2Log`. -/
def rzSize2Log (rzSize : ℕ) : ℕ := Nat.log2 rzSize - 4

/-- `sizeof(ChunkHeader)`. -/
def sizeofChunkHeader : ℕ := 16

/-- `ComputeRZLog`. -/
def computeRzLog (o : RzOptions) (userRequestedSize : ℕ) : ℕ :=
  let rzLog :=
    if userRequestedSize ≤ 64 - 16 then 0
    else if userRequestedSize ≤ 128 - 32 then 1
    else if userRequestedSize ≤ 512 - 64 then 2
    else if userRequestedSize ≤ 4096 - 128 then 3
    else if userRequestedSize ≤ (1 <<< 14) - 256 then 4
    else if userRequestedSize ≤ (1 <<< 15) - 512 then 5
    else if userRequestedSize ≤ (1 <<< 16) - 1024 then 6
    else 7
  let hdrLog := rzSize2Log sizeofChunkHeader
  let minLog := rzSize2Log o.minRedzone
  let maxLog := rzSize2Log o.maxRedzone
  min (max rzLog (max minLog hdrLog)) (max maxLog hdrLog)

/-- `__asan_extendSize`. -/
def extendSize (o : RzOptions) (size granularity : ℕ) (isInCma : Bool) : ℕ :=
  if isInCma ∨ size = 0 ∨ granularity = 0 then size
  else
    let realSize := umul size granularity
    let byteSize := roundUpTo realSize 8
    let rzSize := rzLog2Size (computeRzLog o byteSize)
    let extendedSize := uadd (uadd byteSize rzSize) 8
    if extendedSize < realSize then size else extendedSize / granularity

theorem computeRzLog_le (o : RzOptions) (size : ℕ) : computeRzLog o size ≤ 7 := by
  have hmax : rzSize2Log o.maxRedzone ≤ 7 := by
    have h : Nat.log2 o.maxRedzone < 12 := by
      have := o.min_ge
      have := o.max_ge
      have := o.max_le
      exact (Nat.log2_lt (by omega)).mpr (by omega)
    unfold rzSize2Log
    omega
  have hhdr : rzSize2Log sizeofChunkHeader = 0 := by decide
  unfold computeRzLog
  simp only [hhdr]
  omega

/-- **Every redzone** is a multiple of 16 from 16 to 2048. -/
theorem rzSize_bounds (o : RzOptions) (size : ℕ) :
    16 ≤ rzLog2Size (computeRzLog o size) ∧ rzLog2Size (computeRzLog o size) ≤ 2048 ∧
      rzLog2Size (computeRzLog o size) % 8 = 0 := by
  have h := computeRzLog_le o size
  unfold rzLog2Size
  generalize computeRzLog o size = k at h
  interval_cases k <;> decide

/-- The bytes that a request is extended to, when nothing wraps. -/
def extendedBytes (o : RzOptions) (realSize : ℕ) : ℕ :=
  (realSize + 7) / 8 * 8 + rzLog2Size (computeRzLog o ((realSize + 7) / 8 * 8)) + 8

theorem extendedBytes_bounds (o : RzOptions) (realSize : ℕ) :
    realSize + 24 ≤ extendedBytes o realSize ∧ extendedBytes o realSize ≤ realSize + 2063 ∧
      extendedBytes o realSize % 8 = 0 := by
  have h := rzSize_bounds o ((realSize + 7) / 8 * 8)
  unfold extendedBytes
  omega

/-- **`__asan_extendSize`, whatever wraps**: it goes by the low 64 bits of the
product, and gives up if the extended bytes do not fit in a word. -/
theorem extendSize_eq_ite (o : RzOptions) {size granularity : ℕ} (hs : size ≠ 0)
    (hg : granularity ≠ 0) :
    extendSize o size granularity false =
      if extendedBytes o (umul size granularity) < 2 ^ 64 then
        extendedBytes o (umul size granularity) / granularity
      else size := by
  have hlt : umul size granularity < 2 ^ 64 := Nat.mod_lt _ (by decide)
  unfold extendSize
  rw [if_neg (by simp [hs, hg])]
  simp only
  generalize umul size granularity = r at hlt ⊢
  have hb := extendedBytes_bounds o r
  by_cases hext : extendedBytes o r < 2 ^ 64
  · have hz := rzSize_bounds o ((r + 7) / 8 * 8)
    have hsum : uadd (uadd ((r + 7) / 8 * 8) (rzLog2Size (computeRzLog o ((r + 7) / 8 * 8)))) 8 =
        extendedBytes o r := by
      unfold extendedBytes at hext ⊢
      generalize rzLog2Size (computeRzLog o ((r + 7) / 8 * 8)) = z at hext ⊢
      rw [uadd_eq (show (r + 7) / 8 * 8 + z < 2 ^ 64 by omega), uadd_eq hext]
    rw [if_pos hext, roundUpTo_eight (by omega), hsum]
    exact if_neg (by omega)
  · -- the sum wraps: what is left of it is less than two redzones
    have hwrap : uadd (uadd (roundUpTo r 8) (rzLog2Size (computeRzLog o (roundUpTo r 8)))) 8 < r := by
      by_cases h7 : r + 7 < 2 ^ 64
      · have hz := rzSize_bounds o ((r + 7) / 8 * 8)
        unfold extendedBytes at hext
        rw [roundUpTo_eight h7]
        unfold uadd
        omega
      · have hz := rzSize_bounds o (roundUpTo r 8)
        have hzero : roundUpTo r 8 = 0 := by
          unfold roundUpTo uadd
          omega
        rw [hzero] at hz ⊢
        unfold uadd
        omega
    rw [if_neg hext, if_pos hwrap]

theorem le_extendSize (o : RzOptions) {size granularity : ℕ} (hlt : size * granularity < 2 ^ 64) :
    size ≤ extendSize o size granularity false := by
  by_cases h0 : size = 0 ∨ granularity = 0
  · unfold extendSize
    rw [if_pos (.inr h0)]
  · obtain ⟨hs, hg⟩ := not_or.mp h0
    rw [extendSize_eq_ite o hs hg, umul_eq hlt]
    split
    · rw [Nat.le_div_iff_mul_le (Nat.pos_of_ne_zero hg)]
      have := extendedBytes_bounds o (size * granularity)
      omega
    · exact le_refl size

/-- An extended request is extended to the whole units of its extended bytes. -/
theorem extendSize_of_ne (o : RzOptions) {size granularity : ℕ} (hs : size ≠ 0) (hg : granularity ≠ 0)
    (hlt : size * granularity < 2 ^ 64) (hne : extendSize o size granularity false ≠ size) :
    extendSize o size granularity false = extendedBytes o (size * granularity) / granularity := by
  have heq := extendSize_eq_ite o hs hg
  rw [umul_eq hlt] at heq
  split at heq
  · exact heq
  · exact absurd heq hne

/-- **A request is extended** to the whole units of the extended bytes. -/
theorem extendSize_eq (o : RzOptions) {size granularity : ℕ} (hs : size ≠ 0) (hg : granularity ≠ 0)
    (hlt : size * granularity + 2063 < 2 ^ 64) :
    extendSize o size granularity false = extendedBytes o (size * granularity) / granularity := by
  have hb := extendedBytes_bounds o (size * granularity)
  rw [extendSize_eq_ite o hs hg, umul_eq (by omega), if_pos (by omega)]

/-- **When a request is extended**: one more unit fits in the extended bytes. -/
theorem extendSize_ne_iff (o : RzOptions) {size granularity : ℕ} (hs : size ≠ 0) (hg : granularity ≠ 0)
    (hlt : size * granularity + 2063 < 2 ^ 64) :
    extendSize o size granularity false ≠ size ↔
      size * granularity + granularity ≤ extendedBytes o (size * granularity) := by
  have hle := le_extendSize o (show size * granularity < 2 ^ 64 by omega)
  have hone : size + 1 ≤ extendSize o size granularity false ↔
      size * granularity + granularity ≤ extendedBytes o (size * granularity) := by
    rw [extendSize_eq o hs hg hlt, Nat.le_div_iff_mul_le (Nat.pos_of_ne_zero hg), Nat.succ_mul]
  rw [← hone]
  omega

/-- A request that the hooks track: not empty, extended, without a wrap, and
with room for the granule behind it. -/
structure TrackedRequest (o : RzOptions) (ptr size granularity : ℕ) : Prop where
  ptr_ne : ptr ≠ 0
  size_ne : size ≠ 0
  granularity_ne : granularity ≠ 0
  no_wrap : size * granularity + 2063 < 2 ^ 64
  fits : ptr + extendSize o size granularity false * granularity + 8 < 2 ^ 64
  extended : extendSize o size granularity false ≠ size

/-- The end of the tracked range: the last granule boundary in the region. -/
def trackedEnd (o : RzOptions) (ptr size granularity : ℕ) : ℕ :=
  roundDownTo (ptr + extendSize o size granularity false * granularity) 8

/-- **The tracked range** ends on a boundary of the region, behind the object. -/
theorem trackedEnd_bounds (o : RzOptions) (ptr : ℕ) {size granularity : ℕ} (hs : size ≠ 0)
    (hg : granularity ≠ 0) (hlt : size * granularity < 2 ^ 64)
    (hne : extendSize o size granularity false ≠ size) :
    ptr + size * granularity + 2 ≤ trackedEnd o ptr size granularity ∧
      trackedEnd o ptr size granularity ≤ ptr + extendSize o size granularity false * granularity ∧
      trackedEnd o ptr size granularity ≤ ptr + size * granularity + 2063 ∧
      trackedEnd o ptr size granularity % 8 = 0 := by
  have hb := extendedBytes_bounds o (size * granularity)
  have hsucc : size + 1 ≤ extendSize o size granularity false := by
    have := le_extendSize o hlt
    omega
  have hunit : size * granularity + granularity ≤ extendSize o size granularity false * granularity := by
    have := Nat.mul_le_mul_right granularity hsucc
    rwa [Nat.succ_mul] at this
  have hle : extendSize o size granularity false * granularity ≤ extendedBytes o (size * granularity) := by
    rw [extendSize_of_ne o hs hg hlt hne]
    exact Nat.div_mul_le_self _ _
  have hge : extendedBytes o (size * granularity) <
      extendSize o size granularity false * granularity + granularity := by
    rw [extendSize_of_ne o hs hg hlt hne]
    exact Nat.lt_div_mul_add (Nat.pos_of_ne_zero hg)
  unfold trackedEnd roundDownTo
  omega

theorem TrackedRequest.end_bounds {o : RzOptions} {ptr size granularity : ℕ}
    (h : TrackedRequest o ptr size granularity) :
    ptr + size * granularity + 2 ≤ trackedEnd o ptr size granularity ∧
      trackedEnd o ptr size granularity ≤ ptr + extendSize o size granularity false * granularity ∧
      trackedEnd o ptr size granularity ≤ ptr + size * granularity + 2063 ∧
      trackedEnd o ptr size granularity % 8 = 0 := by
  have := h.no_wrap
  exact trackedEnd_bounds o ptr h.size_ne h.granularity_ne (by omega) h.extended

end Cmasan
