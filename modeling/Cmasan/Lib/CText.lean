/-
# Text as bytes

A C string in a buffer is what stands from a pointer to the next zero byte
(`cString`), so a word that a zero byte ends is read back wherever it stands
(`cString_eq`). A natural number is written as its decimal digits
(`decimal`), which are digits only (`isDigit_of_mem_decimal`) and give the
number back (`decimalValue_decimal`).

Key definitions: `cString`, `decimal`, `decimalValue`.
Key theorems: `cString_eq`, `isDigit_of_mem_decimal`, `decimalValue_decimal`.
-/
import Mathlib.Data.List.TakeWhile
import Mathlib.Data.Nat.Notation

namespace Cmasan
namespace Lib

/-- The string at `ptr`: the bytes up to the next zero. -/
def cString (buffer : List UInt8) (ptr : ℕ) : List UInt8 := (buffer.drop ptr).takeWhile (· ≠ 0)

/-- **A word that a zero byte ends** is the string at its start. -/
theorem cString_eq {buffer before w after : List UInt8} {ptr : ℕ} (hb : buffer = before ++ (w ++ 0 :: after))
    (hp : ptr = before.length) (hw : 0 ∉ w) : cString buffer ptr = w := by
  unfold cString
  rw [hb, hp, List.drop_left, List.takeWhile_append_of_pos]
  · simp
  · intro b hmem
    have : b ≠ 0 := fun h => hw (h ▸ hmem)
    simpa using this

/-- The decimal digits of `n`. -/
def decimal (n : ℕ) : List UInt8 := (Nat.toDigits 10 n).map Char.toUInt8

/-- A decimal digit. -/
def isDigit (b : UInt8) : Bool := 48 ≤ b ∧ b ≤ 57

/-- The number that the digits at the start of `bs` write. -/
def decimalValue (bs : List UInt8) : ℕ :=
  (bs.takeWhile isDigit).foldl (fun v b => 10 * v + (b.toNat - 48)) 0

theorem toNat_toUInt8 {c : Char} (h : c.isDigit) : c.toUInt8.toNat = c.toNat := by
  have hc : c.val ≤ 57 := by
    simp only [Char.isDigit, Bool.and_eq_true, decide_eq_true_eq] at h
    exact h.2
  have hlt : c.val.toNat ≤ 57 := UInt32.le_iff_toNat_le.mp hc
  calc c.toUInt8.toNat = c.val.toNat % 256 := UInt32.toNat_toUInt8 c.val
    _ = c.val.toNat := Nat.mod_eq_of_lt (by omega)

theorem isDigit_toUInt8 {c : Char} (h : c.isDigit) : isDigit c.toUInt8 := by
  have hn := toNat_toUInt8 h
  simp only [Char.isDigit, Bool.and_eq_true, decide_eq_true_eq] at h
  have h1 : 48 ≤ c.val.toNat := UInt32.le_iff_toNat_le.mp h.1
  have h2 : c.val.toNat ≤ 57 := UInt32.le_iff_toNat_le.mp h.2
  have hn' : c.toUInt8.toNat = c.val.toNat := hn
  simp only [isDigit, decide_eq_true_eq, UInt8.le_iff_toNat_le, hn']
  exact ⟨h1, h2⟩

theorem isDigit_of_mem_decimal {n : ℕ} {b : UInt8} (h : b ∈ decimal n) : isDigit b := by
  obtain ⟨c, hc, rfl⟩ := List.mem_map.mp h
  exact isDigit_toUInt8 (Nat.isDigit_of_mem_toDigits (by decide) (by decide) hc)

theorem ne_of_isDigit {b c : UInt8} (h : isDigit b) (hc : isDigit c = false) : b ≠ c := by
  intro heq
  rw [heq, hc] at h
  cases h

theorem foldl_toUInt8 : ∀ (cs : List Char) (v : ℕ), (∀ c ∈ cs, c.isDigit) →
    (cs.map Char.toUInt8).foldl (fun v b => 10 * v + (b.toNat - 48)) v = Nat.ofDigitChars 10 cs v
  | [], _, _ => rfl
  | c :: cs, v, h => by
    have hcs : ∀ c' ∈ cs, c'.isDigit := fun c' hc' => h c' (List.mem_cons_of_mem c hc')
    rw [List.map_cons, List.foldl_cons, foldl_toUInt8 cs _ hcs, toNat_toUInt8 (h c List.mem_cons_self)]
    rfl

/-- **The digits of a number** give it back. -/
theorem decimalValue_decimal (n : ℕ) : decimalValue (decimal n) = n := by
  have htake : (decimal n).takeWhile isDigit = decimal n :=
    List.takeWhile_eq_self_iff.mpr fun _ hb => isDigit_of_mem_decimal hb
  have hdigits : ∀ c ∈ Nat.toDigits 10 n, c.isDigit := fun _ hc =>
    Nat.isDigit_of_mem_toDigits (by decide) (by decide) hc
  unfold decimalValue
  rw [htake, decimal, foldl_toUInt8 _ 0 hdigits]
  exact Nat.ofDigitChars_ten_toDigits

end Lib
end Cmasan
