/-
# Delimited text

Words with a one-character delimiter between them (`joinDelim`), and a reader
that takes the text apart again at the first delimiter, until nothing is left
(`fields`). The reader cannot see an empty word at the end, so the words are
read back if the last one is not empty and none has the delimiter in it
(`fields_joinDelim`).

Numbers are written in decimal, a negative one with a sign (`intText`), and
read as `strtol` reads them: white space, a sign, digits (`readInt`).

Key definitions: `joinDelim`, `split`, `fields`, `intText`, `readInt`.
Key theorems: `fields_joinDelim`, `readInt_intText`, `not_mem_intText`.
-/
import Mathlib.Data.List.TakeWhile
import Mathlib.Data.Nat.Notation

namespace Cmasan
namespace Lib

section Words

variable {α : Type*} [DecidableEq α]

/-- The words with the delimiter between them. -/
def joinDelim (delim : α) : List (List α) → List α
  | [] => []
  | [w] => w
  | w :: ws => w ++ delim :: joinDelim delim ws

/-- What is before the first delimiter and what is after it, nothing if there
is none. -/
def split (delim : α) (input : List α) : List α × List α :=
  (input.takeWhile (· ≠ delim), (input.dropWhile (· ≠ delim)).tail)

theorem length_split_snd_lt (delim : α) {input : List α} (h : input ≠ []) :
    (split delim input).2.length < input.length := by
  have hle : (input.dropWhile (· ≠ delim)).length ≤ input.length :=
    (List.dropWhile_sublist (· ≠ delim)).length_le
  have hpos : 0 < input.length := List.length_pos_iff.mpr h
  unfold split
  rw [List.length_tail]
  omega

/-- The words up to the end of the text. -/
def fields (delim : α) (input : List α) : List (List α) :=
  if h : input = [] then []
  else
    have := length_split_snd_lt delim h
    (split delim input).1 :: fields delim (split delim input).2
termination_by input.length

@[simp] theorem fields_nil (delim : α) : fields delim [] = [] := by
  rw [fields, dif_pos rfl]

theorem fields_of_ne_nil (delim : α) {input : List α} (h : input ≠ []) :
    fields delim input = (split delim input).1 :: fields delim (split delim input).2 := by
  rw [fields, dif_neg h]

/-- A word that a delimiter ends. -/
theorem split_append {delim : α} {w : List α} (h : delim ∉ w) (rest : List α) :
    split delim (w ++ delim :: rest) = (w, rest) := by
  have hw : ∀ a ∈ w, decide (a ≠ delim) = true := by
    intro a ha
    exact decide_eq_true fun he => h (he ▸ ha)
  unfold split
  rw [List.takeWhile_append_of_pos hw, List.dropWhile_append_of_pos hw]
  simp

/-- A word that the text ends. -/
theorem split_self {delim : α} {w : List α} (h : delim ∉ w) : split delim w = (w, []) := by
  have hw : ∀ a ∈ w, decide (a ≠ delim) = true := by
    intro a ha
    exact decide_eq_true fun he => h (he ▸ ha)
  unfold split
  rw [List.takeWhile_eq_self_iff.mpr hw, List.dropWhile_eq_nil_iff.mpr hw]
  rfl

/-- **Words are read back** if none has the delimiter in it and none is empty. -/
theorem fields_joinDelim {delim : α} : ∀ {ws : List (List α)},
    (∀ w ∈ ws, delim ∉ w ∧ w ≠ []) → fields delim (joinDelim delim ws) = ws
  | [], _ => fields_nil delim
  | [w], h => by
    obtain ⟨hd, hne⟩ := h w List.mem_cons_self
    show fields delim w = [w]
    rw [fields_of_ne_nil delim hne, split_self hd, fields_nil]
  | w :: w' :: ws, h => by
    obtain ⟨hd, hne⟩ := h w List.mem_cons_self
    have hrest := fields_joinDelim fun v hv => h v (List.mem_cons_of_mem w hv)
    show fields delim (w ++ delim :: joinDelim delim (w' :: ws)) = _
    rw [fields_of_ne_nil delim (by simp), split_append hd, hrest]

end Words

/-! ### Numbers -/

/-- The decimal text of a number. -/
def intText (v : ℤ) : List Char :=
  if v < 0 then '-' :: Nat.toDigits 10 v.natAbs else Nat.toDigits 10 v.natAbs

/-- White space of the C locale. -/
def isSpace (c : Char) : Bool :=
  c = ' ' ∨ c = '\t' ∨ c = '\n' ∨ c.toNat = 11 ∨ c.toNat = 12 ∨ c = '\r'

/-- The sign of a number, and what is after it. -/
def readSign : List Char → Bool × List Char
  | '-' :: s => (true, s)
  | '+' :: s => (false, s)
  | s => (false, s)

/-- `strtol` in base 10 without its bounds: `none` if there is no digit. -/
def readInt (s : List Char) : Option ℤ :=
  let (negative, s) := readSign (s.dropWhile isSpace)
  let digits := s.takeWhile Char.isDigit
  if digits = [] then none
  else some (if negative then -(Nat.ofDigitChars 10 digits 0 : ℤ) else Nat.ofDigitChars 10 digits 0)

theorem isDigit_of_mem_toDigits_ten {n : ℕ} {c : Char} (h : c ∈ Nat.toDigits 10 n) : c.isDigit :=
  Nat.isDigit_of_mem_toDigits (by decide) (by decide) h

theorem intText_ne_nil (v : ℤ) : intText v ≠ [] := by
  unfold intText
  split
  · exact List.cons_ne_nil _ _
  · exact Nat.toDigits_ne_nil

theorem not_mem_intText {delim : Char} (hd : delim.isDigit = false) (hs : delim ≠ '-') (v : ℤ) :
    delim ∉ intText v := by
  have hdigits : delim ∉ Nat.toDigits 10 v.natAbs := fun h => by
    rw [isDigit_of_mem_toDigits_ten h] at hd
    cases hd
  unfold intText
  split
  · exact fun h => (List.mem_cons.mp h).elim hs hdigits
  · exact hdigits

theorem isSpace_of_isDigit {c : Char} (h : c.isDigit) : isSpace c = false := by
  simp only [Char.isDigit, Bool.and_eq_true, decide_eq_true_eq] at h
  have h48 : 48 ≤ c.toNat := UInt32.le_iff_toNat_le.mp h.1
  have hne : ∀ d : Char, d.toNat < 48 → c ≠ d := by
    intro d hd he
    rw [he] at h48
    omega
  simp only [isSpace, hne ' ' (by decide), hne '\t' (by decide), hne '\n' (by decide),
    hne '\r' (by decide), false_or, or_false, decide_eq_false_iff_not]
  omega

theorem readSign_of_isDigit {c : Char} (h : c.isDigit) (s : List Char) :
    readSign (c :: s) = (false, c :: s) := by
  unfold readSign
  split
  · rename_i heq
    cases heq
    cases h
  · rename_i heq
    cases heq
    cases h
  · rfl

/-- **A number's text** is read as the number. -/
theorem readInt_intText (v : ℤ) : readInt (intText v) = some v := by
  have hall : (Nat.toDigits 10 v.natAbs).takeWhile Char.isDigit = Nat.toDigits 10 v.natAbs :=
    List.takeWhile_eq_self_iff.mpr fun _ hc => isDigit_of_mem_toDigits_ten hc
  by_cases hv : v < 0
  · have hsign : readSign ((intText v).dropWhile isSpace) = (true, Nat.toDigits 10 v.natAbs) := by
      unfold intText
      rw [if_pos hv]
      rfl
    unfold readInt
    rw [hsign]
    simp only [hall, Nat.toDigits_ne_nil, if_false, if_true, Nat.ofDigitChars_ten_toDigits]
    exact congrArg some (by omega)
  · have hsign : readSign ((intText v).dropWhile isSpace) = (false, Nat.toDigits 10 v.natAbs) := by
      unfold intText
      rw [if_neg hv]
      obtain ⟨c, cs, hc⟩ := List.exists_cons_of_ne_nil (Nat.toDigits_ne_nil (n := v.natAbs) (b := 10))
      have hdigit : c.isDigit := isDigit_of_mem_toDigits_ten (hc ▸ List.mem_cons_self)
      rw [hc, List.dropWhile_cons_of_neg (by simp [isSpace_of_isDigit hdigit]), readSign_of_isDigit hdigit]
    unfold readInt
    rw [hsign]
    simp only [hall, Nat.toDigits_ne_nil, Bool.false_eq_true, if_false, Nat.ofDigitChars_ten_toDigits]
    exact congrArg some (by omega)

end Lib
end Cmasan
