/-
# Text as a script handles it

What the scripts use of Python's `str`: `split` at a doubled delimiter
(`splitDouble`), `strip`, `find`, slices with negative indices, and `int` of a
numeral in a base, for ASCII text. Pieces that have no doubled delimiter and
do not end in one are split off as they are (`splitDouble_append`), the text
between two brackets is what the slice between their positions gives
(`slice_between`), and a list of digits has its value (`pyInt_digits`).

Key definitions: `splitDouble`, `strip`, `find`, `slice`, `pyInt`.
Key theorems: `splitDouble_append`, `splitOn_joinDelim`, `rdropWhile_append_cons`,
`slice_between`, `pyInt_digits`.
-/
import Mathlib.Data.List.DropRight
import Cmasan.Lib.Delimited

namespace Cmasan
namespace Lib

/-! ### Splitting -/

section Split

variable {α : Type*}

/-- `split` at two delimiters in a row. -/
def splitDouble [DecidableEq α] (d : α) : List α → List (List α)
  | a :: b :: cs =>
    if a = d ∧ b = d then [] :: splitDouble d cs else (splitDouble d (b :: cs)).modifyHead (a :: ·)
  | [a] => [[a]]
  | [] => [[]]

/-- Not two delimiters in a row. -/
def NoDouble (d a b : α) : Prop := ¬ (a = d ∧ b = d)

theorem splitDouble_cons [DecidableEq α] {d a b : α} (h : NoDouble d a b) (cs : List α) :
    splitDouble d (a :: b :: cs) = (splitDouble d (b :: cs)).modifyHead (a :: ·) := by
  rw [splitDouble, if_neg h]

/-- **A piece** before a doubled delimiter is split off. -/
theorem splitDouble_append [DecidableEq α] {d : α} (rest : List α) : ∀ {p : List α}, (p ++ [d]).IsChain (NoDouble d) →
    splitDouble d (p ++ d :: d :: rest) = p :: splitDouble d rest
  | [], _ => by
    show splitDouble d (d :: d :: rest) = _
    rw [splitDouble, if_pos ⟨rfl, rfl⟩]
  | [a], h => by
    have ha : NoDouble d a d := (List.isChain_cons_cons.mp h).1
    show splitDouble d (a :: d :: d :: rest) = _
    rw [splitDouble_cons ha, splitDouble, if_pos ⟨rfl, rfl⟩]
    rfl
  | a :: b :: p, h => by
    obtain ⟨hab, htail⟩ := List.isChain_cons_cons.mp h
    have ih := splitDouble_append rest (p := b :: p) htail
    show splitDouble d (a :: b :: (p ++ d :: d :: rest)) = _
    rw [splitDouble_cons hab]
    exact congrArg (List.modifyHead (a :: ·)) ih

theorem splitDouble_self [DecidableEq α] {d : α} : ∀ {p : List α}, p.IsChain (NoDouble d) → splitDouble d p = [p]
  | [], _ => rfl
  | [_], _ => rfl
  | a :: b :: p, h => by
    obtain ⟨hab, htail⟩ := List.isChain_cons_cons.mp h
    rw [splitDouble_cons hab, splitDouble_self htail]
    rfl

theorem isChain_line_append {d : α} {rest : List α} (hrest : (d :: rest).IsChain (NoDouble d)) :
    ∀ {l : List α}, d ∉ l → l ≠ [] → (l ++ d :: rest).IsChain (NoDouble d)
  | [a], h, _ => by
    refine List.isChain_cons_cons.mpr ⟨fun he => ?_, hrest⟩
    exact h (List.mem_singleton.mpr he.1.symm)
  | a :: b :: l, h, _ => by
    have htail := isChain_line_append hrest (l := b :: l)
      (fun hd => h (List.mem_cons_of_mem a hd)) (List.cons_ne_nil b l)
    refine List.isChain_cons_cons.mpr ⟨fun he => ?_, htail⟩
    exact h (he.1 ▸ List.mem_cons_self)

theorem exists_joinDelim_cons (d c : α) (l : List α) (ls : List (List α)) :
    ∃ s, joinDelim d ((c :: l) :: ls) = c :: s := by
  cases ls with
  | nil => exact ⟨l, rfl⟩
  | cons l' ls => exact ⟨l ++ d :: joinDelim d (l' :: ls), rfl⟩

/-- Lines that are not empty have no doubled delimiter between them. -/
theorem isChain_joinDelim {d : α} : ∀ {ls : List (List α)}, (∀ l ∈ ls, d ∉ l ∧ l ≠ []) → ls ≠ [] →
    (joinDelim d ls ++ [d]).IsChain (NoDouble d)
  | [l], h, _ => isChain_line_append (.singleton d) (h l List.mem_cons_self).1
      (h l List.mem_cons_self).2
  | l :: l' :: ls, h, _ => by
    have htail : (joinDelim d (l' :: ls) ++ [d]).IsChain (NoDouble d) :=
      isChain_joinDelim (fun m hm => h m (List.mem_cons_of_mem l hm)) (List.cons_ne_nil l' ls)
    obtain ⟨hd, hne⟩ := h l' (List.mem_cons_of_mem l List.mem_cons_self)
    show ((l ++ d :: joinDelim d (l' :: ls)) ++ [d]).IsChain (NoDouble d)
    rw [List.append_assoc, List.cons_append]
    refine isChain_line_append ?_ (h l List.mem_cons_self).1 (h l List.mem_cons_self).2
    -- the next line starts with something else
    obtain ⟨b, bs, rfl⟩ := List.exists_cons_of_ne_nil hne
    obtain ⟨cs, hcs⟩ := exists_joinDelim_cons d b bs ls
    rw [hcs] at htail ⊢
    refine List.isChain_cons_cons.mpr ⟨fun he => ?_, htail⟩
    exact hd (he.2 ▸ List.mem_cons_self)

theorem joinDelim_concat {d : α} (l : List α) : ∀ {ls : List (List α)}, ls ≠ [] →
    joinDelim d (ls ++ [l]) = joinDelim d ls ++ d :: l
  | [_], _ => rfl
  | l₁ :: l₂ :: ls, _ => by
    show l₁ ++ d :: joinDelim d ((l₂ :: ls) ++ [l]) = (l₁ ++ d :: joinDelim d (l₂ :: ls)) ++ d :: l
    rw [joinDelim_concat l (List.cons_ne_nil l₂ ls), List.append_assoc, List.cons_append]

/-- Lines are split where they were joined. -/
theorem splitOn_joinDelim [DecidableEq α] {d : α} : ∀ {ls : List (List α)}, (∀ l ∈ ls, d ∉ l) →
    ls ≠ [] → (joinDelim d ls).splitOn d = ls
  | [l], h, _ => List.splitOn_eq_singleton (h l List.mem_cons_self)
  | l :: l' :: ls, h, _ => by
    show (l ++ d :: joinDelim d (l' :: ls)).splitOn d = _
    rw [List.splitOn_append_cons_self_of_not_mem (h l List.mem_cons_self),
      splitOn_joinDelim (fun m hm => h m (List.mem_cons_of_mem l hm)) (List.cons_ne_nil l' ls)]

/-- Lines with a newline after each are split so, with nothing behind the last one. -/
theorem splitOn_lines [DecidableEq α] {d : α} : ∀ {ls : List (List α)}, (∀ l ∈ ls, d ∉ l) →
    (ls.flatMap (· ++ [d])).splitOn d = ls ++ [[]]
  | [], _ => List.splitOn_nil d
  | l :: ls, h => by
    have hrest : (ls.flatMap (· ++ [d])).splitOn d = ls ++ [[]] :=
      splitOn_lines fun m hm => h m (List.mem_cons_of_mem l hm)
    rw [List.flatMap_cons, List.append_assoc, List.singleton_append,
      List.splitOn_append_cons_self_of_not_mem (h l List.mem_cons_self), hrest, List.cons_append]

end Split

/-! ### Stripping -/

/-- `strip` of the characters that `p` holds of. -/
def strip (p : Char → Bool) (s : List Char) : List Char := (s.dropWhile p).rdropWhile p

theorem strip_eq_rdropWhile {p : Char → Bool} {c : Char} (h : p c = false) (s : List Char) :
    strip p (c :: s) = (c :: s).rdropWhile p := by
  unfold strip
  rw [List.dropWhile_cons_of_neg (by simp [h])]

theorem rdropWhile_append_of_pos {p : Char → Bool} (s : List Char) : ∀ {t : List Char},
    (∀ c ∈ t, p c) → (s ++ t).rdropWhile p = s.rdropWhile p := by
  intro t
  induction t using List.reverseRecOn with
  | nil => intro _; rw [List.append_nil]
  | append_singleton t c ih =>
    intro h
    rw [← List.append_assoc, List.rdropWhile_concat_pos p _ _ (h c (by simp))]
    exact ih fun c' hc' => h c' (List.mem_append_left _ hc')

/-- What is before a character that stays, stays. -/
theorem rdropWhile_append_cons {p : Char → Bool} {c : Char} (h : p c = false) (s : List Char) :
    ∀ t : List Char, (s ++ c :: t).rdropWhile p = s ++ c :: t.rdropWhile p := by
  intro t
  induction t using List.reverseRecOn with
  | nil => rw [List.rdropWhile_concat_neg p _ _ (by simp [h]), List.rdropWhile_nil]
  | append_singleton t d ih =>
    have he : s ++ c :: (t ++ [d]) = (s ++ c :: t) ++ [d] := by simp
    rw [he]
    by_cases hd : p d
    · rw [List.rdropWhile_concat_pos p _ _ hd, List.rdropWhile_concat_pos p _ _ hd, ih]
    · rw [List.rdropWhile_concat_neg p _ _ hd, List.rdropWhile_concat_neg p _ _ hd]
      simp

/-! ### Positions -/

section Positions

variable {α : Type*}

/-- `find` of one character, -1 if it is not there. -/
def find [DecidableEq α] (c : α) (s : List α) : ℤ := if c ∈ s then s.idxOf c else -1

/-- An index of a slice; a negative one counts from the end. -/
def sliceIndex (n : ℕ) (i : ℤ) : ℕ := if i < 0 then (n + i).toNat else min i.toNat n

/-- `s[a:b]`. -/
def slice (s : List α) (a b : ℤ) : List α := (s.take (sliceIndex s.length b)).drop (sliceIndex s.length a)

theorem find_append_cons [DecidableEq α] {c : α} {s : List α} (h : c ∉ s) (t : List α) :
    find c (s ++ c :: t) = s.length := by
  unfold find
  rw [if_pos (by simp), List.idxOf_append_of_notMem h, List.idxOf_cons_self, Nat.add_zero]

theorem sliceIndex_natCast {n i : ℕ} (h : i ≤ n) : sliceIndex n i = i := by
  unfold sliceIndex
  rw [if_neg (by omega), Int.toNat_natCast, Nat.min_eq_left h]

theorem slice_of_le {s : List α} {a b : ℕ} (ha : a ≤ s.length) (hb : b ≤ s.length) :
    slice s a b = (s.take b).drop a := by
  unfold slice
  rw [sliceIndex_natCast ha, sliceIndex_natCast hb]

/-- **What two brackets enclose** is the slice between where they are found. -/
theorem slice_between [DecidableEq α] {o c : α} {s t u : List α} (ho : o ∉ s) (hs : c ∉ s) (ht : c ∉ t) (hoc : c ≠ o) :
    slice (s ++ o :: (t ++ c :: u)) (find o (s ++ o :: (t ++ c :: u)) + 1)
      (find c (s ++ o :: (t ++ c :: u))) = t := by
  have hopen : find o (s ++ o :: (t ++ c :: u)) = s.length := find_append_cons ho _
  have hclose : find c (s ++ o :: (t ++ c :: u)) = ((s.length + (t.length + 1) : ℕ) : ℤ) := by
    have he : s ++ o :: (t ++ c :: u) = (s ++ o :: t) ++ c :: u := by simp
    have hn : c ∉ s ++ o :: t := by simp [hs, ht, hoc]
    rw [he, find_append_cons hn]
    simp
  have hsucc : (s.length : ℤ) + 1 = ((s.length + 1 : ℕ) : ℤ) := by omega
  rw [hopen, hclose, hsucc, slice_of_le (by simp) (by simp)]
  have he : s ++ o :: (t ++ c :: u) = (s ++ o :: t) ++ c :: u := by simp
  have hl : s.length + (t.length + 1) = (s ++ o :: t).length := by simp
  rw [he, hl, List.take_left]
  have hl' : s.length + 1 = (s ++ [o]).length := by simp
  have he' : s ++ o :: t = (s ++ [o]) ++ t := by simp
  rw [he', hl', List.drop_left]

end Positions

/-! ### Numerals -/

/-- The value of a digit or a letter as a digit. -/
def digitOf (c : Char) : Option ℕ :=
  if '0' ≤ c ∧ c ≤ '9' then some (c.toNat - 48)
  else if 'a' ≤ c ∧ c ≤ 'z' then some (c.toNat - 87)
  else if 'A' ≤ c ∧ c ≤ 'Z' then some (c.toNat - 55)
  else none

/-- Digits with single underscores between them; `inner` says that an
underscore may come, and the end. -/
def readDigits (base : ℕ) : ℕ → Bool → List Char → Option ℕ
  | v, inner, [] => if inner then some v else none
  | v, inner, c :: cs =>
    if c = '_' then if inner then readDigits base v false cs else none
    else match digitOf c with
      | some d => if d < base then readDigits base (v * base + d) true cs else none
      | none => none

/-- The prefix that base 16 may have. -/
def skipPrefix (base : ℕ) : List Char → List Char
  | '0' :: c :: s =>
    if base = 16 ∧ (c = 'x' ∨ c = 'X') then
      match s with
      | '_' :: s' => s'
      | _ => s
    else '0' :: c :: s
  | s => s

/-- `int(s, base)`, `none` where it raises. Digits and white space are those of
ASCII; Python also takes other Unicode digits and blanks. -/
def pyInt (base : ℕ) (s : List Char) : Option ℤ :=
  let (negative, s) := readSign (strip isSpace s)
  (readDigits base 0 false (skipPrefix base s)).map fun v => if negative then -(v : ℤ) else v

/-- A digit of the base. -/
def isDigitOf (base : ℕ) (c : Char) : Bool := (digitOf c).any (· < base)

/-- The value of digits. -/
def digitsValue (base : ℕ) (s : List Char) : ℕ := s.foldl (fun v c => v * base + (digitOf c).getD 0) 0

theorem readDigits_digits {base : ℕ} : ∀ {s : List Char} (v : ℕ) (inner : Bool),
    (∀ c ∈ s, isDigitOf base c) → (s = [] → inner) →
    readDigits base v inner s = some (s.foldl (fun v c => v * base + (digitOf c).getD 0) v)
  | [], v, inner, _, h => by
    rw [readDigits, if_pos (h rfl)]
    rfl
  | c :: s, v, inner, hs, _ => by
    have hc := hs c List.mem_cons_self
    have hne : c ≠ '_' := by
      rintro rfl
      cases hc
    unfold isDigitOf at hc
    obtain ⟨d, hd, hlt⟩ := (Option.any_eq_true _ _).mp hc
    have hlt : d < base := of_decide_eq_true hlt
    rw [readDigits, if_neg hne, hd]
    dsimp only
    rw [if_pos hlt, readDigits_digits _ true (fun c' hc' => hs c' (List.mem_cons_of_mem c hc'))
      (fun _ => rfl), List.foldl_cons, hd]
    rfl

theorem digitOf_of_toNat_lt {c : Char} (h : c.toNat < 48) : digitOf c = none := by
  have hlow : ∀ d : Char, 48 ≤ d.toNat → ¬ d ≤ c := by
    intro d hd hle
    have : d.toNat ≤ c.toNat := UInt32.le_iff_toNat_le.mp hle
    omega
  unfold digitOf
  rw [if_neg (fun he => hlow '0' (by decide) he.1), if_neg (fun he => hlow 'a' (by decide) he.1),
    if_neg (fun he => hlow 'A' (by decide) he.1)]

theorem ne_of_isDigitOf {base : ℕ} {c d : Char} (h : isDigitOf base c) (hd : isDigitOf base d = false) :
    c ≠ d := by
  intro he
  rw [he, hd] at h
  cases h

theorem isSpace_of_isDigitOf {base : ℕ} {c : Char} (h : isDigitOf base c) : isSpace c = false := by
  by_contra hs
  have hs : isSpace c = true := by simpa using hs
  unfold isSpace at hs
  have hnone : digitOf c = none := by
    unfold digitOf
    rcases of_decide_eq_true hs with rfl | rfl | rfl | hn | hn | rfl
    · rfl
    · rfl
    · rfl
    · exact digitOf_of_toNat_lt (by omega)
    · exact digitOf_of_toNat_lt (by omega)
    · rfl
  rw [isDigitOf, hnone] at h
  cases h

theorem readSign_of_isDigitOf {base : ℕ} {c : Char} (h : isDigitOf base c) (s : List Char) :
    readSign (c :: s) = (false, c :: s) := by
  unfold readSign
  split
  · rename_i heq
    cases heq
    cases h
  · rename_i heq
    cases heq
    cases h
  · rfl

theorem skipPrefix_of_isDigitOf {base : ℕ} {s : List Char} (h : ∀ c ∈ s, isDigitOf base c) :
    skipPrefix base s = s := by
  unfold skipPrefix
  split
  · rename_i c s'
    rw [if_neg]
    -- the letter of the prefix is no digit of base 16
    intro ⟨hb, hx⟩
    subst hb
    have hc := h c (by simp)
    rcases hx with rfl | rfl <;> cases hc
  · rfl

/-- **Digits are read as their value.** -/
theorem pyInt_digits {base : ℕ} {s : List Char} (h : ∀ c ∈ s, isDigitOf base c) (hne : s ≠ []) :
    pyInt base s = some (digitsValue base s : ℤ) := by
  have hstrip : strip isSpace s = s := by
    unfold strip
    obtain ⟨c, cs, rfl⟩ := List.exists_cons_of_ne_nil hne
    rw [List.dropWhile_cons_of_neg (by simp [isSpace_of_isDigitOf (h c List.mem_cons_self)]),
      List.rdropWhile_eq_self_iff]
    intro hl
    simp [isSpace_of_isDigitOf (h _ (List.getLast_mem hl))]
  have hsign : readSign s = (false, s) := by
    obtain ⟨c, cs, rfl⟩ := List.exists_cons_of_ne_nil hne
    exact readSign_of_isDigitOf (h c List.mem_cons_self) cs
  unfold pyInt
  rw [hstrip, hsign]
  dsimp only
  rw [skipPrefix_of_isDigitOf h, readDigits_digits 0 false h (fun he => absurd he hne)]
  rfl

end Lib
end Cmasan
