/-
# What the call stack says of nested CMAs

`isCMAInCallStackSkipOneCMA` keeps one start address, 0 for none yet, through
two nested loops. Over ranges with nonzero starts that decides how many
different starts the frames fall into: it says true iff there are at least
two. So one CMA alone, however deep it recurses and whatever of its ranges
overlap, is not taken for a nested one, and a nested one is also what
`isCMAInCallStack` sees if the whitelist has every CMA range.

Key definitions: `isCMAInCallStack`, `matchedStarts`, `scanStarts`.
Key theorems: `scanFrames_eq`, `scanStarts_eq_none_iff`, `skipOneCMA_iff_two_starts`.
-/
import Mathlib.Data.Finset.Card
import Cmasan.Config

namespace Cmasan

/-- `isCMAInCallStack`. -/
def isCMAInCallStack (whitelistPcRange : List (ℕ × ℕ)) : List ℕ → Bool
  | [] => false
  | pc :: trace =>
    if pc = 0 then false
    else if whitelistPcRange.any fun r => r.1 ≤ usub pc 1 ∧ usub pc 1 ≤ r.2 then true
    else isCMAInCallStack whitelistPcRange trace

/-- The starts of the ranges that a PC falls into, in the table's order. -/
def startsAt (ranges : List (ℕ × ℕ)) (pc : ℕ) : List ℕ :=
  (ranges.filter fun r => r.1 ≤ pc ∧ pc ≤ r.2).map Prod.fst

/-- The starts of the ranges that the frames before the first zero PC fall
into, in the order in which the loops meet them. -/
def matchedStarts (ranges : List (ℕ × ℕ)) (trace : List ℕ) : List ℕ :=
  (trace.takeWhile (· ≠ 0)).flatMap fun pc => startsAt ranges (usub pc 1)

theorem mem_startsAt {ranges : List (ℕ × ℕ)} {pc s : ℕ} :
    s ∈ startsAt ranges pc ↔ ∃ end_, (s, end_) ∈ ranges ∧ s ≤ pc ∧ pc ≤ end_ := by
  simp [startsAt]

theorem mem_matchedStarts {ranges : List (ℕ × ℕ)} {trace : List ℕ} {s : ℕ} :
    s ∈ matchedStarts ranges trace ↔
      ∃ pc ∈ trace.takeWhile (· ≠ 0), s ∈ startsAt ranges (usub pc 1) :=
  List.mem_flatMap

@[simp] theorem matchedStarts_zero (ranges : List (ℕ × ℕ)) (trace : List ℕ) :
    matchedStarts ranges (0 :: trace) = [] := rfl

theorem matchedStarts_cons {pc : ℕ} (h : pc ≠ 0) (ranges : List (ℕ × ℕ)) (trace : List ℕ) :
    matchedStarts ranges (pc :: trace) = startsAt ranges (usub pc 1) ++ matchedStarts ranges trace := by
  unfold matchedStarts
  rw [List.takeWhile_cons_of_pos (by simpa using h), List.flatMap_cons]

/-- Both loops as one over the starts they meet. -/
def scanStarts : List ℕ → ℕ → Option ℕ
  | [], self => some self
  | s :: ss, self =>
    if self = 0 then scanStarts ss s else if self ≠ s then none else scanStarts ss self

theorem scanStarts_append : ∀ (ss ss' : List ℕ) (self : ℕ),
    scanStarts (ss ++ ss') self = (scanStarts ss self).bind (scanStarts ss')
  | [], _, _ => rfl
  | s :: ss, ss', self => by
    rw [List.cons_append, scanStarts, scanStarts, scanStarts_append ss ss' s,
      scanStarts_append ss ss' self]
    split
    · rfl
    · split <;> rfl

theorem scanRanges_eq (pc : ℕ) : ∀ (ranges : List (ℕ × ℕ)) (self : ℕ),
    scanRanges pc ranges self = scanStarts (startsAt ranges pc) self
  | [], _ => rfl
  | (start, end_) :: ranges, self => by
    unfold scanRanges
    by_cases h : start ≤ pc ∧ pc ≤ end_
    · have he : startsAt ((start, end_) :: ranges) pc = start :: startsAt ranges pc := by
        simp [startsAt, h]
      rw [if_pos h, he, scanStarts, scanRanges_eq pc ranges start, scanRanges_eq pc ranges self]
    · have he : startsAt ((start, end_) :: ranges) pc = startsAt ranges pc := by
        unfold startsAt
        rw [List.filter_cons_of_neg (by simpa using h)]
      rw [if_neg h, he]
      exact scanRanges_eq pc ranges self

/-- **The frame loop** is one scan of the matched starts. -/
theorem scanFrames_eq (ranges : List (ℕ × ℕ)) : ∀ (trace : List ℕ) (self : ℕ),
    scanFrames ranges trace self = (scanStarts (matchedStarts ranges trace) self).isNone
  | [], _ => rfl
  | pc :: trace, self => by
    unfold scanFrames
    by_cases h : pc = 0
    · subst h
      simp [scanStarts]
    · rw [if_neg h, matchedStarts_cons h, scanStarts_append, scanRanges_eq]
      cases scanStarts (startsAt ranges (usub pc 1)) self with
      | none => rfl
      | some self' => exact scanFrames_eq ranges trace self'

/-- With a first start in hand the scan stops at any other. -/
theorem scanStarts_eq_none_iff_ne {self : ℕ} (h : self ≠ 0) : ∀ ss : List ℕ,
    scanStarts ss self = none ↔ ∃ s ∈ ss, s ≠ self
  | [] => by simp [scanStarts]
  | s :: ss => by
    unfold scanStarts
    rw [if_neg h]
    by_cases he : self = s
    · subst he
      simp [scanStarts_eq_none_iff_ne h ss]
    · simp [he, Ne.symm he]

/-- **The scan** from no start stops iff two of the starts differ. The
sentinel 0 must not be one of them. -/
theorem scanStarts_eq_none_iff : ∀ {ss : List ℕ}, (∀ s ∈ ss, s ≠ 0) →
    (scanStarts ss 0 = none ↔ ∃ s ∈ ss, ∃ s' ∈ ss, s ≠ s')
  | [], _ => by simp [scanStarts]
  | s :: ss, h => by
    show scanStarts ss s = none ↔ _
    rw [scanStarts_eq_none_iff_ne (h s List.mem_cons_self)]
    constructor
    · intro ⟨s', hs', hne⟩
      exact ⟨s', List.mem_cons_of_mem _ hs', s, List.mem_cons_self, hne⟩
    · intro ⟨x, hx, y, hy, hxy⟩
      -- one of two different starts is not the first
      by_cases hxs : x = s
      · refine ⟨y, (List.mem_cons.mp hy).resolve_left ?_, ?_⟩ <;> exact fun he => hxy (hxs.trans he.symm)
      · exact ⟨x, (List.mem_cons.mp hx).resolve_left hxs, hxs⟩

theorem matchedStarts_ne_zero {ranges : List (ℕ × ℕ)} (h : ∀ r ∈ ranges, r.1 ≠ 0) (trace : List ℕ) :
    ∀ s ∈ matchedStarts ranges trace, s ≠ 0 := by
  intro s hs
  obtain ⟨pc, -, hs⟩ := mem_matchedStarts.mp hs
  obtain ⟨end_, hr, -⟩ := mem_startsAt.mp hs
  exact h _ hr

theorem two_le_card_toFinset {ss : List ℕ} :
    2 ≤ ss.toFinset.card ↔ ∃ s ∈ ss, ∃ s' ∈ ss, s ≠ s' := by
  show 1 < ss.toFinset.card ↔ _
  rw [Finset.one_lt_card]
  simp only [List.mem_toFinset]

theorem isCMAInCallStackSkipOneCMA_iff {ranges : List (ℕ × ℕ)} (h : ∀ r ∈ ranges, r.1 ≠ 0)
    (trace : List ℕ) :
    isCMAInCallStackSkipOneCMA ranges trace = true ↔ 2 ≤ (matchedStarts ranges trace).toFinset.card := by
  unfold isCMAInCallStackSkipOneCMA
  rw [scanFrames_eq, Option.isNone_iff_eq_none, two_le_card_toFinset]
  exact scanStarts_eq_none_iff (matchedStarts_ne_zero h trace)

theorem isCMAInCallStack_iff (ranges : List (ℕ × ℕ)) : ∀ trace : List ℕ,
    isCMAInCallStack ranges trace = true ↔ matchedStarts ranges trace ≠ []
  | [] => by simp [isCMAInCallStack, matchedStarts]
  | pc :: trace => by
    unfold isCMAInCallStack
    by_cases h : pc = 0
    · subst h
      simp
    · rw [if_neg h, matchedStarts_cons h]
      have hat : (ranges.any fun r => r.1 ≤ usub pc 1 ∧ usub pc 1 ≤ r.2) = true ↔
          startsAt ranges (usub pc 1) ≠ [] := by
        simp [startsAt, List.filter_eq_nil_iff]
      by_cases ha : (ranges.any fun r => r.1 ≤ usub pc 1 ∧ usub pc 1 ≤ r.2) = true
      · rw [if_pos ha]
        simp [hat.mp ha]
      · rw [if_neg ha, isCMAInCallStack_iff ranges trace, not_not.mp (mt hat.mpr ha), List.nil_append]

theorem matchedStarts_subset {ranges ranges' : List (ℕ × ℕ)} (h : ranges ⊆ ranges') (trace : List ℕ) :
    matchedStarts ranges trace ⊆ matchedStarts ranges' trace := by
  intro s hs
  obtain ⟨pc, hpc, hs⟩ := mem_matchedStarts.mp hs
  obtain ⟨end_, hr, hin⟩ := mem_startsAt.mp hs
  exact mem_matchedStarts.mpr ⟨pc, hpc, mem_startsAt.mpr ⟨end_, h hr, hin⟩⟩

/-- **`isCMAInCallStackSkipOneCMA` counts starts.** It says true iff the
frames fall into ranges with two different starts; so it says false for one
start alone, and it implies `isCMAInCallStack` on a whitelist with every CMA
range. -/
theorem skipOneCMA_iff_two_starts {cmaPcRange : List (ℕ × ℕ)} (h : ∀ r ∈ cmaPcRange, r.1 ≠ 0)
    (trace : List ℕ) :
    (isCMAInCallStackSkipOneCMA cmaPcRange trace = true ↔
      2 ≤ (matchedStarts cmaPcRange trace).toFinset.card) ∧
    (∀ s, (∀ s' ∈ matchedStarts cmaPcRange trace, s' = s) →
      isCMAInCallStackSkipOneCMA cmaPcRange trace = false) ∧
    (∀ whitelistPcRange, cmaPcRange ⊆ whitelistPcRange →
      isCMAInCallStackSkipOneCMA cmaPcRange trace = true →
      isCMAInCallStack whitelistPcRange trace = true) := by
  have hiff := isCMAInCallStackSkipOneCMA_iff h trace
  refine ⟨hiff, ?_, ?_⟩
  · intro s hs
    apply Bool.eq_false_iff.mpr
    intro ht
    obtain ⟨x, hx, y, hy, hxy⟩ := two_le_card_toFinset.mp (hiff.mp ht)
    exact hxy ((hs x hx).trans (hs y hy).symm)
  · intro whitelistPcRange hsub ht
    obtain ⟨x, hx, -⟩ := two_le_card_toFinset.mp (hiff.mp ht)
    apply (isCMAInCallStack_iff whitelistPcRange trace).mpr
    exact List.ne_nil_of_mem (matchedStarts_subset hsub trace hx)

/-- Two CMAs of which one is listed twice, seen with the whitelist that also
has a third range. -/
theorem skipOneCMA_two_cmas :
    let cmaPcRange := [(0x100, 0x1ff), (0x180, 0x1c0), (0x100, 0x1ff), (0x400, 0x4ff)]
    (isCMAInCallStackSkipOneCMA cmaPcRange [0x151, 0x901, 0x101, 0x411, 0] = true ↔
      2 ≤ (matchedStarts cmaPcRange [0x151, 0x901, 0x101, 0x411, 0]).toFinset.card) ∧
    isCMAInCallStackSkipOneCMA cmaPcRange [0x151, 0x901, 0x101] = false ∧
    isCMAInCallStack ((0x900, 0x9ff) :: cmaPcRange) [0x151, 0x901, 0x101, 0x411, 0] = true :=
  have hz : ∀ r ∈ [(0x100, 0x1ff), (0x180, 0x1c0), (0x100, 0x1ff), (0x400, 0x4ff)], r.1 ≠ 0 := by decide
  ⟨(skipOneCMA_iff_two_starts hz _).1,
    (skipOneCMA_iff_two_starts hz [0x151, 0x901, 0x101]).2.1 0x100 (by decide),
    (skipOneCMA_iff_two_starts hz [0x151, 0x901, 0x101, 0x411, 0]).2.2 _ (List.subset_cons_self _ _)
      (by decide)⟩

end Cmasan
