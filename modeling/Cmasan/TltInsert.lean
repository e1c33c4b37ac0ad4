/-
# tlt_insert fills its range and keeps the counts

`tlt_insert` overwrites the pages of its range one at a time: each page lets
go of the info it holds, which is freed when no page holds it any more, and
takes the new info; the new info's count is paid after each second-level
table. `Filling` is what holds after `K` pages, `pend` of them not yet paid;
`Tlt.Inv` is what holds between calls. The range may be longer than the
address space: a page that is reached again already holds the new info, and
then every page does (`covers_all`), so the info survives letting go of it.

Key definitions: `Covers`, `Owns`, `Tlt.Inv`, `Filling`.
Key theorems: `Filling.page`, `tltFill_spec`, `Tlt.Inv.filled`, `tltInsert_spec`.
-/
import Cmasan.TltSlots

namespace Cmasan

open Lib

/-- Granule `n` is one of the `K` granules from `a`, around the end of the space. -/
def Covers (a K n : ℕ) : Prop := ∃ k < K, (a + k) % 2 ^ 45 = n

theorem covers_zero (a n : ℕ) : ¬ Covers a 0 n := fun ⟨_, h, _⟩ => by omega

theorem covers_succ {a K n : ℕ} : Covers a (K + 1) n ↔ Covers a K n ∨ (a + K) % 2 ^ 45 = n := by
  constructor
  · rintro ⟨k, hk, h⟩
    rcases Nat.lt_or_ge k K with hlt | hge
    · exact .inl ⟨k, hlt, h⟩
    · obtain rfl : k = K := by omega
      exact .inr h
  · rintro (⟨k, hk, h⟩ | h)
    · exact ⟨k, by omega, h⟩
    · exact ⟨K, by omega, h⟩

/-- A granule that comes again comes after every other one. -/
theorem covers_all {a K n : ℕ} (h : Covers a K ((a + K) % 2 ^ 45)) (hn : n < 2 ^ 45) :
    Covers a K n := by
  obtain ⟨k, hk, he⟩ := h
  exact ⟨(n + 2 ^ 45 - a % 2 ^ 45) % 2 ^ 45, by omega, by omega⟩

/-- The granules a chunk was inserted over. -/
def Owns (i : ChunkInfo) (n : ℕ) : Prop :=
  Covers (i.startAddr / 8) (roundUpTo (uadd i.chunkSize i.rzSize) 8 / 8) n

theorem owns_congr {i j : ChunkInfo} (h : i.core = j.core) {n : ℕ} : Owns i n ↔ Owns j n := by
  obtain ⟨h1, h2, h3, -⟩ := ChunkInfo.core_eq_iff.mp h
  unfold Owns
  rw [h1, h2, h3]

/-- What holds of the table between calls: the counts are the numbers of
slots, no slot holds a freed info, names are used in order, and a chunk's
slots are granules it was inserted over. -/
structure Tlt.Inv (t : Tlt) : Prop where
  wf : t.WF
  balanced : Balanced (Finset.range (2 ^ 45)) t.refs fun _ => 0
  used : ∀ n c, slot t n = some c → c < t.nextInfo
  owns : ∀ n c, slot t n = some c → Owns (t.info c) n
  aligned : ∀ n c, slot t n = some c →
    isAligned (uadd (uadd (t.info c).startAddr (t.info c).chunkSize) (t.info c).rzSize) 8

theorem initializeTlt_inv : initializeTlt.Inv where
  wf := initializeTlt_wf
  balanced := ⟨fun r => by simp [Tlt.refs, holders, slot, initializeTlt],
    fun n _ r h => by simp [Tlt.refs, slot, initializeTlt] at h⟩
  used n c h := by simp [slot, initializeTlt] at h
  owns n c h := by simp [slot, initializeTlt] at h
  aligned n c h := by simp [slot, initializeTlt] at h

theorem Tlt.Inv.cnt_unused {t : Tlt} (h : t.Inv) {c : ℕ} (hc : t.nextInfo ≤ c) :
    (t.info c).cnt = 0 := by
  by_contra hne
  have h1 := h.balanced.count c
  simp only [Tlt.refs, Nat.add_zero] at h1
  obtain ⟨n, hn⟩ := Finset.card_pos.mp (Nat.pos_of_ne_zero (h1 ▸ hne))
  have := h.used n c (Finset.mem_filter.mp hn).2
  omega

/-! ### The fill -/

/-- `K` pages from granule `a` were taken by `c`, and `c`'s count is still
owed for `pend` of them. -/
structure Filling (t₀ t : Tlt) (c a K pend : ℕ) : Prop where
  wf : t.WF
  slot_in : ∀ n, Covers a K n → slot t n = some c
  slot_out : ∀ n, ¬ Covers a K n → slot t n = slot t₀ n
  core : ∀ c', (t.info c').core = (t₀.info c').core
  nextInfo : t.nextInfo = t₀.nextInfo
  live : t.freed c = false
  balanced : Balanced (Finset.range (2 ^ 45)) t.refs (Function.update (fun _ => 0) c pend)

/-- **One page.** -/
theorem Filling.page {t₀ t : Tlt} {c a K pend : ℕ} (h : Filling t₀ t c a K pend)
    (hc : ∀ n, slot t₀ n ≠ some c) (hp : pend < 2 ^ 23) {tab i : ℕ}
    (ht : t.topLayerTable ((a + K) % 2 ^ 45 / 2 ^ 23) = some tab)
    (hi : i = (a + K) % 2 ^ 45 % 2 ^ 23) :
    Filling t₀ (fillPage t tab i c) c a (K + 1) (pend + 1) := by
  set n := (a + K) % 2 ^ 45 with hn
  have hn45 : n < 2 ^ 45 := Nat.mod_lt _ (by norm_num)
  have hmem : n ∈ Finset.range (2 ^ 45) := Finset.mem_range.mpr hn45
  have hrefs := fillPage_refs h.wf ht hi c
  have hslot : slot (fillPage t tab i c) = Function.update (slot t) n (some c) := by
    have h1 := congrArg RefTable.slot hrefs
    unfold RefTable.point at h1
    simp only [Tlt.refs] at h1
    rw [h1]
    cases slot t n <;> rfl
  -- a page that holds `c` is reached again, so that all pages hold `c`
  have hself : slot t n = some c → 2 ≤ (t.info c).cnt := by
    intro hs
    have hcov : Covers a K n := by
      by_contra hno
      exact hc n ((h.slot_out n hno).symm.trans hs)
    have hall : holders (Finset.range (2 ^ 45)) (slot t) c = 2 ^ 45 := by
      unfold holders
      rw [Finset.filter_true_of_mem, Finset.card_range]
      intro m hm
      exact h.slot_in m (covers_all hcov (Finset.mem_range.mp hm))
    have hcnt := h.balanced.count c
    simp only [Tlt.refs, Function.update_self] at hcnt
    omega
  have hbal := h.balanced.point hmem (r := c) h.live
    (fun r₀ _ hne => Function.update_of_ne hne _ _) hself
  rw [← hrefs, Function.update_self, Function.update_idem] at hbal
  refine ⟨fillPage_wf h.wf (h.wf.top_lt _ _ ht) i c, fun m hm => ?_, fun m hm => ?_, fun c' => ?_, ?_,
    ?_, hbal⟩
  · rw [hslot]
    rcases covers_succ.mp hm with hm | hm
    · by_cases he : m = n
      · rw [he, Function.update_self]
      · rw [Function.update_of_ne he, h.slot_in m hm]
    · rw [← hm, Function.update_self]
  · rw [covers_succ, not_or] at hm
    rw [hslot, Function.update_of_ne (fun he => hm.2 he.symm), h.slot_out m hm.1]
  · rw [fillPage_core, h.core]
  · rw [(fillPage_frame t tab i c).2.2, h.nextInfo]
  · have := hbal.live n hmem c (by simp only [Tlt.refs, hslot, Function.update_self])
    exact this

theorem Filling.pages {t₀ t : Tlt} {c a K : ℕ} (h : Filling t₀ t c a K 0)
    (hc : ∀ n, slot t₀ n ≠ some c) {tab : ℕ}
    (ht : t.topLayerTable ((a + K) % 2 ^ 45 / 2 ^ 23) = some tab) :
    ∀ n, (a + K) % 2 ^ 45 % 2 ^ 23 + n ≤ 2 ^ 23 →
      Filling t₀ (fillPages t tab ((a + K) % 2 ^ 45 % 2 ^ 23) c n) c a (K + n) n ∧
        (fillPages t tab ((a + K) % 2 ^ 45 % 2 ^ 23) c n).topLayerTable = t.topLayerTable
  | 0, _ => ⟨h, rfl⟩
  | n + 1, hn => by
    obtain ⟨ih, hl⟩ := h.pages hc ht n (by omega)
    refine ⟨ih.page hc (by omega) ?_ (by omega), ?_⟩
    · rw [hl, ← ht]
      congr 1
      omega
    · rw [← hl]
      exact (fillPage_frame _ _ _ _).1

theorem Filling.getOrCreate {t₀ t t₁ : Tlt} {c a K pend : ℕ} (h : Filling t₀ t c a K pend) {key tab i : ℕ}
    (he : tltGetOrCreatePage t key = ((tab, i), t₁)) : Filling t₀ t₁ c a K pend := by
  obtain ⟨-, -, hwf, hslot, hinfo, hfreed, hnext⟩ := tltGetOrCreatePage_spec h.wf he
  have hr : t₁.refs = t.refs := by simp only [Tlt.refs, hslot, hinfo, hfreed]
  refine ⟨hwf, ?_, ?_, ?_, ?_, ?_, ?_⟩
  · rw [hslot]
    exact h.slot_in
  · rw [hslot]
    exact h.slot_out
  · rw [hinfo]
    exact h.core
  · rw [hnext]
    exact h.nextInfo
  · rw [hfreed]
    exact h.live
  · rw [hr]
    exact h.balanced

theorem Filling.pay {t₀ t : Tlt} {c a K n : ℕ} (h : Filling t₀ t c a K n) :
    Filling t₀ (t.setInfo c { t.info c with cnt := (t.info c).cnt + n }) c a K 0 := by
  have hr : (t.setInfo c { t.info c with cnt := (t.info c).cnt + n }).refs = t.refs.credit c n := by
    simp only [Tlt.refs, Tlt.setInfo, RefTable.credit, RefTable.mk.injEq, and_true]
    refine ⟨rfl, ?_⟩
    funext c'
    simp only [Function.update_apply]
    split <;> rfl
  have hpay := h.balanced.credit (r := c) (k := n) (by simp)
  rw [Function.update_self, Nat.sub_self, Function.update_idem] at hpay
  refine ⟨h.wf.setInfo c _, h.slot_in, h.slot_out, fun c' => ?_, h.nextInfo, h.live, hr ▸ hpay⟩
  rw [← h.core c']
  simp only [Tlt.setInfo, Function.update_apply]
  split
  · rename_i he
    rw [he]
    rfl
  · rfl

/-- **The fill loop** returns with every page of the range taken and paid. -/
theorem tltFill_spec {t₀ : Tlt} {c alignedKey alignedSize : ℕ} (hc : ∀ n, slot t₀ n ≠ some c)
    (hk : alignedKey % 8 = 0) (hs : alignedSize % 8 = 0) :
    ∀ fuel offset t, offset % 8 = 0 → offset ≤ alignedSize → alignedSize - offset ≤ 8 * fuel →
      Filling t₀ t c (alignedKey / 8) (offset / 8) 0 →
      ∃ t', tltFill c alignedKey alignedSize fuel offset t = some t' ∧
        Filling t₀ t' c (alignedKey / 8) (alignedSize / 8) 0 := by
  intro fuel
  induction fuel with
  | zero =>
    intro offset t ho hle hf h
    obtain rfl : offset = alignedSize := by omega
    exact ⟨t, by simp [tltFill], h⟩
  | succ fuel ih =>
    intro offset t ho hle hf h
    unfold tltFill
    by_cases hlt : offset < alignedSize
    · rw [if_pos hlt]
      rcases hg : tltGetOrCreatePage t (uadd alignedKey offset) with ⟨⟨tab, j⟩, t₁⟩
      have hgran : granule (uadd alignedKey offset) = (alignedKey / 8 + offset / 8) % 2 ^ 45 := by
        unfold granule uadd
        omega
      have ht := (tltGetOrCreatePage_spec h.wf hg).2.1
      rw [hgran] at ht
      simp only [secondIdx_eq, hgran, Nat.shiftRight_eq_div_pow, Nat.shiftLeft_eq]
      set g := (alignedKey / 8 + offset / 8) % 2 ^ 45 with hgdef
      -- the pages up to the end of the range or of the table
      set n := min (0x800000 - g % 2 ^ 23) ((alignedSize - offset) / 2 ^ 3) with hndef
      have hpages := ((h.getOrCreate hg).pages hc ht n (by omega)).1.pay
      have hK : offset / 8 + n = (offset + n * 2 ^ 3) / 8 := by omega
      rw [← hgdef, hK] at hpages
      exact ih (offset + n * 2 ^ 3) _ (by omega) (by omega) (by omega) hpages
    · obtain rfl : offset = alignedSize := by omega
      rw [if_neg hlt]
      exact ⟨t, rfl, h⟩

/-! ### tlt_insert -/

theorem roundUpTo_mod (x : ℕ) : roundUpTo x 8 % 8 = 0 := by
  unfold roundUpTo
  omega

/-- The info `tlt_insert` writes. -/
def newChunk (key chunkSize rzSize cmaId allocStackId tid : ℕ) : ChunkInfo :=
  ⟨key, chunkSize, rzSize, .allocated, cmaId, allocStackId, tid, 0, kInvalidTid, 0⟩

section Insert

variable {t : Tlt} (h : t.Inv)
include h

theorem Tlt.Inv.newInfo_filling (d : ChunkInfo) (hd : d.cnt = 0) (a : ℕ) :
    Filling (t.newInfo d).2 (t.newInfo d).2 t.nextInfo a 0 0 := by
  refine ⟨⟨h.wf.top_lt, h.wf.top_inj, h.wf.unused⟩, fun n hn => absurd hn (covers_zero a n),
    fun _ _ => rfl, fun _ => rfl, rfl, Function.update_self .., ?_⟩
  rw [Function.update_eq_self_iff.mpr rfl]
  refine ⟨fun r => ?_, fun n hn r hr => ?_⟩
  · have h1 := h.balanced.count r
    simp only [Tlt.refs, Tlt.newInfo, Function.update_apply] at h1 ⊢
    split
    · subst r
      rw [h.cnt_unused (le_refl _)] at h1
      rw [hd]
      exact h1
    · exact h1
  · have hlt : r < t.nextInfo := h.used n r hr
    simp only [Tlt.refs, Tlt.newInfo, Function.update_of_ne hlt.ne]
    exact h.balanced.live n hn r hr

/-- A slot after the fill is of the range and holds the new info, or is as it was. -/
theorem Tlt.Inv.filled_slot {t' : Tlt} {d : ChunkInfo} {a K n c : ℕ}
    (hf : Filling (t.newInfo d).2 t' t.nextInfo a K 0) (hn : slot t' n = some c) :
    c = t.nextInfo ∧ Covers a K n ∨ c < t.nextInfo ∧ slot t n = some c := by
  by_cases hcov : Covers a K n
  · exact .inl ⟨Option.some.inj (hn.symm.trans (hf.slot_in n hcov)), hcov⟩
  · have hn' : slot t n = some c := (hf.slot_out n hcov).symm.trans hn
    exact .inr ⟨h.used n c hn', hn'⟩

/-- **The table after the fill** with an info whose range it is. -/
theorem Tlt.Inv.filled {t' : Tlt} {d : ChunkInfo} {a K : ℕ}
    (hf : Filling (t.newInfo d).2 t' t.nextInfo a K 0) (howns : ∀ n, Covers a K n → Owns d n)
    (ha : isAligned (uadd (uadd d.startAddr d.chunkSize) d.rzSize) 8) :
    t'.Inv ∧ (t'.info t.nextInfo).core = d.core ∧
      ∀ c, c ≠ t.nextInfo → (t'.info c).core = (t.info c).core := by
  have hcore : ∀ c, c ≠ t.nextInfo → (t'.info c).core = (t.info c).core := fun c hne => by
    rw [hf.core c]
    simp only [Tlt.newInfo, Function.update_of_ne hne]
  have hnew : (t'.info t.nextInfo).core = d.core := by
    rw [hf.core]
    simp only [Tlt.newInfo, Function.update_self]
  have hbalanced := hf.balanced
  rw [Function.update_eq_self_iff.mpr rfl] at hbalanced
  have hnext : t'.nextInfo = t.nextInfo + 1 := hf.nextInfo
  refine ⟨⟨hf.wf, hbalanced, fun n c hn => ?_, fun n c hn => ?_, fun n c hn => ?_⟩, hnew, hcore⟩
  · rcases h.filled_slot hf hn with ⟨rfl, -⟩ | ⟨hlt, -⟩ <;> omega
  · rcases h.filled_slot hf hn with ⟨rfl, hcov⟩ | ⟨hlt, hn'⟩
    · exact (owns_congr hnew).mpr (howns n hcov)
    · exact (owns_congr (hcore c hlt.ne)).mpr (h.owns n c hn')
  · rcases h.filled_slot hf hn with ⟨rfl, -⟩ | ⟨hlt, hn'⟩
    · obtain ⟨h1, h2, h3, -⟩ := ChunkInfo.core_eq_iff.mp hnew
      rw [h1, h2, h3]
      exact ha
    · obtain ⟨h1, h2, h3, -⟩ := ChunkInfo.core_eq_iff.mp (hcore c hlt.ne)
      rw [h1, h2, h3]
      exact h.aligned n c hn'

/-- **`tlt_insert`** returns; the granules of its range, and only they, change
to the new info, and no other info changes but in its count. -/
theorem tltInsert_spec {key chunkSize rzSize : ℕ} (cmaId allocStackId tid : ℕ) (hk : key ≠ 0)
    (ha : isAligned (uadd (uadd key chunkSize) rzSize) 8) :
    ∃ t', tltInsert t key chunkSize rzSize cmaId allocStackId tid = some t' ∧ t'.Inv ∧
      t'.nextInfo = t.nextInfo + 1 ∧
      (t'.info t.nextInfo).core = newChunk key chunkSize rzSize cmaId allocStackId tid ∧
      (∀ c, c ≠ t.nextInfo → (t'.info c).core = (t.info c).core) ∧
      (∀ n, Covers (key / 8) (roundUpTo (uadd chunkSize rzSize) 8 / 8) n →
        slot t' n = some t.nextInfo) ∧
      (∀ n, ¬ Covers (key / 8) (roundUpTo (uadd chunkSize rzSize) 8 / 8) n → slot t' n = slot t n) := by
  set d := newChunk key chunkSize rzSize cmaId allocStackId tid with hd
  set size := roundUpTo (uadd chunkSize rzSize) 8 with hsize
  have hs8 : size % 8 = 0 := roundUpTo_mod _
  have hk8 : roundDownTo key 8 % 8 = 0 := by unfold roundDownTo; omega
  have hkd : roundDownTo key 8 / 8 = key / 8 := by unfold roundDownTo; omega
  have hc : ∀ n, slot (t.newInfo d).2 n ≠ some t.nextInfo := fun n hn => by
    have := h.used n t.nextInfo hn
    omega
  obtain ⟨t', ht', hf⟩ := tltFill_spec hc hk8 hs8
    (size / 8) 0 (t.newInfo d).2 rfl (Nat.zero_le _) (by omega) (h.newInfo_filling d rfl _)
  rw [hkd] at hf
  obtain ⟨hi, hnew, hcore⟩ := h.filled hf (fun _ hcov => hcov) ha
  refine ⟨t', ?_, hi, hf.nextInfo, hnew, hcore, hf.slot_in, hf.slot_out⟩
  unfold tltInsert
  rw [if_neg hk, if_pos ha]
  exact ht'

end Insert

end Cmasan
