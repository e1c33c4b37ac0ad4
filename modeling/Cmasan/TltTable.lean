/-
# What any run of table operations keeps

`TltReachable t`: `t` is a table that some sequence of `tlt_insert`,
`tlt_update`, `tlt_release` and writes to an info's status, stack, thread and
id fields (which is all that the hooks do to an info) leaves. Every such table
satisfies `Tlt.Inv`, and in it

* `tlt_insert` changes the entries of its range and no other
  (`tltInsert_frame`), and
* a chunk info in a slot is not freed, its count is the number of slots that
  hold it, and the slot is in the range it was inserted over
  (`slot_info_counted`).

Key definitions: `TltReachable`, `Inserted`.
Key theorems: `tltStep_inv`, `Tlt.Inv.range`, `Inserted.get_cases`,
`tltInsert_frame`, `slot_info_counted`.
-/
import Cmasan.TltInsert
import Cmasan.Lib.Run

namespace Cmasan

open Lib

/-- An operation on the table. -/
inductive TltOp
  | insert (key chunkSize rzSize cmaId allocStackId tid : ℕ)
  | update (key size : ℕ) (status expected : Status) (freeStackId tid : ℕ)
  | release (key size : ℕ)
  | mark (c : ℕ) (status : Status) (freeStackId freeThreadId cmaId : ℕ)

/-- The hooks' write to an info. -/
def Tlt.mark (t : Tlt) (c : ℕ) (status : Status) (freeStackId freeThreadId cmaId : ℕ) : Tlt :=
  t.setInfo c { t.info c with status, freeStackId, freeThreadId, cmaId }

/-- One operation; `none` is a failed `CHECK` or a loop that does not end. -/
def tltStep (t : Tlt) : TltOp → Option Tlt
  | .insert key chunkSize rzSize cmaId allocStackId tid =>
    tltInsert t key chunkSize rzSize cmaId allocStackId tid
  | .update key size status expected freeStackId tid =>
    tltUpdate t key size status expected freeStackId tid
  | .release key size => tltRelease t key size
  | .mark c status freeStackId freeThreadId cmaId =>
    some (t.mark c status freeStackId freeThreadId cmaId)

/-- A run of operations from the initial table. -/
def TltRun (ops : List TltOp) (t : Tlt) : Prop := Runs tltStep (fun _ _ => True) initializeTlt ops t

/-- A table some run of operations leaves. -/
def TltReachable (t : Tlt) : Prop := ∃ ops, TltRun ops t

/-! ### Every operation keeps the invariant -/

theorem Tlt.Inv.setInfo {t : Tlt} (h : t.Inv) {c : ℕ} {i : ChunkInfo}
    (hs : i.startAddr = (t.info c).startAddr) (hz : i.chunkSize = (t.info c).chunkSize)
    (hr : i.rzSize = (t.info c).rzSize) (hc : i.cnt = (t.info c).cnt) : (t.setInfo c i).Inv := by
  have hrefs : (t.setInfo c i).refs = t.refs := by
    simp only [Tlt.refs, RefTable.mk.injEq, slot_setInfo, true_and]
    refine ⟨?_, rfl⟩
    funext c'
    simp only [Tlt.setInfo, Function.update_apply]
    split
    · subst c'; exact hc
    · rfl
  have hplace : ∀ c', ((t.setInfo c i).info c').startAddr = (t.info c').startAddr ∧
      ((t.setInfo c i).info c').chunkSize = (t.info c').chunkSize ∧
      ((t.setInfo c i).info c').rzSize = (t.info c').rzSize := by
    intro c'
    simp only [Tlt.setInfo, Function.update_apply]
    split
    · subst c'; exact ⟨hs, hz, hr⟩
    · exact ⟨rfl, rfl, rfl⟩
  refine ⟨h.wf.setInfo c i, by rw [hrefs]; exact h.balanced, h.used, fun n c' hn => ?_,
    fun n c' hn => ?_⟩
  · have := h.owns n c' hn
    unfold Owns at this ⊢
    rwa [(hplace c').1, (hplace c').2.1, (hplace c').2.2]
  · rw [(hplace c').1, (hplace c').2.1, (hplace c').2.2]
    exact h.aligned n c' hn

theorem Tlt.Inv.mark {t : Tlt} (h : t.Inv) (c : ℕ) (status : Status) (fs ft id : ℕ) :
    (t.mark c status fs ft id).Inv :=
  h.setInfo rfl rfl rfl rfl

theorem tltUpdateLoop_inv {alignedKey size : ℕ} {status expected : Status} {fs tid : ℕ} :
    ∀ fuel i {t t' : Tlt}, t.Inv →
      tltUpdateLoop alignedKey size status expected fs tid fuel i t = some t' → t'.Inv := by
  intro fuel
  induction fuel with
  | zero =>
    intro i t t' h he
    unfold tltUpdateLoop at he
    split at he
    · cases he
    · exact Option.some.inj he ▸ h
  | succ fuel ih =>
    intro i t t' h he
    unfold tltUpdateLoop at he
    split at he
    · simp only at he
      split at he
      · split at he
        · refine ih _ ?_ he
          exact h.setInfo rfl rfl rfl rfl
        · exact ih _ h he
      · exact ih _ h he
    · exact Option.some.inj he ▸ h

theorem tltReleaseWholeChunk_inv {t : Tlt} (h : t.Inv) (a : ℕ) : (tltReleaseWholeChunk t a).2.Inv := by
  unfold tltReleaseWholeChunk
  split
  · exact h.setInfo rfl rfl rfl rfl
  · exact h

theorem tltReleaseLoop_inv {alignedKey size stride : ℕ} :
    ∀ fuel i {t t' : Tlt}, t.Inv → tltReleaseLoop alignedKey size stride fuel i t = some t' → t'.Inv := by
  intro fuel
  induction fuel with
  | zero =>
    intro i t t' h he
    unfold tltReleaseLoop at he
    split at he
    · cases he
    · exact Option.some.inj he ▸ h
  | succ fuel ih =>
    intro i t t' h he
    unfold tltReleaseLoop at he
    split at he
    · refine ih _ ?_ he
      exact tltReleaseWholeChunk_inv h (uadd alignedKey i)
    · exact Option.some.inj he ▸ h

theorem tltInsert_aligned {t t' : Tlt} {key chunkSize rzSize id stack tid : ℕ} (hk : key ≠ 0)
    (he : tltInsert t key chunkSize rzSize id stack tid = some t') :
    isAligned (uadd (uadd key chunkSize) rzSize) 8 := by
  unfold tltInsert at he
  rw [if_neg hk] at he
  by_contra ha
  rw [if_neg ha] at he
  cases he

theorem tltInsert_inv {t t' : Tlt} (h : t.Inv) {key chunkSize rzSize id stack tid : ℕ}
    (he : tltInsert t key chunkSize rzSize id stack tid = some t') : t'.Inv := by
  by_cases hk : key = 0
  · unfold tltInsert at he
    rw [if_pos hk] at he
    exact Option.some.inj he ▸ h
  · obtain ⟨t₂, h₂, hi, -⟩ := tltInsert_spec h id stack tid hk (tltInsert_aligned hk he)
    exact Option.some.inj (h₂.symm.trans he) ▸ hi

theorem tltStep_inv {t t' : Tlt} {op : TltOp} (h : t.Inv) (he : tltStep t op = some t') : t'.Inv := by
  cases op with
  | insert => exact tltInsert_inv h he
  | update key size status expected fs tid =>
    simp only [tltStep, tltUpdate] at he
    split at he
    · exact Option.some.inj he ▸ h
    · exact tltUpdateLoop_inv _ _ h he
  | release key size =>
    simp only [tltStep, tltRelease] at he
    split at he
    · exact Option.some.inj he ▸ h
    · obtain ⟨t₁, h₁, h₂⟩ := Option.bind_eq_some_iff.mp he
      exact tltReleaseLoop_inv _ _ (tltReleaseLoop_inv _ _ h h₁) h₂
  | mark c status fs ft id => exact Option.some.inj he ▸ h.mark c status fs ft id

theorem TltRun.inv {ops : List TltOp} {t : Tlt} (h : TltRun ops t) : t.Inv :=
  Runs.invariant (fun hi _ he => tltStep_inv hi he) initializeTlt_inv h

theorem TltReachable.inv {t : Tlt} (h : TltReachable t) : t.Inv := h.elim fun _ hr => hr.inv

/-! ### Ranges below 2^48 -/

theorem covers_iff {key chunkSize rzSize n : ℕ} (ha : (key + chunkSize + rzSize) % 8 = 0)
    (h48 : key + chunkSize + rzSize ≤ 2 ^ 48) :
    Covers (key / 8) (roundUpTo (uadd chunkSize rzSize) 8 / 8) n ↔
      roundDownTo key 8 ≤ 8 * n ∧ 8 * n < key + chunkSize + rzSize := by
  rw [uadd_eq (by omega), roundUpTo_eight (by omega)]
  unfold Covers roundDownTo
  constructor
  · rintro ⟨k, hk, rfl⟩
    omega
  · rintro ⟨h1, h2⟩
    exact ⟨n - key / 8, by omega, by omega⟩

theorem isAligned_end_iff {key chunkSize rzSize : ℕ} (hlt : key + chunkSize + rzSize < 2 ^ 64) :
    isAligned (uadd (uadd key chunkSize) rzSize) 8 ↔ (key + chunkSize + rzSize) % 8 = 0 := by
  unfold isAligned
  rw [uadd_eq (show key + chunkSize < 2 ^ 64 by omega), uadd_eq hlt, decide_eq_true_iff]

theorem Tlt.Inv.slot_end_mod {t : Tlt} (h : t.Inv) {n c : ℕ} (hs : slot t n = some c)
    (h48 : (t.info c).endAddr ≤ 2 ^ 48) : (t.info c).endAddr % 8 = 0 := by
  unfold ChunkInfo.endAddr at h48 ⊢
  exact (isAligned_end_iff (by omega)).mp (h.aligned n c hs)

theorem Tlt.Inv.range {t : Tlt} (h : t.Inv) {n c : ℕ} (hs : slot t n = some c)
    (h48 : (t.info c).endAddr ≤ 2 ^ 48) :
    roundDownTo (t.info c).startAddr 8 ≤ 8 * n ∧ 8 * n + 8 ≤ (t.info c).endAddr := by
  have hmod := h.slot_end_mod hs h48
  unfold ChunkInfo.endAddr at h48 hmod ⊢
  have := (covers_iff hmod h48).mp (h.owns n c hs)
  omega

/-! ### Inserts -/

/-- `t'` is `t` with a new chunk, whose info is `i` but for the count, over
the granules from `lo` to below `hi`. -/
structure Inserted (t t' : Tlt) (i : ChunkInfo) (lo hi : ℕ) : Prop where
  nextInfo : t'.nextInfo = t.nextInfo + 1
  new : (t'.info t.nextInfo).core = i
  old : ∀ c, c ≠ t.nextInfo → (t'.info c).core = (t.info c).core
  inside : ∀ n, lo ≤ n → n < hi → slot t' n = some t.nextInfo
  outside : ∀ n, ¬ (lo ≤ n ∧ n < hi) → slot t' n = slot t n

theorem tltInsert_inserted {t t' : Tlt} (h : t.Inv) {key chunkSize rzSize id stack tid : ℕ} (hk : key ≠ 0)
    (ha : (key + chunkSize + rzSize) % 8 = 0) (h48 : key + chunkSize + rzSize ≤ 2 ^ 48)
    (he : tltInsert t key chunkSize rzSize id stack tid = some t') :
    Inserted t t' (newChunk key chunkSize rzSize id stack tid) (key / 8)
      ((key + chunkSize + rzSize) / 8) := by
  obtain ⟨t₁, he₁, -, hnext, hnew, hold, hin, hout⟩ := tltInsert_spec h id stack tid hk (tltInsert_aligned hk he)
  obtain rfl := Option.some.inj (he₁.symm.trans he)
  have hcov : ∀ n, Covers (key / 8) (roundUpTo (uadd chunkSize rzSize) 8 / 8) n ↔
      key / 8 ≤ n ∧ n < (key + chunkSize + rzSize) / 8 := fun n => by
    rw [covers_iff ha h48]
    unfold roundDownTo
    omega
  exact ⟨hnext, hnew, hold, fun n h1 h2 => hin n ((hcov n).mpr ⟨h1, h2⟩),
    fun n hn => hout n fun hc => hn ((hcov n).mp hc)⟩

/-- After an insert, an entry is the new chunk's, or an old one whose info is
the same but for the count. -/
theorem tltInsert_get_cases {t t' : Tlt} (h : t.Inv) {key chunkSize rzSize id stack tid a c : ℕ}
    (he : tltInsert t key chunkSize rzSize id stack tid = some t') (ha : tltGet t' a = some c) :
    (t'.info c).core = newChunk key chunkSize rzSize id stack tid ∨
      tltGet t a = some c ∧ (t'.info c).core = (t.info c).core := by
  by_cases hk : key = 0
  · unfold tltInsert at he
    rw [if_pos hk] at he
    obtain rfl := Option.some.inj he
    exact .inr ⟨ha, rfl⟩
  · by_cases hal : isAligned (uadd (uadd key chunkSize) rzSize) 8
    · obtain ⟨t₁, he₁, -, -, hnew, hold, hin, hout⟩ := tltInsert_spec h id stack tid hk hal
      obtain rfl := Option.some.inj (he₁.symm.trans he)
      obtain ⟨h0, hs, hst⟩ := tltGet_eq_some.mp ha
      by_cases hcov : Covers (key / 8) (roundUpTo (uadd chunkSize rzSize) 8 / 8) (granule a)
      · obtain rfl : t.nextInfo = c := Option.some.inj ((hin _ hcov).symm.trans hs)
        exact .inl hnew
      · rw [hout _ hcov] at hs
        have hc := hold c (h.used _ _ hs).ne
        rw [(ChunkInfo.core_eq_iff.mp hc).2.2.2.1] at hst
        exact .inr ⟨tltGet_eq_some.mpr ⟨h0, hs, hst⟩, hc⟩
    · unfold tltInsert at he
      rw [if_neg hk, if_neg hal] at he
      cases he

section Inserted

variable {t t' : Tlt} {i : ChunkInfo} {lo hi : ℕ}

theorem Inserted.get_inside (h : Inserted t t' i lo hi) (hi' : i.status ≠ .none) {a : ℕ} (ha : a ≠ 0)
    (h1 : lo ≤ granule a) (h2 : granule a < hi) : tltGet t' a = some t.nextInfo := by
  have hst : (t'.info t.nextInfo).core.status = i.status := by rw [h.new]
  exact tltGet_eq_some.mpr ⟨ha, h.inside _ h1 h2, hst ▸ hi'⟩

theorem Inserted.get_outside (h : Inserted t t' i lo hi) (ht : t.Inv) {a : ℕ}
    (ha : ¬ (lo ≤ granule a ∧ granule a < hi)) : tltGet t' a = tltGet t a := by
  unfold tltGet
  split
  · rfl
  · rw [tltGetInternal_eq, tltGetInternal_eq, h.outside _ ha]
    cases hs : slot t (granule a) with
    | none => rfl
    | some c =>
      have hlt := ht.used _ _ hs
      have hst := (ChunkInfo.core_eq_iff.mp (h.old c hlt.ne)).2.2.2.1
      simp only [Option.filter, hst]

theorem Inserted.get_cases (h : Inserted t t' i lo hi) (ht : t.Inv) (hi' : i.status ≠ .none) {a c : ℕ}
    (ha : tltGet t' a = some c) :
    (c = t.nextInfo ∧ lo ≤ granule a ∧ granule a < hi) ∨
      (c ≠ t.nextInfo ∧ tltGet t a = some c ∧ ¬ (lo ≤ granule a ∧ granule a < hi)) := by
  by_cases hr : lo ≤ granule a ∧ granule a < hi
  · rw [h.get_inside hi' (tltGet_eq_some.mp ha).1 hr.1 hr.2] at ha
    exact .inl ⟨(Option.some.inj ha).symm, hr⟩
  · rw [h.get_outside ht hr] at ha
    have := ht.used _ _ (tltGet_eq_some.mp ha).2.1
    exact .inr ⟨this.ne, ha, hr⟩

end Inserted

/-- **`tlt_insert` writes its range and nothing else.** In every reachable
table, for a range that ends, aligned, in the 48-bit space: afterwards the
addresses of the range have the new info, and every other address has the
entry it had, with the same status, start, sizes and id. -/
theorem tltInsert_frame {t : Tlt} (ht : TltReachable t)
    (key chunkSize rzSize cmaId allocStackId tid : ℕ) (hk : key ≠ 0)
    (ha : (key + chunkSize + rzSize) % 8 = 0) (h48 : key + chunkSize + rzSize ≤ 2 ^ 48) :
    ∃ t' c, tltInsert t key chunkSize rzSize cmaId allocStackId tid = some t' ∧
      (∀ a, tltGet t a ≠ some c) ∧
      (t'.info c).startAddr = key ∧ (t'.info c).chunkSize = chunkSize ∧
      (t'.info c).rzSize = rzSize ∧ (t'.info c).cmaId = cmaId ∧
      (t'.info c).status = .allocated ∧
      ∀ a, a ≠ 0 → a < 2 ^ 48 →
        (roundDownTo key 8 ≤ a ∧ a < key + chunkSize + rzSize → tltGet t' a = some c) ∧
        (¬ (roundDownTo key 8 ≤ a ∧ a < key + chunkSize + rzSize) →
          tltGet t' a = tltGet t a ∧ ∀ c', tltGet t a = some c' →
            (t'.info c').status = (t.info c').status ∧
            (t'.info c').startAddr = (t.info c').startAddr ∧
            (t'.info c').chunkSize = (t.info c').chunkSize ∧
            (t'.info c').rzSize = (t.info c').rzSize ∧ (t'.info c').cmaId = (t.info c').cmaId) := by
  have hinv := ht.inv
  obtain ⟨t', he, -⟩ := tltInsert_spec hinv cmaId allocStackId tid hk
    ((isAligned_end_iff (by omega)).mpr ha)
  have hins := tltInsert_inserted hinv hk ha h48 he
  obtain ⟨hstart, hsize, hrz, hstatus, hid, -⟩ := ChunkInfo.core_eq_iff
    (j := newChunk key chunkSize rzSize cmaId allocStackId tid).mp hins.new
  have hused : ∀ {a c}, tltGet t a = some c → c < t.nextInfo := fun hc =>
    hinv.used _ _ (tltGet_eq_some.mp hc).2.1
  refine ⟨t', t.nextInfo, he, fun a hget => (hused hget).false, hstart, hsize, hrz, hid, hstatus,
    fun a ha0 ha48 => ?_⟩
  have hg : granule a = a / 8 := Nat.mod_eq_of_lt (by omega)
  have hrange : key / 8 ≤ granule a ∧ granule a < (key + chunkSize + rzSize) / 8 ↔
      roundDownTo key 8 ≤ a ∧ a < key + chunkSize + rzSize := by
    unfold roundDownTo
    omega
  refine ⟨fun hr => ?_, fun hr => ?_⟩
  · obtain ⟨h1, h2⟩ := hrange.mpr hr
    exact hins.get_inside (by simp [newChunk]) ha0 h1 h2
  · refine ⟨hins.get_outside hinv fun h => hr (hrange.mp h), fun c' hc' => ?_⟩
    obtain ⟨h1, h2, h3, h4, h5, -⟩ := ChunkInfo.core_eq_iff.mp (hins.old c' (hused hc').ne)
    exact ⟨h4, h1, h2, h3, h5⟩

/-- A chunk over the end of one and before another. -/
theorem tltInsert_frame_overlap :
    ∃ t t' c, TltRun [.insert 13 10 17 7 0 0, .insert 256 24 8 7 0 0] t ∧ tltInsert t 24 8 8 7 0 0 = some t' ∧
      tltGet t' 24 = some c ∧ tltGet t' 39 = some c ∧ (t'.info c).startAddr = 24 ∧
      tltGet t' 8 = some 0 ∧ (t'.info 0).startAddr = 13 ∧ tltGet t' 256 = some 1 := by
  obtain ⟨t, hrun, hfirst, hstart, hsecond⟩ : ∃ t, TltRun [.insert 13 10 17 7 0 0, .insert 256 24 8 7 0 0] t ∧
      tltGet t 8 = some 0 ∧ (t.info 0).startAddr = 13 ∧ tltGet t 256 = some 1 :=
    ⟨_, .cons trivial rfl (.cons trivial rfl .nil), rfl, rfl, rfl⟩
  obtain ⟨t', c, he, -, hnew, -, -, -, -, hget⟩ :=
    tltInsert_frame ⟨_, hrun⟩ 24 8 8 7 0 0 (by decide) (by decide) (by decide)
  obtain ⟨hfirst', hold⟩ := (hget 8 (by decide) (by decide)).2 (by decide)
  refine ⟨t, t', c, hrun, he, (hget 24 (by decide) (by decide)).1 (by decide),
    (hget 39 (by decide) (by decide)).1 (by decide), hnew, hfirst'.trans hfirst, ?_, ?_⟩
  · exact (hold 0 hfirst).2.1.trans hstart
  · exact ((hget 256 (by decide) (by decide)).2 (by decide)).1.trans hsecond

/-- **Counts of chunk infos.** After any run of table operations, an info in a
slot is not freed, its count is the number of slots that hold it, and the slot
is the granule of an address of the range it was inserted over, which for a
range in the 48-bit space says that the granule is in the range. -/
theorem slot_info_counted {ops : List TltOp} {t : Tlt} (h : TltRun ops t) {n c : ℕ} (hn : n < 2 ^ 45)
    (hs : slot t n = some c) :
    t.freed c = false ∧ (t.info c).cnt ≠ 0 ∧
      (t.info c).cnt = ((Finset.range (2 ^ 45)).filter fun m => slot t m = some c).card ∧
      (∃ a, roundDownTo (t.info c).startAddr 8 ≤ a ∧ a < (t.info c).endAddr ∧ granule a = n) ∧
      ((t.info c).endAddr ≤ 2 ^ 48 →
        roundDownTo (t.info c).startAddr 8 ≤ 8 * n ∧ 8 * n + 8 ≤ (t.info c).endAddr) := by
  have hinv := h.inv
  have hmem : n ∈ Finset.range (2 ^ 45) := Finset.mem_range.mpr hn
  have hcount := hinv.balanced.count c
  have hpos := hinv.balanced.pos hmem hs rfl
  refine ⟨hinv.balanced.live n hmem c hs, hpos.ne', hcount, ?_, hinv.range hs⟩
  obtain ⟨k, hk, hkn⟩ := hinv.owns n c hs
  refine ⟨roundDownTo (t.info c).startAddr 8 + 8 * k, by omega, ?_, ?_⟩
  · unfold roundUpTo uadd at hk
    unfold ChunkInfo.endAddr roundDownTo
    omega
  · unfold granule roundDownTo
    omega

theorem slot_info_counted_overlap :
    ∃ t, TltRun [.insert 13 10 17 7 0 0, .insert 24 8 8 7 0 0] t ∧ slot t 1 = some 0 ∧
      t.freed 0 = false ∧ (t.info 0).cnt ≠ 0 := by
  obtain ⟨t, hrun, hs⟩ : ∃ t, TltRun [.insert 13 10 17 7 0 0, .insert 24 8 8 7 0 0] t ∧
      slot t 1 = some 0 := ⟨_, .cons trivial rfl (.cons trivial rfl .nil), rfl⟩
  have h := slot_info_counted hrun (by decide) hs
  exact ⟨t, hrun, hs, h.1, h.2.1⟩

end Cmasan
