/-
# What tlt_release leaves in a block

`tlt_release(key, size, s)` is to forget every chunk in `[key, key + size)`.
Its loops add the offset `i` to the block's address, but store into `i` what
`_tlt_release_whole_chunk` returns: an address, and for a chunk that was there
even `(end - 1) << 3` in place of `end - 8`, since the macro
`tlt_info_granularity` is `1 << 3` without parentheses. So the loops land on
few addresses of the block (`landings`), and only the chunks that own one of
them are forgotten: the block is clean exactly when these are all its chunks
(`tltRelease_clean_iff`). A block that does not lie below its own size is
looked at in two places only, its first granule and the first granule after
its last whole 32 bytes (`landed_high`).

Key definitions: `Tlt.forget`, `landings`, `Landed`.
Key theorems: `tltReleaseLoop_eq`, `landings_ends`, `tltRelease_eq`,
`tltRelease_clean_iff`.
-/
import Cmasan.TltTable
import Mathlib.Data.List.Perm.Subperm

namespace Cmasan

open Lib

/-- The table with the infos of `seen` at status `NONE`. -/
def Tlt.forget (t : Tlt) (seen : List ℕ) : Tlt :=
  { t with info := fun c => if c ∈ seen then { t.info c with status := .none } else t.info c }

/-- The chunks that a loop of `tlt_release` lands on, starting at offset `i`
and having landed on `seen` before; latest first. -/
def landings (t : Tlt) (alignedKey size stride : ℕ) : ℕ → ℕ → List ℕ → Option (List ℕ)
  | fuel, i, seen =>
    if i < size then
      match fuel with
      | 0 => none
      | fuel + 1 =>
        match (tltGetInternal t (uadd alignedKey i)).filter (· ∉ seen) with
        | some c =>
          let endAddr := uadd (uadd (t.info c).startAddr (t.info c).chunkSize) (t.info c).rzSize
          landings t alignedKey size stride fuel
            (uadd ((usub endAddr 1 <<< 3) % 2 ^ 64) stride) (c :: seen)
        | none => landings t alignedKey size stride fuel (uadd (uadd alignedKey i) stride) seen
    else some seen

theorem tltGetInternal_forget (t : Tlt) (seen : List ℕ) (a : ℕ) :
    tltGetInternal (t.forget seen) a = (tltGetInternal t a).filter (· ∉ seen) := by
  have hs : slot (t.forget seen) = slot t := rfl
  rw [tltGetInternal_eq, tltGetInternal_eq, hs, Option.filter_filter]
  cases slot t (granule a) with
  | none => rfl
  | some c =>
    by_cases hc : c ∈ seen <;> simp [Option.filter, Tlt.forget, hc]

theorem forget_cons (t : Tlt) (seen : List ℕ) {c : ℕ} (hc : c ∉ seen) :
    (t.forget seen).setInfo c { (t.forget seen).info c with status := .none } =
      t.forget (c :: seen) := by
  simp only [Tlt.setInfo, Tlt.forget, Tlt.mk.injEq, true_and, and_true]
  funext c'
  simp only [Function.update_apply, List.mem_cons]
  by_cases he : c' = c
  · subst he
    simp [hc]
  · simp [he]

/-- **A loop of `tlt_release` forgets the chunks it lands on.** -/
theorem tltReleaseLoop_eq (t : Tlt) (alignedKey size stride : ℕ) : ∀ fuel i seen,
    tltReleaseLoop alignedKey size stride fuel i (t.forget seen) =
      (landings t alignedKey size stride fuel i seen).map t.forget := by
  intro fuel
  induction fuel with
  | zero =>
    intro i seen
    unfold tltReleaseLoop landings
    split <;> rfl
  | succ fuel ih =>
    intro i seen
    unfold tltReleaseLoop landings
    by_cases hi : i < size
    · rw [if_pos hi, if_pos hi]
      unfold tltReleaseWholeChunk
      rw [tltGetInternal_forget]
      cases hg : (tltGetInternal t (uadd alignedKey i)).filter (· ∉ seen) with
      | none => exact ih _ seen
      | some c =>
        have hc : c ∉ seen := by simpa using (Option.filter_eq_some_iff.mp hg).2
        have hinfo : (t.forget seen).info c = t.info c := by simp [Tlt.forget, hc]
        simp only [forget_cons t seen hc]
        rw [hinfo]
        exact ih _ (c :: seen)
    · rw [if_neg hi, if_neg hi]
      rfl

/-- The chunks seen are distinct chunks of the table. -/
def SeenOk (t : Tlt) (seen : List ℕ) : Prop := seen.Nodup ∧ ∀ c ∈ seen, c < t.nextInfo

theorem SeenOk.length_le {t : Tlt} {seen : List ℕ} (h : SeenOk t seen) : seen.length ≤ t.nextInfo := by
  have hsub : seen ⊆ List.range t.nextInfo := fun c hc => List.mem_range.mpr (h.2 c hc)
  simpa using (h.1.subperm hsub).length_le

/-- **The loops end**: a landing takes a chunk that was not seen before, any
other iteration moves the offset up. -/
theorem landings_ends {t : Tlt} (h : t.Inv) (alignedKey size stride : ℕ)
    (hsp : alignedKey + size < 2 ^ 63) (hst : 0 < stride) (hst' : stride ≤ 32) :
    ∀ fuel i seen, SeenOk t seen → (t.nextInfo - seen.length) * (size + 1) + (size - i) ≤ fuel →
      ∃ seen', landings t alignedKey size stride fuel i seen = some seen' ∧ SeenOk t seen' ∧
        seen ⊆ seen' := by
  intro fuel
  induction fuel with
  | zero =>
    intro i seen hok hf
    have hi : ¬ i < size := by
      have := Nat.le_of_add_left_le hf
      omega
    unfold landings
    rw [if_neg hi]
    exact ⟨seen, rfl, hok, List.Subset.refl _⟩
  | succ fuel ih =>
    intro i seen hok hf
    unfold landings
    by_cases hi : i < size
    · rw [if_pos hi]
      simp only
      cases hg : (tltGetInternal t (uadd alignedKey i)).filter (· ∉ seen) with
      | none =>
        refine ih _ seen hok ?_
        rw [uadd_eq (show alignedKey + i < 2 ^ 64 by omega), uadd_eq (by omega)]
        omega
      | some c =>
        obtain ⟨hget, hc⟩ := Option.filter_eq_some_iff.mp hg
        rw [tltGetInternal_eq] at hget
        have hlt := h.used _ _ (Option.filter_eq_some_iff.mp hget).1
        have hok' : SeenOk t (c :: seen) :=
          ⟨List.nodup_cons.mpr ⟨by simpa using hc, hok.1⟩, fun c' hc' => by
            rcases List.mem_cons.mp hc' with rfl | hc'
            · exact hlt
            · exact hok.2 c' hc'⟩
        have hlen := hok'.length_le
        rw [List.length_cons] at hlen
        have hm : (t.nextInfo - seen.length) * (size + 1) =
            (t.nextInfo - (seen.length + 1)) * (size + 1) + (size + 1) := by
          rw [← Nat.succ_mul]
          congr 1
          omega
        obtain ⟨seen', he, hok'', hsub⟩ := ih _ (c :: seen) hok' (by rw [List.length_cons]; omega)
        exact ⟨seen', he, hok'', fun x hx => hsub (List.mem_cons_of_mem _ hx)⟩
    · rw [if_neg hi]
      exact ⟨seen, rfl, hok, List.Subset.refl _⟩

/-- The chunks that the loops of `tlt_release(key, size, s)` land on. -/
def Landed (t : Tlt) (key size c : ℕ) : Prop :=
  ∃ seen seen', landings t (roundDownTo key 8) size 32 ((t.nextInfo + 1) * (size + 1)) 0 [] = some seen ∧
    landings t (roundDownTo key 8) size 8 ((t.nextInfo + 1) * (size + 1)) (roundDownTo size 32) seen =
      some seen' ∧ c ∈ seen'

/-- **`tlt_release`** returns and forgets the chunks it lands on. -/
theorem tltRelease_eq {t : Tlt} (h : t.Inv) {key size : ℕ} (hk : key ≠ 0) (hsp : key + size < 2 ^ 47) :
    ∃ seen', tltRelease t key size = some (t.forget seen') ∧ ∀ c, c ∈ seen' ↔ Landed t key size c := by
  have hle := roundDownTo_le key 8
  have hf : (t.nextInfo + 1) * (size + 1) = t.nextInfo * (size + 1) + (size + 1) := Nat.succ_mul _ _
  obtain ⟨seen, h₁, hok, -⟩ := landings_ends h (roundDownTo key 8) size 32 (by omega) (by omega) (by omega)
    ((t.nextInfo + 1) * (size + 1)) 0 []
    ⟨List.nodup_nil, fun _ hc => by simp at hc⟩ (by rw [List.length_nil, Nat.sub_zero]; omega)
  have hlen : (t.nextInfo - seen.length) * (size + 1) ≤ t.nextInfo * (size + 1) :=
    Nat.mul_le_mul_right _ (Nat.sub_le _ _)
  obtain ⟨seen', h₂, -, -⟩ := landings_ends h (roundDownTo key 8) size 8 (by omega) (by omega) (by omega)
    ((t.nextInfo + 1) * (size + 1))
    (roundDownTo size 32) seen hok (by omega)
  refine ⟨seen', ?_, fun c => ⟨fun hc => ⟨seen, seen', h₁, h₂, hc⟩, fun ⟨s, s', e₁, e₂, hc⟩ => ?_⟩⟩
  · have h0 : t.forget [] = t := by simp [Tlt.forget]
    have he₁ := tltReleaseLoop_eq t (roundDownTo key 8) size 32 ((t.nextInfo + 1) * (size + 1)) 0 []
    have he₂ := tltReleaseLoop_eq t (roundDownTo key 8) size 8 ((t.nextInfo + 1) * (size + 1))
      (roundDownTo size 32) seen
    rw [h0, h₁] at he₁
    rw [h₂] at he₂
    simp only [tltRelease, if_neg hk]
    rw [he₁]
    exact he₂
  · obtain rfl : seen = s := Option.some.inj (h₁.symm.trans e₁)
    obtain rfl : seen' = s' := Option.some.inj (h₂.symm.trans e₂)
    exact hc

/-! ### Blocks above their own size -/

/-- One landing of a loop that starts at `i` and whose next offset is past the block. -/
theorem landings_one {t : Tlt} (h : t.Inv) (h48 : ∀ n c, slot t n = some c → (t.info c).endAddr ≤ 2 ^ 48)
    {alignedKey size i : ℕ} (stride f : ℕ) (hi : i < size) (hk : alignedKey % 8 = 0) (hi8 : i % 8 = 0)
    (hle : size < alignedKey + i + stride) (hsp : alignedKey + size < 2 ^ 48) (hst : stride ≤ 32)
    (hst' : 8 ≤ stride) (seen : List ℕ) :
    landings t alignedKey size stride (f + 1) i seen =
      some (((tltGetInternal t (alignedKey + i)).filter (· ∉ seen)).toList ++ seen) := by
  have hpast : ∀ j seen', size ≤ j → landings t alignedKey size stride f j seen' = some seen' := by
    intro j seen' hj
    unfold landings
    rw [if_neg (by omega)]
  unfold landings
  rw [if_pos hi]
  simp only
  rw [uadd_eq (show alignedKey + i < 2 ^ 64 by omega)]
  cases hg : (tltGetInternal t (alignedKey + i)).filter (· ∉ seen) with
  | none =>
    rw [uadd_eq (by omega)]
    exact hpast _ _ (by omega)
  | some c =>
    have hget := (Option.filter_eq_some_iff.mp hg).1
    rw [tltGetInternal_eq] at hget
    have hs := (Option.filter_eq_some_iff.mp hget).1
    have hend := h48 _ _ hs
    have hr := (h.range hs hend).2
    have hgr : 8 * granule (alignedKey + i) = alignedKey + i := by unfold granule; omega
    unfold ChunkInfo.endAddr at hend hr
    have hend' : uadd (uadd (t.info c).startAddr (t.info c).chunkSize) (t.info c).rzSize =
        (t.info c).startAddr + (t.info c).chunkSize + (t.info c).rzSize := by
      rw [uadd_eq (show (t.info c).startAddr + (t.info c).chunkSize < 2 ^ 64 by omega),
        uadd_eq (by omega)]
    simp only
    rw [hend']
    generalize (t.info c).startAddr + (t.info c).chunkSize + (t.info c).rzSize = e at hend hr
    have hnext : uadd ((usub e 1 <<< 3) % 2 ^ 64) stride = (e - 1) * 8 + stride := by
      rw [usub_eq (by omega) (by omega), Nat.shiftLeft_eq, Nat.mod_eq_of_lt (by omega),
        uadd_eq (by omega)]
    rw [hnext]
    exact hpast _ _ (by omega)

/-- **A block that is not below its own size** is looked at in two places. -/
theorem landed_high {t : Tlt} (h : t.Inv) (h48 : ∀ n c, slot t n = some c → (t.info c).endAddr ≤ 2 ^ 48)
    {key size : ℕ} (hsp : key + size < 2 ^ 47) (h0 : 0 < size) (hle : size ≤ key) (c : ℕ) :
    Landed t key size c ↔ tltGetInternal t (roundDownTo key 8) = some c ∨
      size % 32 ≠ 0 ∧ tltGetInternal t (roundDownTo key 8 + roundDownTo size 32) = some c := by
  have hk8 : roundDownTo key 8 % 8 = 0 := by unfold roundDownTo; omega
  have hkle : key < roundDownTo key 8 + 8 := by unfold roundDownTo; omega
  have hkge := roundDownTo_le key 8
  obtain ⟨f, hf⟩ : ∃ f, (t.nextInfo + 1) * (size + 1) = f + 1 :=
    Nat.exists_eq_succ_of_ne_zero (Nat.mul_ne_zero (Nat.succ_ne_zero _) (Nat.succ_ne_zero _))
  set p := tltGetInternal t (roundDownTo key 8) with hp
  set q := tltGetInternal t (roundDownTo key 8 + roundDownTo size 32) with hq
  have h₁ := landings_one h h48 32 f h0 hk8 rfl (by omega) (by omega) (le_refl 32) (by omega) []
  simp only [Nat.add_zero, ← hp] at h₁
  unfold Landed
  rw [hf, h₁]
  by_cases hr : size % 32 = 0
  · -- the second loop has nothing to do
    have h₂ : ∀ seen, landings t (roundDownTo key 8) size 8 (f + 1) (roundDownTo size 32) seen =
        some seen := fun seen => by
      unfold landings
      rw [if_neg (by unfold roundDownTo; omega)]
    simp [h₂, hr]
  · have h₂ := landings_one h h48 8 f (show roundDownTo size 32 < size by unfold roundDownTo; omega)
      hk8 (by unfold roundDownTo; omega) (by unfold roundDownTo at hkle ⊢; omega) (by omega)
      (by omega) (le_refl 8)
    rw [← hq] at h₂
    simp only [h₂, ne_eq, hr, not_false_eq_true, true_and]
    by_cases hpc : p = some c <;> simp [hpc]

/-- **When the block is clean.** For every reachable table and every block
below 2^47, `tlt_release` returns, and it leaves no entry in the block exactly
if every chunk with an entry in the block is one its loops land on; for a
block that is not below its own size, in a table of chunks that end in the
48-bit space, exactly if every such chunk owns the block's first granule, or
the granule after its last whole 32 bytes when there is one. -/
theorem tltRelease_clean_iff {t : Tlt} (ht : TltReachable t) (key size : ℕ) (hk : key ≠ 0)
    (hsp : key + size < 2 ^ 47) :
    ∃ t', tltRelease t key size = some t' ∧
      ((∀ a, key ≤ a → a < key + size → tltGet t' a = none) ↔
        ∀ a c, key ≤ a → a < key + size → tltGet t a = some c → Landed t key size c) ∧
      (size ≤ key → (∀ n c, slot t n = some c → (t.info c).endAddr ≤ 2 ^ 48) →
        ((∀ a, key ≤ a → a < key + size → tltGet t' a = none) ↔
          ∀ a c, key ≤ a → a < key + size → tltGet t a = some c →
            tltGetInternal t (roundDownTo key 8) = some c ∨
            size % 32 ≠ 0 ∧ tltGetInternal t (roundDownTo key 8 + roundDownTo size 32) = some c)) := by
  obtain ⟨seen, he, hseen⟩ := tltRelease_eq ht.inv hk hsp
  have hclean : (∀ a, key ≤ a → a < key + size → tltGet (t.forget seen) a = none) ↔
      ∀ a c, key ≤ a → a < key + size → tltGet t a = some c → Landed t key size c := by
    refine forall_congr' fun a => ?_
    have hget : tltGet (t.forget seen) a = (tltGet t a).filter (· ∉ seen) := by
      unfold tltGet
      split
      · rfl
      · exact tltGetInternal_forget t seen a
    rw [hget]
    cases tltGet t a with
    | none => simp
    | some c => simp [Option.filter, ← hseen c]
  refine ⟨_, he, hclean, fun hle h48 => ?_⟩
  rw [hclean]
  refine forall_congr' fun a => forall_congr' fun c => ?_
  by_cases h0 : 0 < size
  · rw [landed_high ht.inv h48 hsp h0 hle c]
  · constructor <;> intro _ h1 h2 <;> omega

/-- Two chunks side by side and a block that ends in the second one, on which the
release of the end lands. -/
theorem tltRelease_clean_two_chunks :
    ∃ t t', TltRun [.insert 0x602000000010 8 24 1 0 0, .insert 0x602000000030 8 24 1 0 0] t ∧
      tltRelease t 0x602000000010 40 = some t' ∧
      ∀ a, 0x602000000010 ≤ a → a < 0x602000000010 + 40 → tltGet t' a = none := by
  have h : (exec tltStep (fun _ _ => True) initializeTlt
      [.insert 0x602000000010 8 24 1 0 0, .insert 0x602000000030 8 24 1 0 0]).map (fun t =>
        decide (t.nextInfo = 2 ∧ (∀ c < 2, (t.info c).endAddr ≤ 2 ^ 48) ∧
          tltGetInternal t 0x602000000010 = some 0 ∧ tltGetInternal t 0x602000000030 = some 1)) = some true := by
    decide +kernel
  obtain ⟨t, ht, h⟩ := Option.map_eq_some_iff.mp h
  obtain ⟨hnext, hend, hfirst, hsecond⟩ := of_decide_eq_true h
  have hrun := runs_of_exec ht
  have htwo : ∀ n c, slot t n = some c → c < 2 := fun n c hs => hnext ▸ (TltReachable.inv ⟨_, hrun⟩).used n c hs
  obtain ⟨t', he, -, hclean⟩ := tltRelease_clean_iff ⟨_, hrun⟩ 0x602000000010 40 (by decide) (by decide)
  refine ⟨t, t', hrun, he, (hclean (by decide) fun n c hs => hend c (htwo n c hs)).mpr fun a c _ _ hc => ?_⟩
  have hc : c = 0 ∨ c = 1 := by
    have := htwo _ c (tltGet_eq_some.mp hc).2.1
    omega
  rcases hc with rfl | rfl
  · exact .inl hfirst
  · exact .inr ⟨by decide, hsecond⟩

/-- A block of 96 bytes with one chunk in its first 32 bytes and one in the next 32. -/
theorem tltRelease_misses_second_chunk :
    ∃ t t', TltRun [.insert 0x602000000010 8 24 1 0 0, .insert 0x602000000030 8 24 1 0 0] t ∧
      tltRelease t 0x602000000010 96 = some t' ∧ tltGet t' 0x602000000030 = some 1 := by
  have h : ((exec tltStep (fun _ _ => True) initializeTlt
      [.insert 0x602000000010 8 24 1 0 0, .insert 0x602000000030 8 24 1 0 0]).bind fun t =>
        (tltRelease t 0x602000000010 96).bind (tltGet · 0x602000000030)) = some 1 := by
    decide +kernel
  obtain ⟨t, ht, h⟩ := Option.bind_eq_some_iff.mp h
  obtain ⟨t', ht', h⟩ := Option.bind_eq_some_iff.mp h
  exact ⟨t, t', runs_of_exec ht, ht', h⟩

end Cmasan
