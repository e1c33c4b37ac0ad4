/-
# Which calls of tlt_update do what they are for

`tlt_update(key, size, s, e)` is for the chunks of status `e` that own a granule
meeting `[key, key + size)`: they get status `s` and the free stack, and no
other info changes (`UpdatedRange`). It does so exactly if its walk comes to
the size and meets these chunks and no others, as far as the write changes
something (`tltUpdate_range_iff`). In the address space the walk only meets
chunks of the range, so the question is which it jumps over. Where the chunks
have all granules of their ranges, that is a count: the walk slips by one
granule at the end of each chunk, and by as many more as a chunk that the key
is inside of has before the key, and catches up by one with each granule
without a chunk.

Key definitions: `Tlt.OwnsIn`, `UpdatedRange`, `Tlt.cellsFrom`.
Key theorems: `tltUpdate_updates_iff`, `tltUpdate_updates_space_iff`,
`meets_whole_iff`, `tltUpdate_range_iff`.
-/
import Cmasan.TltUpdate
import Cmasan.ShadowAgrees

namespace Cmasan

open Lib

/-- The info with what `tlt_update` writes. -/
def ChunkInfo.updated (i : ChunkInfo) (status : Status) (freeStackId tid : ℕ) : ChunkInfo :=
  { i with status, freeStackId, freeThreadId := tid }

/-- The chunk has status `e` and owns a granule that meets `[key, key + size)`. -/
def Tlt.OwnsIn (t : Tlt) (e : Status) (key size c : ℕ) : Prop :=
  (t.info c).status = e ∧ ∃ a, key ≤ a ∧ a < key + size ∧ slot t (a / 8) = some c

/-- From `t` to `t'` the chunks of the range were written, and nothing else. -/
structure UpdatedRange (t t' : Tlt) (status e : Status) (freeStackId tid key size : ℕ) : Prop where
  slots : ∀ n, slot t' n = slot t n
  inside : ∀ c, t.OwnsIn e key size c → t'.info c = (t.info c).updated status freeStackId tid
  outside : ∀ c, ¬ t.OwnsIn e key size c → t'.info c = t.info c

/-- The granules that a chunk of the range has from the key's on. -/
def Tlt.cellsFrom (t : Tlt) (key c : ℕ) : ℕ := (t.info c).endAddr / 8 - max ((t.info c).startAddr / 8) (key / 8)

/-! ### Any table -/

section Update

variable {t : Tlt} {status e : Status} {fs tid key size : ℕ}

theorem updated_info (seen : List ℕ) (c : ℕ) :
    (t.updated status fs tid seen).info c = if c ∈ seen then (t.info c).updated status fs tid else t.info c := rfl

theorem exists_first {f : ℕ → ℕ} {n : ℕ} (h : ∃ m ≤ n, size ≤ f m) :
    ∃ m ≤ n, (∀ j < m, f j < size) ∧ size ≤ f m := by
  obtain ⟨m, hm, hend⟩ := h
  have hex : ∃ m, size ≤ f m := ⟨m, hend⟩
  exact ⟨Nat.find hex, (Nat.find_min' hex hend).trans hm, fun j hj => Nat.lt_of_not_le (Nat.find_min hex hj),
    Nat.find_spec hex⟩

/-- **What a call updates**: the range, exactly if its walk comes to the size
and meets, of the chunks that the write would change, those of the range. -/
theorem tltUpdate_updates_iff (hk : key ≠ 0) :
    (∃ t', tltUpdate t key size status e fs tid = some t' ∧ UpdatedRange t t' status e fs tid key size) ↔
      (∃ m ≤ size, size ≤ (updateWalkWith (decide (status = e)) t e (roundDownTo key 8) m).1) ∧
        ∀ c, (t.info c).updated status fs tid ≠ t.info c →
          (UpdateMeetsWith (decide (status = e)) t e key size c ↔ t.OwnsIn e key size c) := by
  constructor
  · rintro ⟨t', he, hr⟩
    obtain ⟨m, hm, rfl, hbelow, hend⟩ := (tltUpdate_eq_some hk).mp he
    refine ⟨⟨m, hm, hend⟩, fun c hc => ?_⟩
    rw [← mem_seen_iff hbelow hend]
    constructor
    · intro hs
      by_contra hno
      have hkept := hr.outside c hno
      rw [updated_info, if_pos hs] at hkept
      exact hc hkept
    · intro hin
      by_contra hno
      have hwritten := hr.inside c hin
      rw [updated_info, if_neg hno] at hwritten
      exact hc hwritten.symm
  · rintro ⟨hex, hmeet⟩
    obtain ⟨m, hm, hbelow, hend⟩ := exists_first hex
    refine ⟨_, (tltUpdate_eq_some hk).mpr ⟨m, hm, rfl, hbelow, hend⟩, fun _ => rfl, fun c hin => ?_, fun c hno => ?_⟩
    · rw [updated_info]
      split
      · rfl
      · rename_i hs
        by_contra hc
        exact hs ((mem_seen_iff hbelow hend c).mpr ((hmeet c (Ne.symm hc)).mpr hin))
    · rw [updated_info]
      split
      · rename_i hs
        by_contra hc
        exact hno ((hmeet c hc).mp ((mem_seen_iff hbelow hend c).mp hs))
      · rfl

end Update

/-! ### In the address space -/

section Space

variable {t : Tlt} {status e : Status} {fs tid key size : ℕ}

theorem ownsIn_iff (he : e ≠ .none) (h0 : 0 < size) (hsp : key + size ≤ 2 ^ 48) {c : ℕ} :
    t.OwnsIn e key size c ↔ ∃ i < (key + size + 7) / 8 - key / 8, ownerFrom t e key i = some c := by
  constructor
  · rintro ⟨hst, a, h1, h2, hs⟩
    have ha : key / 8 + (a / 8 - key / 8) = a / 8 := by omega
    exact ⟨a / 8 - key / 8, by omega, ownerFrom_eq_some.mpr ⟨by omega, ha.symm ▸ hs, hst ▸ he, hst⟩⟩
  · rintro ⟨i, hi, ho⟩
    obtain ⟨-, hs, -, hst⟩ := ownerFrom_eq_some.mp ho
    have ha : max key (8 * (key / 8 + i)) / 8 = key / 8 + i := by omega
    exact ⟨hst, max key (8 * (key / 8 + i)), by omega, by omega, ha.symm ▸ hs⟩

theorem ownsIn_of_meets {c : ℕ}
    (hm : Meets (ownerFrom t e key) t.cells ((size + 7) / 8) c) : t.OwnsIn e key size c := by
  obtain ⟨n, hn, ho⟩ := hm
  obtain ⟨-, hs, -, hst⟩ := ownerFrom_eq_some.mp ho
  have ha : max key (8 * (key / 8 + cell (ownerFrom t e key) t.cells n)) / 8 =
      key / 8 + cell (ownerFrom t e key) t.cells n := by omega
  exact ⟨hst, max key (8 * (key / 8 + cell (ownerFrom t e key) t.cells n)), by omega, by omega, ha.symm ▸ hs⟩

variable (h : t.Inv) (h48 : ∀ n c, slot t n = some c → (t.info c).endAddr ≤ 2 ^ 48)

include h h48

/-- **In the address space** a call updates its range exactly if its walk
jumps over no chunk of the range that the write would change. -/
theorem tltUpdate_updates_space_iff (hk : key ≠ 0) (hsp : key + size ≤ 2 ^ 48) :
    (∃ t', tltUpdate t key size status e fs tid = some t' ∧ UpdatedRange t t' status e fs tid key size) ↔
      ∀ c, t.OwnsIn e key size c → (t.info c).updated status fs tid ≠ t.info c →
        Meets (ownerFrom t e key) t.cells ((size + 7) / 8) c := by
  have hmeets := updateMeetsWith_iff h h48 (e := e) (decide (status = e)) hsp
  rw [tltUpdate_updates_iff hk]
  simp only [hmeets]
  constructor
  · exact fun ⟨_, hall⟩ c hin hc => (hall c hc).mpr hin
  · intro hall
    obtain ⟨m, hm, -, hend⟩ := updateWalk_ends h h48 (e := e) (decide (status = e)) key
      (show size ≤ 2 ^ 63 by omega)
    exact ⟨⟨m, hm, hend⟩, fun c hc => ⟨fun hm => ownsIn_of_meets hm, fun hin => hall c hin hc⟩⟩

/-- **Which layouts of whole chunks the walk meets**, for a key and an end
anywhere: for each chunk of the range, and each granule up to its first one,
the walk slips in between by less than the granules of the chunk that it gets
to and the granules without a chunk in between. -/
theorem meets_whole_iff (he : e ≠ .none) (hsp : key + size ≤ 2 ^ 48)
    (hwhole : ∀ c, t.OwnsIn e key size c → ∀ n ∈ (t.info c).granules, slot t n = some c) :
    (∀ c, t.OwnsIn e key size c → Meets (ownerFrom t e key) t.cells ((size + 7) / 8) c) ↔
      ∀ c, t.OwnsIn e key size c → ∀ x ≤ t.firstCell key c,
        t.firstCell key c +
            slips (ownerFrom t e key) (t.firstCell key) (t.cellsFrom key) t.cells x (t.firstCell key c) <
          min (t.firstCell key c + t.cellsFrom key c) ((size + 7) / 8) +
            gaps (ownerFrom t e key) x (t.firstCell key c) := by
  by_cases h0 : size = 0
  · -- no bytes, no chunk
    have hno : ∀ c, ¬ t.OwnsIn e key size c := by
      rintro c ⟨-, a, h1, h2, -⟩
      omega
    exact iff_of_true (fun c hc => absurd hc (hno c)) fun c hc => absurd hc (hno c)
  have hin : ∀ c, t.OwnsIn e key size c ↔ ∃ i < (key + size + 7) / 8 - key / 8, ownerFrom t e key i = some c :=
    fun c => ownsIn_iff he (Nat.pos_of_ne_zero h0) hsp
  -- the chunks of the range lie side by side
  obtain ⟨N, hside, hN⟩ : ∃ N, SideBySide (ownerFrom t e key) (t.firstCell key) (t.cellsFrom key) N ∧
      ∀ i c, ownerFrom t e key i = some c →
        (i < N ↔ ∃ j < (key + size + 7) / 8 - key / 8, ownerFrom t e key j = some c) := SideBySide.of_whole
    (fun i c hi hc j hj => by
      have := ownerFrom_range h h48 hj
      unfold Tlt.firstCell Tlt.cellsFrom
      omega)
    (fun i c hi hc j h1 h2 => by
      have hrange := ownerFrom_range h h48 hc
      obtain ⟨-, hs, hne, hst⟩ := ownerFrom_eq_some.mp hc
      have hend := h48 _ c hs
      unfold Tlt.firstCell at h1 h2
      unfold Tlt.cellsFrom at h2
      have hmem : key / 8 + j ∈ (t.info c).granules := mem_granules.mpr (by omega)
      exact ownerFrom_eq_some.mpr ⟨by omega, hwhole c ((hin c).mpr ⟨i, hi, hc⟩) _ hmem, hne, hst⟩)
  have hlen : ∀ i c, i < N → ownerFrom t e key i = some c → t.cellsFrom key c ≤ t.cells c := fun i c _ hc => by
    have := ownerFrom_range h h48 hc
    unfold Tlt.cellsFrom
    omega
  have hall := hside.meets_all_slips_iff hlen ((size + 7) / 8)
  constructor
  · intro hmeet c hc
    obtain ⟨i, hi, ho⟩ := (hin c).mp hc
    refine hall.mp (fun j d hj hd => hmeet d ((hin d).mpr ((hN j d hd).mp hj))) i c ?_ ho
    exact (hN i c ho).mpr ⟨i, hi, ho⟩
  · intro hlt c hc
    obtain ⟨i, hi, ho⟩ := (hin c).mp hc
    refine hall.mpr (fun j d hj hd => hlt d ((hin d).mpr ((hN j d hd).mp hj))) i c ?_ ho
    exact (hN i c ho).mpr ⟨i, hi, ho⟩

end Space

/-- **When `tlt_update` does what it is for.** For every reachable table, key,
size, statuses and stack: it gives the status and the stack to the chunks of the
expected status that own a granule of the range, and changes nothing else,
exactly if its walk comes to the size and meets, of the chunks that the write
would change, those of the range. With all ranges in the address space, exactly
if the walk jumps over no chunk of the range that the write would change; and
if these chunks have all their granules, exactly if for each one, and each
granule from the key's up to its first one, the walk slips in between by less
than the granules of the chunk before the size and the free granules in
between: by one at the end of each chunk, and by the granules of a chunk before
the key's. -/
theorem tltUpdate_range_iff {t : Tlt} (ht : TltReachable t) {key : ℕ} (hk : key ≠ 0) (size : ℕ)
    (status e : Status) (freeStackId tid : ℕ) :
    ((∃ t', tltUpdate t key size status e freeStackId tid = some t' ∧
        UpdatedRange t t' status e freeStackId tid key size) ↔
      (∃ m ≤ size, size ≤ (updateWalkWith (decide (status = e)) t e (roundDownTo key 8) m).1) ∧
        ∀ c, (t.info c).updated status freeStackId tid ≠ t.info c →
          (UpdateMeetsWith (decide (status = e)) t e key size c ↔ t.OwnsIn e key size c)) ∧
    ((∀ n c, slot t n = some c → (t.info c).endAddr ≤ 2 ^ 48) → key + size ≤ 2 ^ 48 →
      ((∃ t', tltUpdate t key size status e freeStackId tid = some t' ∧
          UpdatedRange t t' status e freeStackId tid key size) ↔
        ∀ c, t.OwnsIn e key size c → (t.info c).updated status freeStackId tid ≠ t.info c →
          Meets (ownerFrom t e key) t.cells ((size + 7) / 8) c) ∧
      (e ≠ .none → (∀ c, t.OwnsIn e key size c → (t.info c).updated status freeStackId tid ≠ t.info c) →
        (∀ c, t.OwnsIn e key size c → ∀ n ∈ (t.info c).granules, slot t n = some c) →
        ((∃ t', tltUpdate t key size status e freeStackId tid = some t' ∧
            UpdatedRange t t' status e freeStackId tid key size) ↔
          ∀ c, t.OwnsIn e key size c → ∀ x ≤ t.firstCell key c,
            t.firstCell key c +
                slips (ownerFrom t e key) (t.firstCell key) (t.cellsFrom key) t.cells x (t.firstCell key c) <
              min (t.firstCell key c + t.cellsFrom key c) ((size + 7) / 8) +
                gaps (ownerFrom t e key) x (t.firstCell key c)))) := by
  refine ⟨tltUpdate_updates_iff hk, fun h48 hsp => ?_⟩
  have hspace : (∃ t', tltUpdate t key size status e freeStackId tid = some t' ∧
      UpdatedRange t t' status e freeStackId tid key size) ↔ _ := tltUpdate_updates_space_iff ht.inv h48 hk hsp
  refine ⟨hspace, fun he hnew hwhole => ?_⟩
  rw [hspace, ← meets_whole_iff ht.inv h48 he hsp hwhole]
  exact ⟨fun hall c hin => hall c hin (hnew c hin), fun hall c hin _ => hall c hin⟩

/-- Two chunks side by side, updated over their range: the walk is one granule
behind at the second one, which has four. -/
theorem tltUpdate_range_adjacent :
    ∃ t t', TltRun [.insert 0x602000000010 8 24 1 0 0, .insert 0x602000000030 8 24 1 0 0] t ∧
      t.OwnsIn .allocated 0x602000000010 64 1 ∧
      tltUpdate t 0x602000000010 64 .deallocated .allocated 7 0 = some t' ∧
      UpdatedRange t t' .deallocated .allocated 7 0 0x602000000010 64 := by
  have h : (exec tltStep (fun _ _ => True) initializeTlt
      [.insert 0x602000000010 8 24 1 0 0, .insert 0x602000000030 8 24 1 0 0]).map (fun t =>
        decide (t.nextInfo = 2 ∧ slot t (0x602000000030 / 8) = some 1 ∧ ∀ c < 2,
          (t.info c).endAddr ≤ 2 ^ 48 ∧ (t.info c).status = .allocated ∧
          (∀ n ∈ (t.info c).granules, slot t n = some c) ∧
          ∀ x ≤ t.firstCell 0x602000000010 c,
            t.firstCell 0x602000000010 c +
                slips (ownerFrom t .allocated 0x602000000010) (t.firstCell 0x602000000010) (t.cellsFrom 0x602000000010)
                  t.cells x (t.firstCell 0x602000000010 c) <
              min (t.firstCell 0x602000000010 c + t.cellsFrom 0x602000000010 c) ((64 + 7) / 8) +
                gaps (ownerFrom t .allocated 0x602000000010) x (t.firstCell 0x602000000010 c))) = some true := by
    decide +kernel
  obtain ⟨t, ht, h⟩ := Option.map_eq_some_iff.mp h
  obtain ⟨hnext, hslot, hchunks⟩ := of_decide_eq_true h
  have hrun : TltRun _ t := runs_of_exec ht
  have htwo : ∀ n c, slot t n = some c → c < 2 := fun n c hc => hnext ▸ hrun.inv.used n c hc
  have hin : ∀ c, t.OwnsIn .allocated 0x602000000010 64 c → c < 2 := fun c ⟨_, a, _, _, hs⟩ => htwo _ c hs
  have hiff := (((tltUpdate_range_iff ⟨_, hrun⟩ (show 0x602000000010 ≠ 0 by decide) 64 .deallocated .allocated 7 0).2
    (fun n c hc => (hchunks c (htwo n c hc)).1) (by decide)).2 (by decide) (fun c hc => ?_)
      fun c hc => (hchunks c (hin c hc)).2.2.1)
  · obtain ⟨t', he, hr⟩ := hiff.mpr fun c hc => (hchunks c (hin c hc)).2.2.2
    exact ⟨t, t', hrun, ⟨(hchunks 1 (by decide)).2.1, 0x602000000030, by decide, by decide, hslot⟩, he, hr⟩
  · -- the status is another one
    intro heq
    have hst := congrArg ChunkInfo.status heq
    rw [(hchunks c (hin c hc)).2.1] at hst
    cases hst

/-- Five chunks side by side, updated over their range: the fifth one is kept. -/
theorem tltUpdate_misses_fifth :
    ∃ t t', TltRun [.insert 0x602000000010 8 24 1 0 0, .insert 0x602000000030 8 24 1 0 0,
        .insert 0x602000000050 8 24 1 0 0, .insert 0x602000000070 8 24 1 0 0,
        .insert 0x602000000090 8 24 1 0 0] t ∧
      t.OwnsIn .allocated 0x602000000010 160 4 ∧
      tltUpdate t 0x602000000010 160 .deallocated .allocated 7 0 = some t' ∧
      (t'.info 4).status = .allocated ∧
      ¬ UpdatedRange t t' .deallocated .allocated 7 0 0x602000000010 160 := by
  have h : ((exec tltStep (fun _ _ => True) initializeTlt
      [.insert 0x602000000010 8 24 1 0 0, .insert 0x602000000030 8 24 1 0 0,
        .insert 0x602000000050 8 24 1 0 0, .insert 0x602000000070 8 24 1 0 0,
        .insert 0x602000000090 8 24 1 0 0]).bind fun t =>
          (tltUpdate t 0x602000000010 160 .deallocated .allocated 7 0).map fun t' =>
            ((t.info 4).status, slot t (0x602000000090 / 8), (t'.info 4).status)) =
      some (.allocated, some 4, .allocated) := by
    decide +kernel
  obtain ⟨t, ht, h⟩ := Option.bind_eq_some_iff.mp h
  obtain ⟨t', he, h⟩ := Option.map_eq_some_iff.mp h
  simp only [Prod.mk.injEq] at h
  obtain ⟨hst, hslot, hst'⟩ := h
  have hin : t.OwnsIn .allocated 0x602000000010 160 4 := ⟨hst, 0x602000000090, by decide, by decide, hslot⟩
  refine ⟨t, t', runs_of_exec ht, hin, he, hst', fun hr => ?_⟩
  have := congrArg ChunkInfo.status (hr.inside 4 hin)
  rw [hst'] at this
  cases this

end Cmasan
