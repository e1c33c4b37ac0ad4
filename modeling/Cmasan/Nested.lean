/-
# Objects carved inside an object

A custom allocator may get its memory from another one, and carve its own
objects inside one of that allocator's. The table has one chunk for each
granule, the latest, so that an inner object takes its granules from the outer
one for good, also when it is freed. `__asan_releaseCMAChunk` finds its chunk
by the entry of its pointer. So whatever is carved behind the outer object's
first granule, and however deep, the release of the outer pointer finds the
outer chunk and poisons its whole range (`outer_release_poisons`); a chunk that
was put over that granule is found in its place.

With the quarantine on a chunk that is `IN_REALLOC` is released without a write
to the shadow, for the `realloc` to do that; so the outer chunk is not to be one
that a `realloc` found.

Key definitions: `HookCall.isRealloc`, `HookCall.LeavesStart`.
Key theorems: `hookStep_not_inRealloc`, `outer_release_poisons`.
-/
import Cmasan.Reports
import Cmasan.ShadowRuns
import Cmasan.Traffic

namespace Cmasan

open Lib

/-- The call is the start or the end of a `realloc`. -/
def HookCall.isRealloc : HookCall → Bool
  | .reallocateStart _ _ _ => true
  | .reallocateEnd _ _ _ _ _ _ _ => true
  | _ => false

/-- The call puts no chunk over the granule of `p`; and, if the quarantine is
on, it reallocates no pointer at which the chunk `c` is found. -/
def HookCall.LeavesStart (F : Flags) (p c : ℕ) (s : State) (e : HookCall) : Prop :=
  (∀ i ∈ e.inserts F.rz, ¬ Owns i (granule p)) ∧
    (F.isQuarantineZoneOn = true → e.isRealloc = true → ¬ e.Touches s c)

instance (F : Flags) (p c : ℕ) (s : State) (e : HookCall) : Decidable (e.LeavesStart F p c s) := by
  unfold HookCall.LeavesStart; infer_instance

section Step

variable {F : Flags} {s s' : State} {e : HookCall} {p c : ℕ}

theorem hookStep_not_inRealloc (h : s.Inv) (he : hookStep F s e = some s') (hget : tltGet s.tlt p = some c)
    (hst : (s.tlt.info c).status ≠ .inRealloc) (hno : e.isRealloc = true → ¬ e.Touches s c) :
    (s'.tlt.info c).status ≠ .inRealloc := by
  by_cases hc : e.Touches s c
  · -- a release or a `CLEAR`
    cases e with
    | allocate k ptr size g id b => exact hc.elim
    | release k ptr id b =>
      obtain ⟨⟨r, s₁⟩, h₁, rfl⟩ := Option.map_eq_some_iff.mp he
      rcases releaseCMAChunk_retired h₁ with ⟨-, hs⟩ | ⟨d, i, hr, hd, -⟩
      · rw [hs.tlt]
        exact hst
      · rw [hr.tlt, info_setInfo]
        split
        · simp [hd]
        · exact hst
    | reallocateStart oldPtr b id => exact absurd hc (hno rfl)
    | reallocateEnd k oldPtr newPtr size g id b => exact absurd hc (hno rfl)
    | clear k id =>
      obtain ⟨s₁, h₁, hcl⟩ := clearCMAChunks_spec F k h id
      obtain rfl := Option.some.inj (h₁.symm.trans he)
      rw [hcl.released c hc]
      simp [ChunkInfo.released]
    | gc id => exact hc.elim
  · have hcore := hookStep_untouched h he hget hc
    rw [(ChunkInfo.core_eq_iff.mp hcore).2.2.2.1]
    exact hst

end Step

theorem allocateCMAChunk_own {F : Flags} {k : Caller} {s s' : State} (h : s.Inv) {p size g id : ℕ}
    (he : allocateCMAChunk F k s p size g id false = some s') (hget : tltGet s'.tlt p = some s.tlt.nextInfo) :
    (s'.tlt.info s.tlt.nextInfo).startAddr = p ∧ (s'.tlt.info s.tlt.nextInfo).status = .allocated := by
  have hp : p ≠ 0 := (tltGet_eq_some.mp hget).1
  rcases (allocateCMAChunk_newEntry h he).table with ⟨-, ht⟩ | ⟨i, hi, hov⟩
  · rw [ht] at hget
    exact absurd (h.tlt.used _ _ (tltGet_eq_some.mp hget).2.1) (Nat.lt_irrefl _)
  · simp only [HookCall.inserts] at hi
    rw [if_neg (by simp [hp])] at hi
    obtain ⟨r, rfl⟩ := insertedInfo_newChunk hi
    exact ⟨congrArg ChunkInfo.startAddr hov.new, congrArg ChunkInfo.status hov.new⟩

theorem releaseCMAChunk_poisons {F : Flags} (hpoison : F.canPoisonMemory = true) {k : Caller} {s s' : State}
    {p id c r : ℕ} (h : s.Inv) (hget : tltGet s.tlt p = some c) (hstart : (s.tlt.info c).startAddr = p)
    (hst : F.isQuarantineZoneOn = true → (s.tlt.info c).status ≠ .inRealloc)
    (h48 : (s.tlt.info c).endAddr ≤ 2 ^ 48) (he : releaseCMAChunk F k s p id false = some (r, s')) :
    RangePoisoned (s.tlt.info c) s'.shadow := by
  have hsh := (releaseCMAChunk_retires hget hstart hst he).2
  apply rangePoisoned_of_magic (h.tlt.end_mod hget h48)
  intro n hn
  rw [hsh, ← hstart, freedShadow_apply, if_pos ⟨hpoison, (ChunkInfo.poisons_iff h48).mpr hn⟩]

/-- **The release of an outer object poisons its whole range**, whatever was
carved, freed and reallocated inside it since and under whatever ids, as long
as no chunk was put over its first granule. -/
theorem outer_release_poisons {F : Flags} (hpoison : F.canPoisonMemory = true) {s₀ s₁ s : State} {k k' : Caller}
    {p size granularity id : ℕ} {es : List HookCall} (h : HookReachable F s₀)
    (ha : allocateCMAChunk F k s₀ p size granularity id false = some s₁)
    (hget : tltGet s₁.tlt p = some s₀.tlt.nextInfo) (h48 : (s₁.tlt.info s₀.tlt.nextInfo).endAddr ≤ 2 ^ 48)
    (hrun : Runs (hookStep F) (fun s e => e.LeavesStart F p s₀.tlt.nextInfo s) s₁ es s) :
    ∃ r s', releaseCMAChunk F k' s p id false = some (r, s') ∧
      RangePoisoned (s₁.tlt.info s₀.tlt.nextInfo) s'.shadow := by
  set c := s₀.tlt.nextInfo
  obtain ⟨hstart, hst⟩ := allocateCMAChunk_own h.inv ha hget
  have hi₁ : s₁.Inv := hookStep_inv (e := .allocate k p size granularity id false) h.inv ha
  -- the chunk is at `p` in its place, and in no `realloc`, all along
  obtain ⟨hi, hget', hplace, hst'⟩ : s.Inv ∧ tltGet s.tlt p = some c ∧
      SamePlace (s.tlt.info c) (s₁.tlt.info c) ∧
      (F.isQuarantineZoneOn = true → (s.tlt.info c).status ≠ .inRealloc) := by
    refine Runs.invariant (I := fun s => s.Inv ∧ tltGet s.tlt p = some c ∧
      SamePlace (s.tlt.info c) (s₁.tlt.info c) ∧
      (F.isQuarantineZoneOn = true → (s.tlt.info c).status ≠ .inRealloc)) ?_ ?_ hrun
    · intro s₂ s₃ e hI hleaves he
      obtain ⟨hi, hget₂, hplace, hst₂⟩ := hI
      obtain ⟨hget₃, hplace'⟩ := hookStep_entry hi he hget₂ hleaves.1
      refine ⟨hookStep_inv hi he, hget₃, hplace'.trans hplace, fun hon => ?_⟩
      exact hookStep_not_inRealloc hi he hget₂ (hst₂ hon) (hleaves.2 hon)
    · refine ⟨hi₁, hget, .refl _, fun _ => ?_⟩
      rw [hst]
      decide
  obtain ⟨r, s', he⟩ := releaseCMAChunk_returns F k' hi p id false
  have hpoisoned := releaseCMAChunk_poisons hpoison hi hget' (hplace.startAddr.trans hstart) hst'
    (hplace.endAddr ▸ h48) he
  refine ⟨r, s', he, fun a h1 h2 => ?_⟩
  exact hpoisoned a (hplace.startAddr ▸ h1) (hplace.endAddr ▸ h2)

/-- An object inside an object, and one inside that; the inner ones are freed first. -/
theorem outer_release_nested :
    ∃ s₀ s₁ s s' : State, ∃ r : ℕ, HookReachable defaultFlags s₀ ∧
      allocateCMAChunk defaultFlags {} s₀ 0x602000000010 256 1 1 false = some s₁ ∧
      Runs (hookStep defaultFlags) (fun s e => e.LeavesStart defaultFlags 0x602000000010 s₀.tlt.nextInfo s) s₁
        [.allocate {} 0x602000000040 64 1 2 false, .allocate {} 0x602000000050 8 1 3 false,
          .release {} 0x602000000050 3 false, .release {} 0x602000000040 2 false] s ∧
      releaseCMAChunk defaultFlags {} s 0x602000000010 1 false = some (r, s') ∧
      RangePoisoned (s₁.tlt.info s₀.tlt.nextInfo) s'.shadow := by
  have h : ((allocateCMAChunk defaultFlags {} .initial 0x602000000010 256 1 1 false).bind fun s₁ =>
      (exec (hookStep defaultFlags) (fun s e => e.LeavesStart defaultFlags 0x602000000010 0 s) s₁
        [.allocate {} 0x602000000040 64 1 2 false, .allocate {} 0x602000000050 8 1 3 false,
          .release {} 0x602000000050 3 false, .release {} 0x602000000040 2 false]).map fun _ =>
        decide (tltGet s₁.tlt 0x602000000010 = some 0 ∧ (s₁.tlt.info 0).endAddr ≤ 2 ^ 48)) = some true := by
    decide +kernel
  obtain ⟨s₁, h₁, h⟩ := Option.bind_eq_some_iff.mp h
  obtain ⟨s, hs, h⟩ := Option.map_eq_some_iff.mp h
  obtain ⟨hget, h48⟩ := of_decide_eq_true h
  have hrun : Runs (hookStep defaultFlags)
      (fun s e => e.LeavesStart defaultFlags 0x602000000010 State.initial.tlt.nextInfo s) s₁ _ s := runs_of_exec hs
  obtain ⟨r, s', he, hp⟩ : ∃ r s', releaseCMAChunk defaultFlags {} s 0x602000000010 1 false = some (r, s') ∧
      RangePoisoned (s₁.tlt.info State.initial.tlt.nextInfo) s'.shadow :=
    outer_release_poisons rfl ⟨[], .nil⟩ h₁ hget h48 hrun
  exact ⟨_, s₁, s, s', r, ⟨[], .nil⟩, h₁, hrun, he, hp⟩

/-- Another allocator's object at the outer one's start, allocated and freed;
and a `realloc` of an object inside that is not tracked. -/
theorem outer_release_finds_inner :
    (∃ s s' : State, ∃ r : ℕ, HookRun defaultFlags
        [.allocate {} 0x602000000010 64 1 1 false, .allocate {} 0x602000000010 8 1 2 false,
          .release {} 0x602000000010 2 false] s ∧
      tltGet s.tlt 0x602000000010 = some 1 ∧
      releaseCMAChunk defaultFlags {} s 0x602000000010 1 false = some (r, s') ∧
      (s.tlt.info 0).startAddr = 0x602000000010 ∧ addressIsPoisoned s'.shadow 0x602000000040 = false) ∧
    ∃ s s' : State, ∃ r : ℕ, HookRun defaultFlags
        [.allocate {} 0x602000000010 128 1 1 false, .reallocateStart 0x602000000030 false 2,
          .reallocateEnd {} 0x602000000030 0x602000000050 8 1 2 false] s ∧
      tltGet s.tlt 0x602000000010 = some 0 ∧
      releaseCMAChunk defaultFlags {} s 0x602000000010 1 false = some (r, s') ∧
      (s.tlt.info 0).startAddr = 0x602000000010 ∧ addressIsPoisoned s'.shadow 0x602000000010 = false := by
  constructor
  · have h : ((exec (hookStep defaultFlags) (fun _ _ => True) .initial
        [.allocate {} 0x602000000010 64 1 1 false, .allocate {} 0x602000000010 8 1 2 false,
          .release {} 0x602000000010 2 false]).bind fun s =>
        (releaseCMAChunk defaultFlags {} s 0x602000000010 1 false).map fun x =>
          decide (tltGet s.tlt 0x602000000010 = some 1 ∧ (s.tlt.info 0).startAddr = 0x602000000010 ∧
            addressIsPoisoned x.2.shadow 0x602000000040 = false)) = some true := by
      decide +kernel
    obtain ⟨s, hs, h⟩ := Option.bind_eq_some_iff.mp h
    obtain ⟨⟨r, s'⟩, he, h⟩ := Option.map_eq_some_iff.mp h
    obtain ⟨hget, hstart, hp⟩ := of_decide_eq_true h
    exact ⟨s, s', r, runs_of_exec hs, hget, he, hstart, hp⟩
  · have h : ((exec (hookStep defaultFlags) (fun _ _ => True) .initial
        [.allocate {} 0x602000000010 128 1 1 false, .reallocateStart 0x602000000030 false 2,
          .reallocateEnd {} 0x602000000030 0x602000000050 8 1 2 false]).bind fun s =>
        (releaseCMAChunk defaultFlags {} s 0x602000000010 1 false).map fun x =>
          decide (tltGet s.tlt 0x602000000010 = some 0 ∧ (s.tlt.info 0).startAddr = 0x602000000010 ∧
            addressIsPoisoned x.2.shadow 0x602000000010 = false)) = some true := by
      decide +kernel
    obtain ⟨s, hs, h⟩ := Option.bind_eq_some_iff.mp h
    obtain ⟨⟨r, s'⟩, he, h⟩ := Option.map_eq_some_iff.mp h
    obtain ⟨hget, hstart, hp⟩ := of_decide_eq_true h
    exact ⟨s, s', r, runs_of_exec hs, hget, he, hstart, hp⟩

end Cmasan
