/-
# Size queries

`__asan_getCMAChunkSize` answers for a custom allocator how long an object is:
the size that the program asked for, where the table has an allocated chunk,
and what the allocator said otherwise. So the redzone behind an object stays
hidden, at every address of its tracked range and for as long as no hook
comes near it (`getCMAChunkSize_of_traffic`).

Key definitions: `getCMAChunkSize`, `SizeCall`.
Key theorems: `getCMAChunkSize_eq`, `getCMAChunkSize_of_traffic`.
-/
import Cmasan.ShadowRuns
import Cmasan.Traffic

namespace Cmasan

open Lib

/-- `__asan_getCMAChunkSize`: the size it returns, and the state. -/
def getCMAChunkSize (F : Flags) (s : State) (ptr originalSize : ℕ) : ℕ × State :=
  if ptr = 0 then (originalSize, s)
  else
    let s := s.lock F
    match tltGet s.tlt ptr with
    | none => (originalSize, s.unlock F)
    | some c =>
      if (s.tlt.info c).status ≠ .allocated then (originalSize, s.unlock F)
      else ((s.tlt.info c).chunkSize, s.unlock F)

/-- A hook, or a size query. -/
inductive SizeCall
  | hook (e : HookCall)
  | query (ptr originalSize : ℕ)

/-- The state a call leaves. -/
def SizeCall.step (F : Flags) (s : State) : SizeCall → Option State
  | .hook e => hookStep F s e
  | .query ptr originalSize => some (getCMAChunkSize F s ptr originalSize).2

/-- A state that hooks and size queries lead to. -/
def SizeReachable (F : Flags) (s : State) : Prop :=
  ∃ es, Runs (SizeCall.step F) (fun _ _ => True) .initial es s

/-- The call is no `CLEAR`, and as a hook it avoids the range. -/
def SizeCall.Avoids (rz : RzOptions) (i : ChunkInfo) : SizeCall → Prop
  | .hook e => e.Avoids rz i ∧ e.isClear = false
  | .query _ _ => True

instance (rz : RzOptions) (i : ChunkInfo) (e : SizeCall) : Decidable (e.Avoids rz i) := by
  cases e <;> (unfold SizeCall.Avoids; infer_instance)

/-- A query changes no data. -/
theorem getCMAChunkSize_state (F : Flags) (s : State) (ptr originalSize : ℕ) :
    State.Same s (getCMAChunkSize F s ptr originalSize).2 := by
  have hlock : State.Same s ((s.lock F).unlock F) := (State.Same.lock F).trans (State.Same.unlock F)
  unfold getCMAChunkSize
  split
  · exact .refl
  · simp only
    split
    · exact hlock
    · split
      · exact hlock
      · exact hlock

/-- **At an allocated chunk** the answer is the size that was asked for. -/
theorem getCMAChunkSize_eq (F : Flags) {s : State} {a c : ℕ} (hget : tltGet s.tlt a = some c)
    (hst : (s.tlt.info c).status = .allocated) (originalSize : ℕ) :
    (getCMAChunkSize F s a originalSize).1 = (s.tlt.info c).chunkSize := by
  unfold getCMAChunkSize
  rw [if_neg (tltGet_eq_some.mp hget).1]
  simp only [State.lock_tlt, hget]
  rw [if_neg (not_not.mpr hst)]

theorem SizeCall.step_inv {F : Flags} {s s' : State} {e : SizeCall} (h : s.Inv) (he : e.step F s = some s') :
    s'.Inv := by
  cases e with
  | hook e => exact hookStep_inv h he
  | query ptr originalSize =>
    obtain rfl := Option.some.inj he
    have hs := getCMAChunkSize_state F s ptr originalSize
    exact h.congr hs.tlt hs.qz

theorem SizeReachable.inv {F : Flags} {s : State} (h : SizeReachable F s) : s.Inv := by
  obtain ⟨es, hrun⟩ := h
  exact Runs.invariant (fun hi _ he => SizeCall.step_inv hi he) State.initial_inv hrun

/-- The chunk `c` is found at all addresses of the range of `i`, with the info `i`. -/
structure Intact (i : ChunkInfo) (c : ℕ) (s : State) : Prop where
  inv : s.Inv
  gets : ∀ a, Tracks i a → tltGet s.tlt a = some c
  info : (∃ a, Tracks i a) → (s.tlt.info c).core = i.core

theorem Intact.step {F : Flags} {i : ChunkInfo} {c : ℕ} {s s' : State} {e : SizeCall} (h : Intact i c s)
    (hav : e.Avoids F.rz i) (he : e.step F s = some s') : Intact i c s' := by
  have hi := SizeCall.step_inv h.inv he
  cases e with
  | hook e =>
    have hstay : ∀ a, Tracks i a →
        tltGet s'.tlt a = some c ∧ (s'.tlt.info c).core = (s.tlt.info c).core := by
      intro a ha
      apply hookStep_stays h.inv he (h.gets a ha) (SamePlace.of_core (h.info ⟨a, ha⟩)) hav.1
      rintro k id rfl
      exact absurd hav.2 (by simp [HookCall.isClear])
    refine ⟨hi, fun a ha => (hstay a ha).1, ?_⟩
    rintro ⟨a, ha⟩
    rw [(hstay a ha).2, h.info ⟨a, ha⟩]
  | query ptr originalSize =>
    obtain rfl := Option.some.inj he
    have hs := getCMAChunkSize_state F s ptr originalSize
    refine ⟨hi, fun a ha => ?_, fun ha => ?_⟩
    · rw [hs.tlt, h.gets a ha]
    · rw [hs.tlt, h.info ha]

theorem Intact.of_allocate {F : Flags} {s s' : State} (h : s.Inv) {k : Caller} {p size g id : ℕ} {i : ChunkInfo}
    (he : hookStep F s (.allocate k p size g id false) = some s')
    (hi : (HookCall.allocate k p size g id false).inserts F.rz = some i) : ∃ c, Intact i c s' := by
  obtain ⟨t, -, -, ⟨hn, -⟩ | ⟨j, hj, hov⟩⟩ := hookStep_table h he
  · rw [hn] at hi
    cases hi
  · obtain rfl := Option.some.inj (hj.symm.trans hi)
    obtain ⟨-, hst, hcore⟩ := HookCall.inserts_facts hi
    refine ⟨t.nextInfo, hookStep_inv h he, fun a ha => hov.get_inside (by simp [hst]) ha, fun _ => ?_⟩
    rw [hov.new, hcore]

/-- **The size of an object** is what the program asked for, at every address
of its tracked range, after any hooks and queries that keep off it. -/
theorem getCMAChunkSize_of_traffic {F : Flags} {s₀ s₁ s : State} (h : SizeReachable F s₀) {k : Caller}
    {p size granularity id : ℕ} {i : ChunkInfo}
    (h₁ : allocateCMAChunk F k s₀ p size granularity id false = some s₁)
    (hi : (HookCall.allocate k p size granularity id false).inserts F.rz = some i) {es : List SizeCall}
    (hrun : Runs (SizeCall.step F) (fun _ e => e.Avoids F.rz i) s₁ es s) {a : ℕ} (ha : Tracks i a) (x : ℕ) :
    (getCMAChunkSize F s a x).1 = umul size granularity := by
  obtain ⟨c, h₁⟩ := Intact.of_allocate h.inv h₁ hi
  have hs : Intact i c s := Runs.invariant (fun hint hav he => hint.step hav he) h₁ hrun
  obtain ⟨r, hr⟩ : ∃ r, i = newChunk p (umul size granularity) r id k.stackId k.tid := by
    simp only [HookCall.inserts] at hi
    split at hi
    · cases hi
    · exact insertedInfo_newChunk hi
  have hcore := ChunkInfo.core_eq_iff.mp (hs.info ⟨a, ha⟩)
  calc (getCMAChunkSize F s a x).1
      = (s.tlt.info c).chunkSize := getCMAChunkSize_eq F (hs.gets a ha) (by rw [hcore.2.2.2.1, hr]; rfl) x
    _ = i.chunkSize := hcore.2.1
    _ = umul size granularity := by rw [hr]; rfl

/-- A neighbour comes, is reallocated and goes, and a byte of the redzone still
answers with the 13 bytes asked for. -/
theorem getCMAChunkSize_beside_neighbour :
    ∃ s₁ s : State, allocateCMAChunk defaultFlags {} .initial 0x602000000010 13 1 1 false = some s₁ ∧
      Runs (SizeCall.step defaultFlags)
        (fun _ e => e.Avoids defaultFlags.rz (newChunk 0x602000000010 13 27 1 0 0)) s₁
        [.hook (.allocate {} 0x602000000040 16 1 2 false), .query 0x602000000040 48,
          .hook (.reallocateStart 0x602000000040 false 2),
          .hook (.reallocateEnd {} 0x602000000040 0x602000000100 40 1 2 false),
          .hook (.release {} 0x602000000100 2 false)] s ∧
      (getCMAChunkSize defaultFlags s 0x602000000030 48).1 = 13 := by
  have h : ((allocateCMAChunk defaultFlags {} .initial 0x602000000010 13 1 1 false).bind fun s₁ =>
      (exec (SizeCall.step defaultFlags)
        (fun _ e => e.Avoids defaultFlags.rz (newChunk 0x602000000010 13 27 1 0 0)) s₁
        [.hook (.allocate {} 0x602000000040 16 1 2 false), .query 0x602000000040 48,
          .hook (.reallocateStart 0x602000000040 false 2),
          .hook (.reallocateEnd {} 0x602000000040 0x602000000100 40 1 2 false),
          .hook (.release {} 0x602000000100 2 false)]).map fun _ => true) = some true := by
    decide +kernel
  obtain ⟨s₁, h₁, h⟩ := Option.bind_eq_some_iff.mp h
  obtain ⟨s, hs, -⟩ := Option.map_eq_some_iff.mp h
  have hrun := runs_of_exec hs
  refine ⟨s₁, s, h₁, hrun, ?_⟩
  rw [getCMAChunkSize_of_traffic (F := defaultFlags) ⟨[], .nil⟩ h₁ (by decide +kernel) hrun (by decide +kernel) 48]
  decide

end Cmasan
