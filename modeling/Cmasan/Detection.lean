/-
# Double frees are found

A released chunk keeps its status, its id and its start under any traffic that
keeps off its range: no hook finds it by a pointer, no insert takes its
granules, and a `CLEAR` that meets it in a list passes over it as it is
`DEALLOCATED`. What the quarantine does with its pointer does not matter, as
the quarantine does not write the table. So a second free of the pointer is
found whenever it comes.

Key theorems: `double_free_reported`.
-/
import Cmasan.Reports
import Cmasan.ShadowRuns
import Cmasan.Traffic

namespace Cmasan

open Lib

/-- **A released chunk stays as it is**, and where it is, in a run that avoids it. -/
theorem released_stays {F : Flags} {s s' : State} {p c : ℕ} {i : ChunkInfo} {es : List HookCall} (h : s.Inv)
    (hget : tltGet s.tlt p = some c) (hst : (s.tlt.info c).status = .deallocated) (hp : SamePlace (s.tlt.info c) i)
    (hrun : Runs (hookStep F) (fun _ e => e.Avoids F.rz i) s es s') :
    s'.Inv ∧ tltGet s'.tlt p = some c ∧ (s'.tlt.info c).core = (s.tlt.info c).core := by
  apply Runs.invariant (I := fun s' => s'.Inv ∧ tltGet s'.tlt p = some c ∧
    (s'.tlt.info c).core = (s.tlt.info c).core) _ ⟨h, hget, rfl⟩ hrun
  intro s₁ s₂ e hI hav he
  obtain ⟨hi, hget₁, hcore₁⟩ := hI
  have hd : (s₁.tlt.info c).status = .deallocated := (ChunkInfo.core_eq_iff.mp hcore₁).2.2.2.1.trans hst
  obtain ⟨hget₂, hcore₂⟩ := hookStep_stays hi he hget₁ ((SamePlace.of_core hcore₁).trans hp) hav
    fun _ _ _ => not_cleared_of_deallocated hd _
  exact ⟨hookStep_inv hi he, hget₂, hcore₂.trans hcore₁⟩

/-- **A double free is reported** whatever happened on other chunks since the
first free, and a free of an allocated chunk never is. -/
theorem double_free_reported {F : Flags} (hon : F.isReportAlwaysOff = false) :
    (∀ {s₀ s₁ s : State} {k₁ k₂ : Caller} {p id c r : ℕ} {es : List HookCall}, HookReachable F s₀ →
      tltGet s₀.tlt p = some c → (s₀.tlt.info c).startAddr = p → (s₀.tlt.info c).status = .allocated →
      releaseCMAChunk F k₁ s₀ p id false = some (r, s₁) →
      Runs (hookStep F) (fun _ e => e.Avoids F.rz (s₀.tlt.info c)) s₁ es s →
      isCMAInCallStackSkipOneCMA F.cmaPcRange k₂.trace = false →
      ∃ r' s', releaseCMAChunk F k₂ s p id false = some (r', s') ∧
        reportsOf s'.log = reportsOf s.log ++ [p]) ∧
    ∀ {s s' : State} {k : Caller} {p id c r : ℕ}, HookReachable F s →
      tltGet s.tlt p = some c → (s.tlt.info c).status = .allocated →
      releaseCMAChunk F k s p id false = some (r, s') → reportsOf s'.log = reportsOf s.log := by
  constructor
  · intro s₀ s₁ s k₁ k₂ p id c r es h hget hstart hst h₁ hrun hstack
    obtain ⟨hr, -⟩ := releaseCMAChunk_retires hget hstart (fun _ => by rw [hst]; decide) h₁
    have hinfo : s₁.tlt.info c = (s₀.tlt.info c).released k₁ id := hr.info
    have hget₁ : tltGet s₁.tlt p = some c := (hr.tltGet_eq (by simp [ChunkInfo.released]) p).trans hget
    -- it is at `p` and released under `id` when it is freed again
    obtain ⟨hi, hget', hcore⟩ := released_stays (releaseCMAChunk_inv h.inv h₁) hget₁ (by rw [hinfo]; rfl)
      (by rw [hinfo]; exact ⟨rfl, rfl, rfl⟩) hrun
    rw [hinfo] at hcore
    obtain ⟨hs, -, -, hd, hid, -⟩ := ChunkInfo.core_eq_iff.mp hcore
    obtain ⟨r', s', he⟩ := releaseCMAChunk_returns F k₂ hi p id false
    refine ⟨r', s', he, ?_⟩
    rw [releaseCMAChunk_reports hi he, if_pos]
    exact ⟨rfl, hon, (freedBefore_iff hget').mpr ⟨hs.trans hstart, hd, hid, hstack⟩⟩
  · intro s s' k p id c r h hget hst he
    rw [releaseCMAChunk_reports h.inv he, if_neg, List.append_nil]
    rintro ⟨-, -, hfb⟩
    have hd := ((freedBefore_iff hget).mp hfb).2.1
    rw [hst] at hd
    cases hd

/-- Freed, then a `CLEAR` that meets it in the list of its id, then freed again. -/
theorem double_free_reported_after_clear :
    ∃ s₀ s₁ s s' : State, ∃ r r' : ℕ, HookRun defaultFlags [.allocate {} 0x602000000010 16 1 1 false] s₀ ∧
      releaseCMAChunk defaultFlags {} s₀ 0x602000000010 1 false = some (r, s₁) ∧
      Runs (hookStep defaultFlags) (fun _ e => e.Avoids defaultFlags.rz (s₀.tlt.info 0)) s₁
        [.allocate {} 0x602000000110 16 1 1 false, .clear {} 1, .release {} 0x602000000110 2 false] s ∧
      releaseCMAChunk defaultFlags {} s 0x602000000010 1 false = some (r', s') ∧
      reportsOf s₁.log = reportsOf s₀.log ∧ reportsOf s'.log = reportsOf s.log ++ [0x602000000010] := by
  have h : ((exec (hookStep defaultFlags) (fun _ _ => True) .initial
      [.allocate {} 0x602000000010 16 1 1 false]).bind fun s₀ =>
        (releaseCMAChunk defaultFlags {} s₀ 0x602000000010 1 false).bind fun x =>
          (exec (hookStep defaultFlags) (fun _ e => e.Avoids defaultFlags.rz (s₀.tlt.info 0)) x.2
            [.allocate {} 0x602000000110 16 1 1 false, .clear {} 1, .release {} 0x602000000110 2 false]).map
              fun _ => (tltGet s₀.tlt 0x602000000010, (s₀.tlt.info 0).startAddr, (s₀.tlt.info 0).status)) =
      some (some 0, 0x602000000010, .allocated) := by
    decide +kernel
  obtain ⟨s₀, h₀, h⟩ := Option.bind_eq_some_iff.mp h
  obtain ⟨⟨r, s₁⟩, h₁, h⟩ := Option.bind_eq_some_iff.mp h
  obtain ⟨s, hs, h⟩ := Option.map_eq_some_iff.mp h
  obtain ⟨hget, hstart, hst⟩ : tltGet s₀.tlt 0x602000000010 = some 0 ∧
      (s₀.tlt.info 0).startAddr = 0x602000000010 ∧ (s₀.tlt.info 0).status = .allocated := by
    simpa only [Prod.mk.injEq] using h
  have hrun := runs_of_exec h₀
  have hclean : isCMAInCallStackSkipOneCMA defaultFlags.cmaPcRange ({} : Caller).trace = false := rfl
  obtain ⟨r', s', he, hrep⟩ := (double_free_reported (F := defaultFlags) rfl).1 ⟨_, hrun⟩ hget hstart hst h₁
    (runs_of_exec hs) hclean
  exact ⟨s₀, s₁, s, s', r, r', hrun, h₁, runs_of_exec hs, he,
    (double_free_reported (F := defaultFlags) rfl).2 ⟨_, hrun⟩ hget hst h₁, hrep⟩

end Cmasan
