/-
# When a release reports

`releaseCMAChunkImpl` reports a double free for a pointer that is the start of
a `DEALLOCATED` chunk of the id of the call, unless a second CMA is on the
stack (`FreedBefore`); `ReportDoubleFree` returns, and the release goes on as
if nothing had been found. `__asan_releaseCMAChunk` always returns, and it
reports in exactly this case, when its caller is not a CMA
(`releaseCMAChunk_reports`).

Key definitions: `FreedBefore`, `errorLog`.
Key theorems: `releaseCMAChunkImpl_log`, `releaseCMAChunk_returns`,
`releaseCMAChunk_reports`.
-/
import Cmasan.Clears

namespace Cmasan

/-- The pointer is the start of a chunk that was released under the id, and
the stack shows no second CMA. -/
def FreedBefore (F : Flags) (k : Caller) (t : Tlt) (ptr id : ℕ) : Prop :=
  ∃ c ∈ tltGet t ptr, (t.info c).startAddr = ptr ∧ (t.info c).status = .deallocated ∧
    (t.info c).cmaId = id ∧ isCMAInCallStackSkipOneCMA F.cmaPcRange k.trace = false

instance (F : Flags) (k : Caller) (t : Tlt) (ptr id : ℕ) : Decidable (FreedBefore F k t ptr id) := by
  unfold FreedBefore; infer_instance

theorem freedBefore_iff {F : Flags} {k : Caller} {t : Tlt} {ptr id c : ℕ} (hget : tltGet t ptr = some c) :
    FreedBefore F k t ptr id ↔ (t.info c).startAddr = ptr ∧ (t.info c).status = .deallocated ∧
      (t.info c).cmaId = id ∧ isCMAInCallStackSkipOneCMA F.cmaPcRange k.trace = false := by
  unfold FreedBefore
  rw [hget]
  simp only [Option.mem_def, Option.some.injEq, exists_eq_left']

/-- What the error branch logs. -/
def errorLog (F : Flags) (ptr : ℕ) : List Event :=
  (if F.isLockOff then [] else [.unlock]) ++ if F.isReportAlwaysOff then [] else [.reportDoubleFree ptr]

namespace State

variable (F : Flags) (s : State) (ptr : ℕ)

theorem lock_log : (s.lock F).log = s.log ++ if F.isLockOff then [] else [.lock] := by
  unfold lock
  split
  · rw [List.append_nil]
  · rfl

theorem unlock_log : (s.unlock F).log = s.log ++ if F.isLockOff then [] else [.unlock] := by
  unfold unlock
  split
  · rw [List.append_nil]
  · rfl

theorem report_log : ((s.unlock F).reportDoubleFree F ptr).log = s.log ++ errorLog F ptr := by
  unfold errorLog reportDoubleFree
  rw [← List.append_assoc, ← unlock_log]
  split
  · rw [List.append_nil]
  · rfl

end State

theorem freeChunk_log {F : Flags} {k : Caller} {s s' : State} {c ptr id : ℕ}
    (he : freeChunk F k s c ptr id = some s') : s'.log = s.log ++ [.writeChunkInfo c] := by
  unfold freeChunk at he
  obtain ⟨shadow, -, rfl⟩ := Option.map_eq_some_iff.mp he
  rfl

/-- **`releaseCMAChunkImpl` returns**, with what it logs: nothing, or the
error, if there is one, and the write to the chunk. -/
theorem releaseCMAChunkImpl_log (F : Flags) (k : Caller) {s : State} (h : s.Inv) (ptr id : ℕ) :
    ((∀ c, tltGet s.tlt ptr = some c → (s.tlt.info c).startAddr ≠ ptr) ∧
      releaseCMAChunkImpl F k s ptr id = some (false, s)) ∨
    ∃ c s', tltGet s.tlt ptr = some c ∧ (s.tlt.info c).startAddr = ptr ∧
      releaseCMAChunkImpl F k s ptr id = some (true, s') ∧
      s'.log = s.log ++ (if FreedBefore F k s.tlt ptr id then errorLog F ptr else []) ++
        [.writeChunkInfo c] := by
  rcases hget : tltGet s.tlt ptr with _ | c
  · exact .inl ⟨fun c hc => (by cases hc), releaseCMAChunkImpl_none hget⟩
  unfold releaseCMAChunkImpl
  rw [hget]
  simp only
  by_cases hstart : (s.tlt.info c).startAddr = ptr
  · rw [if_neg (not_not.mpr hstart)]
    have hfb : FreedBefore F k s.tlt ptr id ↔ _ := freedBefore_iff hget
    by_cases hd : (s.tlt.info c).status = .deallocated ∧ (s.tlt.info c).cmaId = id ∧
        ¬ isCMAInCallStackSkipOneCMA F.cmaPcRange k.trace
    · -- the error: the lock is let go, and the release goes on
      rw [if_pos hd, if_pos (hfb.mpr ⟨hstart, hd.1, hd.2.1, by simpa using hd.2.2⟩)]
      have hget' : tltGet ((s.unlock F).reportDoubleFree F ptr).tlt ptr = some c := by simpa using hget
      obtain ⟨s', hf⟩ := freeChunk_returns F k (h.unlock.report ptr) hget' (by simpa using hstart) id
      rw [hf]
      exact .inr ⟨c, s', rfl, hstart, rfl, by rw [freeChunk_log hf, State.report_log]⟩
    · rw [if_neg hd, if_neg fun hf => hd ⟨(hfb.mp hf).2.1, (hfb.mp hf).2.2.1, by simpa using (hfb.mp hf).2.2.2⟩]
      obtain ⟨s', hf⟩ := freeChunk_returns F k h hget hstart id
      rw [hf]
      exact .inr ⟨c, s', rfl, hstart, rfl, by rw [freeChunk_log hf, List.append_nil]⟩
  · rw [if_pos hstart]
    exact .inl ⟨fun c' hc' => by obtain rfl := Option.some.inj hc'; exact hstart, rfl⟩

/-! ### The whole hook -/

theorem pushAndPop_returns (F : Flags) {s : State} (h : s.Inv) (ptr : ℕ) :
    ∃ r s', s.pushAndPop F ptr = some (r, s') := by
  obtain ⟨r, q, he, -⟩ := pushAndPopFromQuarantine_inv F s.tlt h.qz ptr
  unfold State.pushAndPop
  rw [he]
  exact ⟨r, _, rfl⟩

theorem releaseInRealloc_returns (F : Flags) {s : State} (h : s.Inv) (ptr : ℕ) :
    ∃ r s', releaseInRealloc F s ptr = some (r, s') := by
  unfold releaseInRealloc
  split
  · simp only
    split
    · split
      · obtain ⟨r, s', he⟩ := pushAndPop_returns F (h.lock.setStatus _ .deallocated) ptr
        rw [he]
        exact ⟨_, _, rfl⟩
      · exact ⟨_, _, rfl⟩
    · exact ⟨_, _, rfl⟩
  · exact ⟨_, _, rfl⟩

/-- **`__asan_releaseCMAChunk` always returns.** -/
theorem releaseCMAChunk_returns (F : Flags) (k : Caller) {s : State} (h : s.Inv) (ptr id : ℕ) (b : Bool) :
    ∃ r s', releaseCMAChunk F k s ptr id b = some (r, s') := by
  unfold releaseCMAChunk
  split
  · exact ⟨_, _, rfl⟩
  · obtain ⟨r₁, s₁, h₁⟩ := releaseInRealloc_returns F h ptr
    have hi := releaseInRealloc_inv h h₁
    rw [h₁]
    cases r₁ with
    | some r₁ => exact ⟨_, _, rfl⟩
    | none =>
      simp only [Option.bind_some]
      split
      · exact ⟨_, _, rfl⟩
      · rcases releaseCMAChunkImpl_log F k (s := s₁.lock F) hi.lock ptr id with ⟨-, he⟩ | ⟨c, s₂, -, -, he, -⟩
        · rw [he]
          exact ⟨_, _, rfl⟩
        · obtain ⟨r, s₃, hp⟩ := pushAndPop_returns F (releaseCMAChunkImpl_inv hi.lock he) ptr
          rw [he]
          simp only [Option.bind_some, hp, Option.map_some]
          exact ⟨_, _, rfl⟩

theorem releaseCMAChunkImpl_returns (F : Flags) (k : Caller) {s : State} (h : s.Inv) (ptr id : ℕ) :
    ∃ b s', releaseCMAChunkImpl F k s ptr id = some (b, s') := by
  rcases releaseCMAChunkImpl_log F k h ptr id with ⟨-, he⟩ | ⟨c, s', -, -, he, -⟩
  · exact ⟨_, _, he⟩
  · exact ⟨_, _, he⟩

theorem releaseOldChunk_returns (F : Flags) (k : Caller) {s : State} (h : s.Inv) (oldPtr newPtr id : ℕ) :
    ∃ s', releaseOldChunk F k s oldPtr newPtr id = some s' := by
  unfold releaseOldChunk
  simp only
  split
  · split
    · exact ⟨_, rfl⟩
    · rename_i c hget
      have hi : (if (s.tlt.info c).status = .deallocated then s.setStatus c .inRealloc else s).Inv := by
        split
        · exact h.setStatus c .inRealloc
        · exact h
      obtain ⟨b, s', he⟩ := releaseCMAChunkImpl_returns F k hi oldPtr id
      rw [he]
      exact ⟨_, rfl⟩
  · split
    · split
      · exact ⟨_, rfl⟩
      · exact ⟨_, rfl⟩
    · rcases hget : tltGet s.tlt oldPtr with _ | c
      · obtain ⟨b, s', he⟩ := releaseCMAChunkImpl_returns F k h oldPtr id
        simp only [he]
        exact ⟨_, rfl⟩
      · obtain ⟨b, s', he⟩ := releaseCMAChunkImpl_returns F k (h.setStatus c .inRealloc) oldPtr id
        simp only [he]
        exact ⟨_, rfl⟩

theorem reportsOf_errorLog (F : Flags) (ptr : ℕ) :
    reportsOf (errorLog F ptr) = if F.isReportAlwaysOff then [] else [ptr] := by
  unfold errorLog
  rw [reportsOf_append]
  split <;> split <;> simp [reportsOf]

/-- **A release reports** exactly a pointer that was freed before. -/
theorem releaseCMAChunk_reports {F : Flags} {k : Caller} {s s' : State} (h : s.Inv) {ptr id r : ℕ} {b : Bool}
    (he : releaseCMAChunk F k s ptr id b = some (r, s')) :
    reportsOf s'.log = reportsOf s.log ++
      if b = false ∧ F.isReportAlwaysOff = false ∧ FreedBefore F k s.tlt ptr id then [ptr] else [] := by
  cases releaseCMAChunk_path he with
  | null hp =>
    rw [if_neg, List.append_nil]
    rintro ⟨-, -, c, hc, -⟩
    exact (tltGet_eq_some.mp hc).1 hp
  | inRealloc h₁ =>
    -- the old pointer of a realloc is not released
    obtain ⟨c, -, hst, hr, -, hrep⟩ := releaseInRealloc_some h₁
    rw [hrep, if_neg, List.append_nil]
    rintro ⟨-, -, hfb⟩
    have hd := ((freedBefore_iff hr.get).mp hfb).2.1
    rw [hst] at hd
    cases hd
  | inCma h₁ => rw [if_neg (by simp), List.append_nil, (releaseInRealloc_none h₁).1.reports]
  | @noChunk s₁ s₂ h₁ h₂ =>
    have hl := (releaseInRealloc_none h₁).1.trans (State.Same.lock F)
    rcases releaseCMAChunkImpl_cases h₂ with ⟨-, rfl, hno⟩ | ⟨c, hb, -⟩
    · rw [hl.tlt] at hno
      rw [State.reportsOf_unlock, hl.reports, if_neg, List.append_nil]
      rintro ⟨-, -, c, hc, hstart, -⟩
      exact hno c hc hstart
    · cases hb
  | @chunk r s₁ s₂ s₃ h₁ h₂ h₃ =>
    have hl := (releaseInRealloc_none h₁).1.trans (State.Same.lock F)
    rcases releaseCMAChunkImpl_log F k (releaseInRealloc_inv h h₁).lock ptr id with ⟨-, h₂'⟩ | ⟨c, s₂', -, -, h₂', hlog⟩
    · rw [h₂'] at h₂
      cases h₂
    obtain ⟨-, rfl⟩ := Prod.mk.inj (Option.some.inj (h₂.symm.trans h₂'))
    obtain ⟨c', hget⟩ : ∃ c', tltGet s₂.tlt ptr = some c' := by
      rcases releaseCMAChunkImpl_cases h₂ with ⟨hf, -⟩ | ⟨c', -, hget', -, ht, -⟩
      · cases hf
      · exact ⟨c', by rw [ht, tltGet_setInfo hget' (by simp [ChunkInfo.released]), hget']⟩
    have hwrite : reportsOf [.writeChunkInfo c] = [] := rfl
    rw [State.reportsOf_unlock, (pushAndPop_log hget h₃).2, hlog, reportsOf_append, reportsOf_append,
      hl.reports, hwrite, List.append_nil, hl.tlt]
    congr 1
    by_cases hfb : FreedBefore F k s.tlt ptr id
    · rw [if_pos hfb, reportsOf_errorLog]
      simp only [hfb, true_and, and_true]
      cases F.isReportAlwaysOff <;> rfl
    · rw [if_neg hfb, if_neg fun hn => hfb hn.2.2]
      rfl

end Cmasan
