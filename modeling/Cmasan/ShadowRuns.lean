/-
# The shadow agrees with the table

Runs of any hooks with any arguments, where a `realloc` is a `Start`, frees
inside it, and an `End`; between them, its old pointer is remembered. Whenever
no `realloc` is under way, the shadow of every granule that belongs to a chunk
is what the chunk's info says (`shadow_agrees`), if the hooks stay within what
they write for (`Bracketed.Safe`): a hand-out is followed by no released
granule and no redzone, which it would make addressable; a release or a
`CLEAR` has no byte of another allocated object in the range it poisons; and a
`realloc` that ends in place covers all of its old chunk.

Inside a `realloc`, the old chunk may be marked as released while its range is
addressable; its `End` makes it right again.

Key definitions: `Bracketed`, `Bracketed.Legal`, `Bracketed.Safe`.
Key theorems: `Bracketed.step_ok`, `shadow_agrees`.
-/
import Cmasan.ShadowAgrees

namespace Cmasan

open Lib

/-- The runtime, and the old pointer of the `realloc` under way. -/
structure Bracketed where
  st : State
  old : Option ℕ

/-- The `realloc` under way after a call. -/
def bracketAfter (old : Option ℕ) : HookCall → Option ℕ
  | .reallocateStart oldPtr false _ => some oldPtr
  | .reallocateEnd _ _ _ _ _ _ false => none
  | _ => old

/-- One call. -/
def Bracketed.step (F : Flags) (b : Bracketed) (e : HookCall) : Option Bracketed :=
  (hookStep F b.st e).map fun st => ⟨st, bracketAfter b.old e⟩

/-- A `realloc` is a `Start`, then releases, then an `End` of the same old
pointer; what is handed out lies in the 48-bit space. Calls from inside an
allocator may come at any time. -/
def Bracketed.Legal (F : Flags) (b : Bracketed) : HookCall → Prop
  | .allocate _ ptr size g _ isInCma =>
    isInCma = true ∨ ptr = 0 ∨ b.old = none ∧ Fits F.rz ptr size g
  | .release _ _ _ _ => True
  | .reallocateStart _ isInCma _ => isInCma = true ∨ b.old = none
  | .reallocateEnd _ oldPtr newPtr size g _ isInCma =>
    isInCma = true ∨ b.old = some oldPtr ∧ (newPtr ≠ 0 → Fits F.rz newPtr size g)
  | .clear _ _ => b.old = none
  | .gc _ => True

instance Bracketed.decidableLegal (F : Flags) (b : Bracketed) (e : HookCall) : Decidable (b.Legal F e) := by
  cases e <;> (unfold Bracketed.Legal; infer_instance)

/-- A release of a chunk left in a `realloc` finds it poisoned, unless its
`realloc` is under way; another one poisons no other object. -/
def Bracketed.ReleaseSafe (F : Flags) (b : Bracketed) (ptr : ℕ) (isInCma : Bool) : Prop :=
  ∀ c ∈ tltGet b.st.tlt ptr,
    if F.isQuarantineZoneOn = true ∧ (b.st.tlt.info c).status = .inRealloc then
      b.old.bind (tltGet b.st.tlt) = some c ∨
        ∀ n ∈ (b.st.tlt.info c).granules, slot b.st.tlt n = some c → 128 ≤ b.st.shadow n
    else isInCma = true ∨ (b.st.tlt.info c).startAddr ≠ ptr ∨ PoisonsOnly b.st.tlt c

/-- A `realloc` that fails freed nothing inside; one that moves is a release of
the old chunk and a hand-out that is not followed by it; one in place covers it. -/
def EndSafe (F : Flags) (t : Tlt) (oldPtr newPtr size g : ℕ) : Prop :=
  if newPtr = 0 ∨ size = 0 then
    F.isQuarantineZoneOn = true → ∀ c ∈ tltGet t oldPtr, (t.info c).status ≠ .deallocated
  else
    AllocateSafe F.rz t newPtr size g ∧ ∀ c ∈ tltGet t oldPtr,
      if oldPtr = newPtr then
        ∀ n ∈ (t.info c).granules, slot t n = some c → NewGranule F.rz newPtr size g n
      else (t.info c).startAddr = oldPtr → PoisonsOnly t c ∧
        (extendSize F.rz size g false ≠ size → slot t (trackedEnd F.rz newPtr size g / 8) ≠ some c)

instance (F : Flags) (t : Tlt) (oldPtr newPtr size g : ℕ) : Decidable (EndSafe F t oldPtr newPtr size g) := by
  unfold EndSafe; infer_instance

/-- The call stays within what it writes for. -/
def Bracketed.Safe (F : Flags) (b : Bracketed) : HookCall → Prop
  | .allocate _ ptr size g _ isInCma =>
    isInCma = true ∨ ptr = 0 ∨ AllocateSafe F.rz b.st.tlt ptr size g
  | .release _ ptr _ isInCma => b.ReleaseSafe F ptr isInCma
  | .reallocateStart oldPtr isInCma _ =>
    isInCma = true ∨ ∀ c ∈ tltGet b.st.tlt oldPtr, ExposesOnly b.st.tlt oldPtr c
  | .reallocateEnd _ oldPtr newPtr size g _ isInCma =>
    isInCma = true ∨ EndSafe F b.st.tlt oldPtr newPtr size g
  | .clear _ id => ClearSafe b.st.tlt (b.st.listed id)
  | .gc _ => True

instance Bracketed.decidableSafe (F : Flags) (b : Bracketed) (e : HookCall) : Decidable (b.Safe F e) := by
  cases e <;> (unfold Bracketed.Safe; unfold Bracketed.ReleaseSafe; infer_instance)

/-- Granule `n` is the old chunk's, which was released inside the `realloc`. -/
def Bracketed.Exempt (F : Flags) (b : Bracketed) (n : ℕ) : Prop :=
  F.isQuarantineZoneOn = true ∧ ∃ old c, b.old = some old ∧ tltGet b.st.tlt old = some c ∧
    slot b.st.tlt n = some c ∧ (b.st.tlt.info c).status = .deallocated

/-- **All granules are right**, but for those of the old chunk of a `realloc` under way. -/
def Bracketed.Ok (F : Flags) (b : Bracketed) : Prop := ShadowOk b.st fun n => ¬ b.Exempt F n

theorem Bracketed.Ok.closed {F : Flags} {b : Bracketed} (h : b.Ok F) (hb : b.old = none) :
    ShadowOk b.st fun _ => True :=
  h.mono fun n _ ⟨_, old, c, ho, _⟩ => by simp [hb] at ho

theorem Bracketed.ok_of_all {F : Flags} {s : State} {old : Option ℕ} (h : ShadowOk s fun _ => True) :
    Bracketed.Ok F ⟨s, old⟩ := h.mono fun _ _ => trivial

section Steps

variable {F : Flags} {s s' : State} {old : Option ℕ}

/-- **A release**, inside a `realloc` or not. -/
theorem Bracketed.Ok.release (hp : F.canPoisonMemory = true) (h : Bracketed.Ok F ⟨s, old⟩) {k : Caller}
    {ptr id r : ℕ} {isInCma : Bool} (hsafe : Bracketed.ReleaseSafe F ⟨s, old⟩ ptr isInCma)
    (he : releaseCMAChunk F k s ptr id isInCma = some (r, s')) : Bracketed.Ok F ⟨s', old⟩ := by
  have hi := releaseCMAChunk_inv h.inv he
  -- what is exempt stays so, if its chunk is another one
  have hexempt : ∀ {c i n}, tltGet s.tlt ptr = some c → i.status ≠ .none → s'.tlt = s.tlt.setInfo c i →
      slot s.tlt n ≠ some c → ¬ Bracketed.Exempt F ⟨s', old⟩ n → ¬ Bracketed.Exempt F ⟨s, old⟩ n := by
    rintro c i n hget hs ht hne hn ⟨hon, old', d, ho, hd, hslot, hst⟩
    refine hn ⟨hon, old', d, ho, ?_, ?_, ?_⟩
    · show tltGet s'.tlt old' = some d
      rw [ht, tltGet_setInfo hget hs]
      exact hd
    · show slot s'.tlt n = some d
      rw [ht, slot_setInfo]
      exact hslot
    · have hdc : d ≠ c := fun he => hne (he ▸ hslot)
      show (s'.tlt.info d).status = _
      rw [ht, info_setInfo, if_neg hdc]
      exact hst
  rcases releaseCMAChunk_cases he with ⟨-, hs, -⟩ | ⟨c, hon, hst, hr, hsh, -⟩ | ⟨c, hb, hstart, hr, hsh, -, hno⟩
  · refine (h.same hs).mono fun n hn hx => hn ?_
    unfold Bracketed.Exempt at hx ⊢
    simpa only [hs.tlt] using hx
  · -- a chunk in a `realloc` is marked as released
    have hor := hsafe c hr.get
    rw [if_pos ⟨hon, hst⟩] at hor
    refine h.setInfo hi hr.tlt rfl rfl rfl (fun n hn hc => ?_) (fun n hn c' hc' hne => ?_)
    · refine granuleOk_of_poisoned ?_ (fun hd => by simp at hd)
      rw [hsh]
      rcases hor with hbr | hpoisoned
      · obtain ⟨old', ho, hg⟩ := Option.bind_eq_some_iff.mp hbr
        refine absurd ⟨hon, old', c, ho, ?_, ?_, ?_⟩ hn
        · show tltGet s'.tlt old' = some c
          rw [hr.tltGet_eq (by simp)]
          exact hg
        · show slot s'.tlt n = some c
          rw [hr.tlt, slot_setInfo]
          exact hc
        · show (s'.tlt.info c).status = _
          rw [hr.info]
      · exact hpoisoned n (h.mem_granules hc) hc
    · refine .inl ⟨hexempt hr.get (by simp) hr.tlt (fun hs => hne ?_) hn, by rw [hsh]⟩
      exact Option.some.inj (hc'.symm.trans hs)
  · -- a chunk is released and poisoned
    have hor := hsafe c hr.get
    rw [if_neg fun hx => hno hx.1 hx.2] at hor
    have hpo : PoisonsOnly s.tlt c := by
      rcases hor with hb' | hne | hpo
      · rw [hb] at hb'
        cases hb'
      · exact absurd hstart hne
      · exact hpo
    refine h.free hp hr.get hstart hi hr.tlt hsh (fun n _ hm c' hc' hne => hpo n hm c' hc' hne) fun n hn => ?_
    by_cases hs : slot s.tlt n = some c
    · exact .inr hs
    · exact .inl (hexempt hr.get (by simp [ChunkInfo.released]) hr.tlt hs hn)

theorem AllocateSafe.setInfo {rz : RzOptions} {t : Tlt} {ptr size g c : ℕ} {i : ChunkInfo}
    (h : AllocateSafe rz t ptr size g)
    (hi : extendSize rz size g false ≠ size → slot t (trackedEnd rz ptr size g / 8) = some c →
      NoFreedOrRedzone i (trackedEnd rz ptr size g / 8)) : AllocateSafe rz (t.setInfo c i) ptr size g := by
  refine ⟨h.1, fun hext c' hc' => ?_⟩
  rw [info_setInfo]
  split
  · rename_i he
    exact hi hext (he ▸ hc')
  · exact h.2 hext c' hc'

/-- **The end of a `realloc`** that succeeds. -/
theorem Bracketed.Ok.finish (hp : F.canPoisonMemory = true) {oldPtr : ℕ} (h : Bracketed.Ok F ⟨s, some oldPtr⟩)
    {k : Caller} {newPtr size g id : ℕ} {s₁ s₂ : State} (hf : Fits F.rz newPtr size g)
    (hsafe : AllocateSafe F.rz s.tlt newPtr size g)
    (hold : ∀ c ∈ tltGet s.tlt oldPtr,
      if oldPtr = newPtr then
        ∀ n ∈ (s.tlt.info c).granules, slot s.tlt n = some c → NewGranule F.rz newPtr size g n
      else (s.tlt.info c).startAddr = oldPtr → PoisonsOnly s.tlt c ∧
        (extendSize F.rz size g false ≠ size → slot s.tlt (trackedEnd F.rz newPtr size g / 8) ≠ some c))
    (h₁ : releaseOldChunk F k s oldPtr newPtr id = some s₁)
    (h₂ : allocateCMAChunkImpl F k s₁ newPtr size g id = some s₂) : ShadowOk s₂ fun _ => True := by
  have hi := releaseOldChunk_inv h.inv h₁
  -- what is exempt is the old chunk's
  have hx : ∀ {c n}, tltGet s.tlt oldPtr = some c → slot s.tlt n ≠ some c →
      ¬ Bracketed.Exempt F ⟨s, some oldPtr⟩ n := by
    rintro c n hget hne ⟨-, old', d, ho, hd, hslot, -⟩
    obtain rfl := Option.some.inj ho
    exact hne (hslot.trans (hd.symm.trans hget))
  rcases (releaseOldChunk_cases h₁).2 with
    ⟨hn, rfl⟩ | ⟨c, hget, ⟨heq, rfl⟩ | ⟨hne, hstart, ht, hsh⟩ | ⟨hne, hstart, hcase⟩⟩
  · refine h.allocate hp hf hsafe (fun n _ hex => ?_) h₂
    obtain ⟨-, old', d, ho, hd, -⟩ := hex
    obtain rfl := Option.some.inj ho
    exact absurd (hn.symm.trans hd) (by simp)
  · -- in place: the new chunk covers the old one
    have hcover := hold c hget
    rw [if_pos heq] at hcover
    have hset : ShadowOk (s.setStatus c .deallocated) fun n => slot s.tlt n ≠ some c :=
      h.setInfo hi rfl rfl rfl rfl (fun n hn hc => absurd hc hn) fun n hn _ _ _ => .inl ⟨hx hget hn, rfl⟩
    refine hset.allocate hp hf (hsafe.setInfo fun hext hc => ?_) (fun n hn hc => ?_) h₂
    · have := (hcover _ (h.mem_granules hc) hc).2.2
      exact absurd this (lt_irrefl _)
    · exact hn (hcover n (h.mem_granules hc) hc)
  · -- moved: the old chunk is released and poisoned
    have hrel := hold c hget
    rw [if_neg hne] at hrel
    obtain ⟨hpo, hend⟩ := hrel hstart
    have hfree : ShadowOk s₁ fun _ => True :=
      h.free hp hget hstart hi ht hsh (fun n _ hm c' hc' hne => hpo n hm c' hc' hne) fun n _ => by
        by_cases hs : slot s.tlt n = some c
        · exact .inr hs
        · exact .inl (hx hget hs)
    refine hfree.allocate hp hf ?_ (fun _ _ => trivial) h₂
    rw [ht]
    exact hsafe.setInfo fun hext hc => absurd hc (hend hext)
  · -- moved, but the old pointer was not the start of its chunk
    rcases hcase with ⟨⟨hon, hst⟩, rfl⟩ | rfl
    · refine h.allocate hp hf hsafe (fun n _ hex => ?_) h₂
      obtain ⟨-, old', d, ho, hd, -, hst'⟩ := hex
      obtain rfl := Option.some.inj ho
      obtain rfl : c = d := Option.some.inj (hget.symm.trans hd)
      exact hst hst'
    · have hset : ShadowOk (s.setStatus c .inRealloc) fun _ => True :=
        h.setInfo hi rfl rfl rfl rfl (fun n _ _ => granuleOk_of_inRealloc rfl) fun n _ c' hc' hne' =>
          .inl ⟨hx hget fun hs => hne' (Option.some.inj (hc'.symm.trans hs)), rfl⟩
      refine hset.allocate hp hf (hsafe.setInfo fun _ _ => ?_) (fun _ _ => trivial) h₂
      exact ⟨by simp, fun hd => by simp at hd⟩

end Steps

/-- **Every call keeps the granules right.** -/
theorem Bracketed.step_ok {F : Flags} (hp : F.canPoisonMemory = true) {b b' : Bracketed} {e : HookCall}
    (h : b.Ok F) (hlegal : b.Legal F e) (hsafe : b.Safe F e) (he : b.step F e = some b') : b'.Ok F := by
  obtain ⟨st, hst, rfl⟩ := Option.map_eq_some_iff.mp he
  cases e with
  | allocate k ptr size g id isInCma =>
    rcases allocateCMAChunk_path hst with ⟨-, rfl⟩ | ⟨hno, s₁, h₁, rfl⟩
    · exact h
    · obtain ⟨hb, hptr⟩ := not_or.mp hno
      obtain ⟨hclosed, hf⟩ := (hlegal.resolve_left hb).resolve_left hptr
      have hsafe' : AllocateSafe F.rz (b.st.lock F).tlt ptr size g := by
        rw [State.lock_tlt]
        exact (hsafe.resolve_left hb).resolve_left hptr
      have hlock := (h.closed hclosed).same (State.Same.lock F)
      have hout := hlock.allocate hp hf hsafe' (fun _ _ => trivial) h₁
      exact Bracketed.ok_of_all (hout.same (State.Same.unlock F))
  | release k ptr id isInCma =>
    obtain ⟨⟨r, s₁⟩, h₁, rfl⟩ := Option.map_eq_some_iff.mp hst
    exact Bracketed.Ok.release hp h hsafe h₁
  | reallocateStart oldPtr isInCma id =>
    obtain rfl := Option.some.inj hst
    cases isInCma with
    | true => exact h
    | false =>
      have hclosed : b.old = none := hlegal.resolve_left (by simp)
      exact Bracketed.ok_of_all ((h.closed hclosed).start (hsafe.resolve_left (by simp)))
  | reallocateEnd k oldPtr newPtr size g id isInCma =>
    cases isInCma with
    | true =>
      simp only [hookStep, reallocateCMAChunkEnd, true_or, if_true] at hst
      exact Option.some.inj hst ▸ h
    | false =>
      obtain ⟨hopen, hf⟩ := hlegal.resolve_left (by simp)
      have hend : EndSafe F b.st.tlt oldPtr newPtr size g := hsafe.resolve_left (by simp)
      unfold EndSafe at hend
      obtain ⟨s, old⟩ := b
      obtain rfl : old = some oldPtr := hopen
      rcases reallocateCMAChunkEnd_cases hst with ⟨h0, rfl⟩ | ⟨hn, hs, s₁, s₂, h₁, h₂, rfl⟩
      · -- a failed `realloc` leaves the old chunk in `IN_REALLOC`
        rw [if_pos h0] at hend
        refine Bracketed.ok_of_all (h.mono fun n _ hx => ?_)
        obtain ⟨hon, old', c, ho, hc, -, hd⟩ := hx
        obtain rfl := Option.some.inj ho
        exact hend hon c hc hd
      · rw [if_neg (by simp [hn, hs])] at hend
        have hlock : Bracketed.Ok F ⟨s.lock F, some oldPtr⟩ := by
          unfold Bracketed.Ok Bracketed.Exempt
          simp only [State.lock_tlt]
          exact ShadowOk.same h (State.Same.lock F)
        have hout := hlock.finish hp (hf hn) (by simpa using hend.1) (by simpa using hend.2) h₁ h₂
        exact Bracketed.ok_of_all (hout.same (State.Same.unlock F))
  | clear k id =>
    have hclosed : b.old = none := hlegal
    exact Bracketed.ok_of_all ((h.closed hclosed).clear hp hsafe hst)
  | gc id =>
    obtain rfl := Option.some.inj hst
    exact ShadowOk.congr h (hookStep_inv (e := .gc id) h.inv rfl) rfl rfl

/-- **The shadow agrees with the table.** After every run of hooks that stay
within what they write for, and with no `realloc` under way: for each granule
with an entry, a released chunk's is poisoned, and an allocated chunk's is
addressable on the bytes of its object and poisoned behind them. -/
theorem shadow_agrees {F : Flags} (hp : F.canPoisonMemory = true) {es : List HookCall} {b : Bracketed}
    (hrun : Runs (Bracketed.step F) (fun b e => b.Legal F e ∧ b.Safe F e) ⟨.initial, none⟩ es b)
    (hclosed : b.old = none) (n c : ℕ) (hs : slot b.st.tlt n = some c) :
    GranuleOk (b.st.tlt.info c) b.st.shadow n :=
  ((Runs.invariant (I := Bracketed.Ok F) (fun hi hok hst => Bracketed.step_ok hp hi hok.1 hok.2 hst)
    (Bracketed.ok_of_all (ShadowOk.initial _)) hrun).closed hclosed).ok n trivial c hs

/-- The flags of the runs below. -/
def defaultFlags : Flags := { rz := .default }

/-- An object is allocated, moved by a `realloc` that frees it inside, and freed; then its id is cleared. -/
theorem shadow_agrees_realloc :
    ∃ b, exec (Bracketed.step defaultFlags) (fun b e => b.Legal defaultFlags e ∧ b.Safe defaultFlags e)
        ⟨.initial, none⟩
        [.allocate {} 0x602000000010 5 1 1 false, .reallocateStart 0x602000000010 false 1,
          .release {} 0x602000000010 1 false,
          .reallocateEnd {} 0x602000000010 0x602000000080 12 1 1 false,
          .allocate {} 0x602000000110 8 1 1 false, .release {} 0x602000000080 1 false, .clear {} 1] = some b ∧
      slot b.st.tlt (0x602000000018 / 8) = some 0 ∧
      GranuleOk (b.st.tlt.info 0) b.st.shadow (0x602000000018 / 8) := by
  have h : ((exec (Bracketed.step defaultFlags) (fun b e => b.Legal defaultFlags e ∧ b.Safe defaultFlags e)
        ⟨.initial, none⟩
        [.allocate {} 0x602000000010 5 1 1 false, .reallocateStart 0x602000000010 false 1,
          .release {} 0x602000000010 1 false,
          .reallocateEnd {} 0x602000000010 0x602000000080 12 1 1 false,
          .allocate {} 0x602000000110 8 1 1 false, .release {} 0x602000000080 1 false,
          .clear {} 1]).map fun b => (b.old, slot b.st.tlt (0x602000000018 / 8))) = some (none, some 0) := by
    decide +kernel
  obtain ⟨b, hb, he⟩ := Option.map_eq_some_iff.mp h
  obtain ⟨hold, hs⟩ := Prod.mk.inj he
  exact ⟨b, hb, hs, shadow_agrees rfl (runs_of_exec hb) hold _ _ hs⟩

/-- A freed object in the quarantine, and one handed out in the region before
it, whose hook makes the first granule of the freed one addressable. -/
theorem next_granule_unpoisoned :
    ∃ es b, Runs (Bracketed.step defaultFlags) (fun b e => b.Legal defaultFlags e) ⟨.initial, none⟩ es b ∧
      b.old = none ∧ 0x602000000010 + extendSize RzOptions.default 8 1 false * 1 ≤ 0x602000000030 ∧
      slot b.st.tlt (0x602000000030 / 8) = some 0 ∧
      ¬ GranuleOk (b.st.tlt.info 0) b.st.shadow (0x602000000030 / 8) := by
  have h : ((exec (Bracketed.step defaultFlags) (fun b e => b.Legal defaultFlags e) ⟨.initial, none⟩
        [.allocate {} 0x602000000030 8 1 1 false, .release {} 0x602000000030 1 false,
          .allocate {} 0x602000000010 8 1 1 false]).map fun b =>
        (b.old, slot b.st.tlt (0x602000000030 / 8), (b.st.tlt.info 0).status,
          addressIsPoisoned b.st.shadow 0x602000000030)) =
      some (none, some 0, .deallocated, false) := by
    decide +kernel
  obtain ⟨b, hb, he⟩ := Option.map_eq_some_iff.mp h
  simp only [Prod.mk.injEq] at he
  obtain ⟨hold, hs, hd, hpois⟩ := he
  refine ⟨_, b, runs_of_exec hb, hold, by decide, hs, fun hok => ?_⟩
  have := hok.freed hd 0x602000000030 rfl
  rw [hpois] at this
  cases this

end Cmasan
