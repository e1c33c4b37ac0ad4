/-
# Counters and limits of the quarantine

`qz_counted_iff`: a zone's counters count its queue until a collection. The
collection (`__asan_emptyQuarantineOnGC`) forgets the queue and the bytes but
not `current_cma_quarantine_num`, so from then on the zone counts chunks it
does not hold, unless the number was 0 anyway.

`pushAndPop_bounds`: what the limits promise when a released chunk is pushed
behind a pop. The number of queued chunks is bounded, since a full zone loses
a chunk for each one it gets. The bytes are not: the chunk it loses is the
oldest valid one, whatever its size. They are while the sizes do not grow.

Key definitions: `qzStep`, `Quarantine.Counted`, `callStep`, `Shrinking`.
Key theorems: `qz_counted_iff`, `pushAndPop_bounds`.
-/
import Cmasan.QuarantineQueue
import Cmasan.TltTable

namespace Cmasan

open Lib

/-- Every zone's counters count its queue. -/
def Quarantine.Counted (q : Quarantine) : Prop := ∀ id, (q.zone id).Counts (q.chunks id)

/-! ### Pushes, pops and collections -/

/-- The calls that touch a zone; a pop reads the table of the moment. -/
inductive QzOp
  | push (ptr size id : ℕ)
  | pop (t : Tlt) (id : ℕ)
  | gc (id : ℕ)

/-- One call, on the quarantine and the allocation zones. -/
def qzStep (F : Flags) (s : Quarantine × Registry AllocListZone) :
    QzOp → Option (Quarantine × Registry AllocListZone)
  | .push ptr size id => (pushPtr s.1 ptr size id).map fun q => (q, s.2)
  | .pop t id => (popPtrIfMax F t s.1 id).map fun r => (r.2, s.2)
  | .gc id => some (emptyQuarantineOnGC F s.1 s.2 id)

/-- A run of calls from the start. -/
def QzRun (F : Flags) (es : List QzOp) (s : Quarantine × Registry AllocListZone) : Prop :=
  Runs (qzStep F) (fun _ _ => True) (.initial, .empty newAllocListZone) es s

/-- The collections of `es` find their zone's number at 0. -/
def GcOk (F : Flags) (s : Quarantine × Registry AllocListZone) : QzOp → Prop
  | .gc id => F.isQuarantineZoneOn → (s.1.zone id).currentCmaQuarantineNum = 0
  | _ => True

theorem qzStep_spec (F : Flags) {s : Quarantine × Registry AllocListZone} (h : s.1.Inv) (op : QzOp) :
    ∃ s', qzStep F s op = some s' ∧ s'.1.Inv := by
  cases op with
  | push ptr size id =>
    obtain ⟨q', he, hi, -⟩ := pushPtr_spec h ptr size id
    exact ⟨(q', s.2), by simp only [qzStep, he, Option.map_some], hi⟩
  | pop t id =>
    obtain ⟨q', he, hi, -⟩ := popPtrIfMax_spec F t h id
    exact ⟨(q', s.2), by simp only [qzStep, he, Option.map_some], hi⟩
  | gc id => exact ⟨_, rfl, (emptyQuarantineOnGC_spec F h s.2 id).1⟩

theorem qzStep_counted {F : Flags} {s s' : Quarantine × Registry AllocListZone} {op : QzOp}
    (h : s.1.Inv) (hc : s.1.Counted) (hok : GcOk F s op) (he : qzStep F s op = some s') :
    s'.1.Counted := by
  intro id'
  cases op with
  | push ptr size id =>
    obtain ⟨q', he', -, hch, hz, hsize, hnum⟩ := pushPtr_spec h ptr size id
    simp only [qzStep, he', Option.map_some, Option.some.injEq] at he
    subst he
    simp only
    rw [hch]
    by_cases hid : id' = id
    · subst hid
      have := (hc id').push ⟨ptr, size⟩
      rw [if_pos rfl]
      exact ⟨hnum.trans this.1, hsize.trans this.2⟩
    · rw [if_neg hid, hz id' hid]
      exact hc id'
  | pop t id =>
    obtain ⟨q', he', -, hz, hch, hcnt⟩ := popPtrIfMax_spec F t h id
    simp only [qzStep, he', Option.map_some, Option.some.injEq] at he
    subst he
    simp only
    by_cases hid : id' = id
    · subst hid
      exact hcnt (hc id')
    · rw [hch, if_neg hid, hz id' hid]
      exact hc id'
  | gc id =>
    obtain rfl := Option.some.inj he
    obtain ⟨-, hch, hz⟩ := emptyQuarantineOnGC_spec F h s.2 id
    rw [hch, hz]
    split
    · rename_i hid
      exact ⟨hok hid.1, rfl⟩
    · exact hc id'

/-- **When the counters count.** Every list of calls runs, and the counters of
every zone count its queue (as words) in each state the run passes through
exactly if every collection, with the quarantine on, finds the number of its
zone at 0. -/
theorem qz_counted_iff (F : Flags) (es : List QzOp) :
    (∃ s, QzRun F es s) ∧
      ((∀ es' s, es' <+: es → QzRun F es' s → s.1.Counted) ↔
        ∀ es' id s, es' ++ [.gc id] <+: es → QzRun F es' s → F.isQuarantineZoneOn →
          (s.1.zone id).currentCmaQuarantineNum = 0) := by
  have hinv : ∀ {es' s}, QzRun F es' s → s.1.Inv := fun h =>
    Runs.invariant (I := fun s => s.1.Inv) (fun hi _ he => by
      obtain ⟨s', he', hi'⟩ := qzStep_spec F hi _
      exact Option.some.inj (he'.symm.trans he) ▸ hi') Quarantine.initial_inv h
  refine ⟨?_, fun hcount es' id s hpre hrun hon => ?_, fun hgc es' s hpre hrun => ?_⟩
  · induction es using List.reverseRecOn with
    | nil => exact ⟨_, .nil⟩
    | append_singleton es op ih =>
      obtain ⟨s, hrun⟩ := ih
      obtain ⟨s', he, -⟩ := qzStep_spec F (hinv hrun) op
      exact ⟨s', .snoc hrun trivial he⟩
  · -- after the collection the queue is empty
    have hc := hcount _ _ hpre (.snoc hrun trivial rfl) id
    obtain ⟨-, hch, hz⟩ := emptyQuarantineOnGC_spec F (hinv hrun) s.2 id
    have hnum := hc.1
    rw [hch, hz, if_pos ⟨hon, rfl⟩, if_pos ⟨hon, rfl⟩] at hnum
    exact hnum
  · induction hrun with
    | nil => exact fun id => ⟨rfl, rfl⟩
    | @snoc es₁ s₁ s₂ op hrun _ he ih =>
      have hpre₁ : es₁ <+: es := (List.prefix_append es₁ [op]).trans hpre
      refine qzStep_counted (hinv hrun) (ih hpre₁) ?_ he
      cases op with
      | gc id => exact hgc es₁ id s₁ hpre hrun
      | push => trivial
      | pop => trivial

/-- One chunk is queued when its id is collected. -/
theorem gc_keeps_num :
    ∃ s, QzRun { rz := .default } [.push 0x602000000010 32 1, .gc 1] s ∧ s.1.chunks 1 = [] ∧
      (s.1.zone 1).currentCmaQuarantineNum = 1 ∧ ¬ s.1.Counted := by
  refine ⟨_, .cons trivial rfl (.cons trivial rfl .nil), rfl, rfl, fun h => ?_⟩
  have := (h 1).1
  revert this
  decide

/-! ### The limits -/

theorem totalSize_append (cs ds : List QChunk) : totalSize (cs ++ ds) = totalSize cs + totalSize ds := by
  simp [totalSize]

theorem totalSize_suffix {cs ds : List QChunk} (h : cs <:+ ds) : totalSize cs ≤ totalSize ds := by
  obtain ⟨es, rfl⟩ := h
  rw [totalSize_append]
  exact Nat.le_add_left _ _

theorem popped_full {F : Flags} {t : Tlt} {z : QZone} {id : ℕ} {c : QChunk} {cs : List QChunk}
    (h : z.Full F) : (popped F t z id (c :: cs)).2 <:+ cs := by
  unfold popped
  rw [if_pos h]
  unfold dropInvalid
  split
  · exact List.suffix_refl cs
  · exact dropInvalid_suffix _ cs

/-- A call of `pushAndPopFromQuarantine`, with the table it reads. -/
def callStep (F : Flags) (q : Quarantine) (e : Tlt × ℕ) : Option Quarantine :=
  (pushAndPopFromQuarantine F e.1 q e.2).map (·.2)

/-- The pointer is tracked. -/
def Tracked (_ : Quarantine) (e : Tlt × ℕ) : Prop := ∃ c, tltGet e.1 e.2 = some c

instance (q : Quarantine) (e : Tlt × ℕ) : Decidable (Tracked q e) :=
  decidable_of_iff ((tltGet e.1 e.2).isSome = true) Option.isSome_iff_exists

/-- The pointer is tracked, its chunk is not larger than any that its zone
holds, and the zone's bytes fit in a word. -/
def Shrinking (q : Quarantine) (e : Tlt × ℕ) : Prop :=
  ∃ c, tltGet e.1 e.2 = some c ∧
    (∀ d ∈ q.chunks (e.1.info c).cmaId, ((e.1.info c).queued e.2).size ≤ d.size) ∧
    totalSize (q.chunks (e.1.info c).cmaId) < 2 ^ 64

instance (q : Quarantine) (e : Tlt × ℕ) : Decidable (Shrinking q e) :=
  inferInstanceAs (Decidable (∃ c ∈ tltGet e.1 e.2,
    (∀ d ∈ q.chunks (e.1.info c).cmaId, ((e.1.info c).queued e.2).size ≤ d.size) ∧
      totalSize (q.chunks (e.1.info c).cmaId) < 2 ^ 64))

/-- What holds after any number of calls. -/
structure Quarantine.Bounded (F : Flags) (q : Quarantine) : Prop where
  inv : q.Inv
  counted : q.Counted
  num_le : ∀ id, (q.chunks id).length ≤ F.quarantineNum

/-- **A call** on a zone of at most `quarantineNum` chunks: what it leaves of
the queue, and that it keeps the bound. -/
theorem Quarantine.Bounded.call {F : Flags} (hon : F.isQuarantineZoneOn = true)
    (hpos : 0 < F.quarantineNum) (hnum : F.quarantineNum < 2 ^ 64) {q : Quarantine} (h : q.Bounded F)
    {t : Tlt} {ptr c : ℕ} (hget : tltGet t ptr = some c) :
    ∃ q' rest, callStep F q (t, ptr) = some q' ∧ q'.Bounded F ∧
      (∀ id', q'.chunks id' =
        if id' = (t.info c).cmaId then rest ++ [(t.info c).queued ptr] else q.chunks id') ∧
      rest <:+ q.chunks (t.info c).cmaId ∧
      ((q.zone (t.info c).cmaId).Full F → rest <:+ (q.chunks (t.info c).cmaId).tail) := by
  obtain ⟨q', he, hi, hch, hz, hcnt⟩ := pushAndPop_spec hon h.inv hget
  set id := (t.info c).cmaId
  set rest := (popped F t (q.zone id) id (q.chunks id)).2 with hrest
  have hsuf : rest <:+ q.chunks id := popped_suffix F t _ id _
  have hfull : (q.zone id).Full F → rest <:+ (q.chunks id).tail := fun hf => by
    rw [hrest]
    rcases hcs : q.chunks id with _ | ⟨d, ds⟩
    · unfold popped
      rw [if_pos hf]
      exact List.suffix_refl _
    · exact popped_full hf
  refine ⟨q', rest, by unfold callStep; rw [he]; rfl, ⟨hi, fun id' => ?_, fun id' => ?_⟩, hch, hsuf,
    hfull⟩
  · by_cases hid : id' = id
    · subst hid
      exact hcnt (h.counted _)
    · rw [hch, if_neg hid, hz id' hid]
      exact h.counted id'
  · rw [hch]
    by_cases hid : id' = id
    · rw [if_pos hid, List.length_append, List.length_singleton]
      have hle := h.num_le id
      by_cases hf : (q.zone id).Full F
      · have := (hfull hf).length_le
        rw [List.length_tail] at this
        omega
      · -- below the limit the counter is the length
        have hn := (h.counted id).1
        rw [Nat.mod_eq_of_lt (by omega)] at hn
        unfold QZone.Full at hf
        have := hsuf.length_le
        omega
    · rw [if_neg hid]
      exact h.num_le id'

theorem Quarantine.initial_bounded (F : Flags) : Quarantine.initial.Bounded F :=
  ⟨Quarantine.initial_inv, fun _ => ⟨rfl, rfl⟩, fun id => by rw [Quarantine.chunks_initial]; exact Nat.zero_le _⟩

/-- After calls whose sizes do not grow, a queue's sizes do not either, and
all but its newest chunk are below the byte limit. -/
def Quarantine.Below (F : Flags) (q : Quarantine) : Prop :=
  ∀ id, (q.chunks id).Pairwise (fun d e => e.size ≤ d.size) ∧
    totalSize (q.chunks id).dropLast < F.quarantineSize

/-- The newest chunk is not larger than the oldest, so that losing the oldest
makes room for it. -/
theorem totalSize_tail_lt {cs : List QChunk} {n : ℕ} (hp : cs.Pairwise fun d e => e.size ≤ d.size)
    (hlt : totalSize cs.dropLast < n) : totalSize cs.tail < n := by
  rcases cs with _ | ⟨d, ds⟩
  · exact hlt
  · rcases List.eq_nil_or_concat ds with rfl | ⟨es, e, rfl⟩
    · exact hlt
    · have hle : e.size ≤ d.size := (List.pairwise_cons.mp hp).1 e (by simp)
      rw [List.concat_eq_append, ← List.cons_append, List.dropLast_concat] at hlt
      rw [List.concat_eq_append, List.tail_cons, totalSize_append]
      simp only [totalSize, List.map_cons, List.sum_cons, List.map_nil, List.sum_nil] at hlt ⊢
      omega

theorem Quarantine.Below.call {F : Flags} {q q' : Quarantine} (h : q.Bounded F) (hb : q.Below F)
    {t : Tlt} {ptr c : ℕ} {rest : List QChunk}
    (hle : ∀ d ∈ q.chunks (t.info c).cmaId, ((t.info c).queued ptr).size ≤ d.size)
    (hw : totalSize (q.chunks (t.info c).cmaId) < 2 ^ 64)
    (hch : ∀ id', q'.chunks id' =
      if id' = (t.info c).cmaId then rest ++ [(t.info c).queued ptr] else q.chunks id')
    (hsuf : rest <:+ q.chunks (t.info c).cmaId)
    (hfull : (q.zone (t.info c).cmaId).Full F → rest <:+ (q.chunks (t.info c).cmaId).tail) :
    q'.Below F := by
  intro id'
  rw [hch]
  split
  · obtain ⟨hp, hlt⟩ := hb (t.info c).cmaId
    refine ⟨List.pairwise_append.mpr ⟨hp.sublist hsuf.sublist, List.pairwise_singleton _ _,
      fun d hd e he => ?_⟩, ?_⟩
    · rw [List.mem_singleton.mp he]
      exact hle d (hsuf.subset hd)
    · rw [List.dropLast_concat]
      by_cases hf : (q.zone (t.info c).cmaId).Full F
      · exact Nat.lt_of_le_of_lt (totalSize_suffix (hfull hf)) (totalSize_tail_lt hp hlt)
      · have hs := (h.counted (t.info c).cmaId).2
        rw [Nat.mod_eq_of_lt hw] at hs
        unfold QZone.Full at hf
        calc totalSize rest ≤ totalSize (q.chunks (t.info c).cmaId) := totalSize_suffix hsuf
          _ = (q.zone (t.info c).cmaId).currentCmaQuarantineSize := hs.symm
          _ < F.quarantineSize := by omega
  · exact hb id'

theorem Quarantine.initial_below {F : Flags} (hpos : 0 < F.quarantineSize) : Quarantine.initial.Below F :=
  fun id => by
    rw [Quarantine.chunks_initial]
    exact ⟨List.Pairwise.nil, hpos⟩

/-- **What the limits promise.** Calls on tracked pointers, with any tables,
always return; after each, every zone holds at most `quarantineNum` chunks,
the call's zone is what a suffix `rest` of its queue was and the new chunk,
`rest` lacks the oldest chunk if the zone was at a limit, and its bytes are
below `quarantineSize` if the zone's were. Where no call brings a chunk larger
than one its zone holds, all chunks of a zone but the newest are below
`quarantineSize` in bytes. -/
theorem pushAndPop_bounds (F : Flags) (hon : F.isQuarantineZoneOn = true) (hsize : 0 < F.quarantineSize)
    (hnum : 0 < F.quarantineNum) (hw : F.quarantineNum < 2 ^ 64) :
    (∀ es q t ptr c, Runs (callStep F) Tracked .initial es q → tltGet t ptr = some c →
      ∃ q' rest, callStep F q (t, ptr) = some q' ∧
        (∀ id, (q'.chunks id).length ≤ F.quarantineNum) ∧
        q'.chunks (t.info c).cmaId = rest ++ [(t.info c).queued ptr] ∧
        rest <:+ q.chunks (t.info c).cmaId ∧
        ((q.zone (t.info c).cmaId).Full F → rest <:+ (q.chunks (t.info c).cmaId).tail) ∧
        (totalSize (q.chunks (t.info c).cmaId) < F.quarantineSize → totalSize rest < F.quarantineSize)) ∧
    ∀ es q, Runs (callStep F) Shrinking .initial es q →
      ∀ id, totalSize (q.chunks id).dropLast < F.quarantineSize := by
  refine ⟨fun es q t ptr c hrun hget => ?_, fun es q hrun id => ?_⟩
  · have hb : q.Bounded F := Runs.invariant (fun h ⟨c, hget⟩ he => by
      obtain ⟨q', _, he', hb', -⟩ := h.call hon hnum hw hget
      exact Option.some.inj (he'.symm.trans he) ▸ hb') (Quarantine.initial_bounded F) hrun
    obtain ⟨q', rest, he, hb', hch, hsuf, hfull⟩ := hb.call hon hnum hw hget
    refine ⟨q', rest, he, hb'.num_le, by rw [hch, if_pos rfl], hsuf, hfull, fun hlt => ?_⟩
    exact Nat.lt_of_le_of_lt (totalSize_suffix hsuf) hlt
  · have hb : q.Bounded F ∧ q.Below F :=
      Runs.invariant (I := fun q => q.Bounded F ∧ q.Below F) (fun h ⟨c, hget, hle, hlt⟩ he => by
        obtain ⟨q', rest, he', hb', hch, hsuf, hfull⟩ := h.1.call hon hnum hw hget
        obtain rfl := Option.some.inj (he'.symm.trans he)
        exact ⟨hb', h.2.call h.1 hle hlt hch hsuf hfull⟩)
      ⟨Quarantine.initial_bounded F, Quarantine.initial_below hsize⟩ hrun
    exact (hb.2 id).2

/-- Limits of 256 bytes and 8192 chunks. -/
def limit256 : Flags := { quarantineSize := 256, rz := .default }

/-- Two released chunks of 32 bytes and two of 224. -/
def fourChunks : List TltOp :=
  [.insert 0x1000 8 24 7 0 0, .insert 0x2000 8 24 7 0 0, .insert 0x3000 192 32 7 0 0,
    .insert 0x4000 192 32 7 0 0, .mark 0 .deallocated 0 0 7, .mark 1 .deallocated 0 0 7,
    .mark 2 .deallocated 0 0 7, .mark 3 .deallocated 0 0 7]

/-- The fourth chunk comes to a zone at its limit; and a run in which the chunks
do not grow, the last of them at the limit too. -/
theorem pushAndPop_bounds_four_chunks : ∃ t q q' q'', TltRun fourChunks t ∧
    Runs (callStep limit256) Tracked .initial [(t, 0x1000), (t, 0x2000), (t, 0x3000)] q ∧
    callStep limit256 q (t, 0x4000) = some q' ∧ (q'.chunks 7).length ≤ 8192 ∧
    (∃ rest, q'.chunks 7 = rest ++ [(t.info 3).queued 0x4000] ∧ rest <:+ (q.chunks 7).tail) ∧
    Runs (callStep limit256) Shrinking .initial [(t, 0x3000), (t, 0x4000), (t, 0x1000)] q'' ∧
    totalSize (q''.chunks 7).dropLast < 256 := by
  have h : ((exec tltStep (fun _ _ => True) initializeTlt fourChunks).bind fun t =>
      (exec (callStep limit256) Tracked .initial [(t, 0x1000), (t, 0x2000), (t, 0x3000)]).bind fun q =>
        (exec (callStep limit256) Shrinking .initial [(t, 0x3000), (t, 0x4000), (t, 0x1000)]).map fun _ =>
          decide (tltGet t 0x4000 = some 3 ∧ (t.info 3).cmaId = 7 ∧ (q.zone 7).Full limit256)) = some true := by
    decide +kernel
  obtain ⟨t, ht, h⟩ := Option.bind_eq_some_iff.mp h
  obtain ⟨q, hq, h⟩ := Option.bind_eq_some_iff.mp h
  obtain ⟨q'', hq'', h⟩ := Option.map_eq_some_iff.mp h
  obtain ⟨hget, hid, hfull⟩ := of_decide_eq_true h
  have hbounds := pushAndPop_bounds limit256 rfl (by decide) (by decide) (by decide)
  obtain ⟨q', rest, he, hlen, hch, -, htail, -⟩ := hbounds.1 _ q t 0x4000 3 (runs_of_exec hq) hget
  rw [hid] at hch htail
  exact ⟨t, q, q', q'', runs_of_exec ht, runs_of_exec hq, he, hlen 7, ⟨rest, hch, htail hfull⟩, runs_of_exec hq'',
    hbounds.2 _ q'' (runs_of_exec hq'') 7⟩

/-- The full zone gives up a chunk of 32 bytes for one of 224. -/
theorem byte_limit_exceeded :
    ∃ t q, TltRun fourChunks t ∧
      Runs (callStep limit256) Tracked .initial [(t, 0x1000), (t, 0x2000), (t, 0x3000), (t, 0x4000)] q ∧
      limit256.quarantineSize ≤ totalSize (q.chunks 7).dropLast := by
  have h : ((exec tltStep (fun _ _ => True) initializeTlt fourChunks).bind fun t =>
      (exec (callStep limit256) Tracked .initial
        [(t, 0x1000), (t, 0x2000), (t, 0x3000), (t, 0x4000)]).map fun q =>
          decide (limit256.quarantineSize ≤ totalSize (q.chunks 7).dropLast)) = some true := by
    decide +kernel
  obtain ⟨t, ht, h⟩ := Option.bind_eq_some_iff.mp h
  obtain ⟨q, hq, h⟩ := Option.map_eq_some_iff.mp h
  exact ⟨t, q, runs_of_exec ht, runs_of_exec hq, of_decide_eq_true h⟩

end Cmasan
