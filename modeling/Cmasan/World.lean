/-
# A program and its custom allocators around the hooks

The hooks run between a program and a custom allocator. The program asks for
objects, frees them and reallocates them; the allocator hands out regions of
the extended size, frees what a release hook returns to it, and drops
everything of an instance at a `CLEAR`. `World` adds to the state of the
runtime what these two know: `held` are the objects that the allocator has
handed out and not got back, `live` those of them that the program may use,
and `frees` are the pointers that the release hooks passed on to the
allocator's own free, in order.

A `realloc` is one event: its `Start`, the free of the old object inside it if
the allocator calls its own instrumented free there, and its `End`. When it
succeeds the old object is gone; so it is in place, where the allocator takes
it back and hands out the new one in its region. When it returns null the old
object is still live, unless the allocator took it back (a `realloc` to 0).

Key definitions: `World`, `WorldEvent`, `World.step`, `World.Legal`.
-/
import Cmasan.Objects
import Cmasan.Lib.Ledger

namespace Cmasan

open Lib

/-- A pointer that a release hook under `id` passed on to the allocator, and
whether the allocator held it. -/
structure Passed where
  id : ℕ
  ptr : ℕ
  held : Bool
  deriving DecidableEq, Repr

/-- The runtime, and what the allocators and the program know. -/
structure World where
  st : State
  held : List Obj
  live : List Obj
  frees : List Passed

/-- Nothing handed out yet. -/
def World.initial : World := ⟨.initial, [], [], []⟩

/-- What the program and the allocators do. -/
inductive WorldEvent
  | allocate (k : Caller) (o : Obj)
  | release (k : Caller) (o : Obj)
  | realloc (k₁ k₂ : Caller) (old : Obj) (nested : Option Bool) (freesOld : Bool) (new : Obj)
  | reallocNull (k : Caller) (o : Obj)
  | clear (k : Caller) (id : ℕ)
  | gc (id : ℕ)
  | reclaim (o : Obj)

/-- The allocator's free of what a release hook returned; 0 is nothing. -/
def World.passOn (w : World) (id ptr : ℕ) : World :=
  if ptr = 0 then w
  else
    match w.held.find? (·.ptr = ptr) with
    | some o => { w with held := w.held.erase o, frees := w.frees ++ [⟨id, ptr, true⟩] }
    | none => { w with frees := w.frees ++ [⟨id, ptr, false⟩] }

/-- The program's free of a live object; `isInCma` as the hook sees it. -/
def World.free (F : Flags) (k : Caller) (w : World) (o : Obj) (isInCma : Bool) : Option World :=
  (releaseCMAChunk F k w.st o.ptr o.id isInCma).map fun (r, st) =>
    ({ w with st, live := w.live.erase o } : World).passOn o.id r

/-- A free inside a `realloc`, if there is one. -/
def World.nestedFree (F : Flags) (k : Caller) (w : World) (o : Obj) : Option Bool → Option World
  | none => some w
  | some isInCma => w.free F k o isInCma

/-- A new object is handed out. -/
def World.handOut (w : World) (o : Obj) : World := { w with held := o :: w.held, live := o :: w.live }

/-- The old object of a `realloc` is not live any more; the allocator takes it
back itself (`freesOld`) or not. -/
def World.dropOld (w : World) (old : Obj) (freesOld : Bool) : World :=
  { w with
    held := if freesOld then w.held.erase old else w.held
    live := w.live.erase old }

/-- One event. -/
def World.step (F : Flags) (w : World) : WorldEvent → Option World
  | .allocate k o =>
    (allocateCMAChunk F k w.st o.ptr o.size o.granularity o.id false).map fun st =>
      ({ w with st } : World).handOut o
  | .release k o => w.free F k o false
  | .realloc k₁ k₂ old nested freesOld new =>
    (World.nestedFree F k₁ { w with st := reallocateCMAChunkStart F w.st old.ptr false old.id } old
      nested).bind fun w =>
        (reallocateCMAChunkEnd F k₂ w.st old.ptr new.ptr new.size new.granularity old.id false).map
          fun st =>
            let w : World := { w with st }
            if new.ptr = 0 then (if freesOld then w.dropOld old true else w)
            else (w.dropOld old freesOld).handOut new
  | .reallocNull k o =>
    (reallocateCMAChunkEnd F k (reallocateCMAChunkStart F w.st 0 false o.id) 0 o.ptr o.size o.granularity
      o.id false).map fun st => ({ w with st } : World).handOut o
  | .clear k id =>
    (clearCMAChunks F k w.st id).map fun st =>
      { w with st, held := w.held.filter (·.id ≠ id), live := w.live.filter (·.id ≠ id) }
  | .gc id => some { w with st := emptyOnGC F w.st id }
  | .reclaim o => some { w with held := w.held.erase o, live := w.live.erase o }

/-- What the program and the allocators may do: objects are freed while they
are live, and the region of a new object is apart from those of the objects in
`occupied`. -/
def World.Legal (F : Flags) (occupied : World → List Obj) (w : World) : WorldEvent → Prop
  | .allocate _ o => o.ptr ≠ 0 ∧ ∀ o' ∈ occupied w, o.Apart F.rz o'
  | .release _ o => o ∈ w.live
  | .realloc k₁ _ old nested freesOld new =>
    old ∈ w.live ∧ (nested.isSome → freesOld = false) ∧
      (new.ptr ≠ 0 → new.id = old.id ∧
        ∀ w' ∈ World.nestedFree F k₁ { w with st := reallocateCMAChunkStart F w.st old.ptr false old.id } old
          nested, ∀ o' ∈ occupied (w'.dropOld old freesOld), new.Apart F.rz o')
  | .reallocNull _ o => o.ptr ≠ 0 ∧ ∀ o' ∈ occupied w, o.Apart F.rz o'
  | .clear _ _ => True
  | .gc _ => True
  | .reclaim _ => True

/-- The object that an event hands out, if there is one. -/
def WorldEvent.handsOut : WorldEvent → Option Obj
  | .allocate _ o => some o
  | .realloc _ _ _ _ _ new => if new.ptr = 0 then none else some new
  | .reallocNull _ o => some o
  | .release _ _ | .clear _ _ | .gc _ | .reclaim _ => none

instance (F : Flags) (occupied : World → List Obj) (w : World) (e : WorldEvent) :
    Decidable (w.Legal F occupied e) := by
  cases e <;> (unfold World.Legal; infer_instance)

/-- The pointers in the queue of an id. -/
def World.queued (w : World) (id : ℕ) : List ℕ := (w.st.qz.chunks id).map (·.ptr)

theorem World.passOn_st (w : World) (id ptr : ℕ) : (w.passOn id ptr).st = w.st := by
  unfold World.passOn
  split
  · rfl
  · split <;> rfl

theorem World.passOn_zero (w : World) (id : ℕ) : w.passOn id 0 = w := if_pos rfl

/-- The pointer of a held object that is passed on leaves `held`. -/
theorem World.passOn_held {w : World} {p : ℕ} (id : ℕ) (hp : p ≠ 0) (hm : p ∈ w.held.map (·.ptr)) :
    ∃ o ∈ w.held, o.ptr = p ∧
      w.passOn id p = { w with held := w.held.erase o, frees := w.frees ++ [⟨id, p, true⟩] } := by
  obtain ⟨o, hfind⟩ : ∃ o, w.held.find? (·.ptr = p) = some o := by
    obtain ⟨o, ho, he⟩ := List.mem_map.mp hm
    exact Option.isSome_iff_exists.mp (List.find?_isSome.mpr ⟨o, ho, by simpa using he⟩)
  refine ⟨o, List.mem_of_find?_eq_some hfind, by simpa using List.find?_some hfind, ?_⟩
  unfold World.passOn
  rw [if_neg hp, hfind]

/-- A free is a release, and what it returns is passed on. -/
theorem World.free_cases {F : Flags} {k : Caller} {w w' : World} {o : Obj} {b : Bool}
    (he : w.free F k o b = some w') : ∃ r st, releaseCMAChunk F k w.st o.ptr o.id b = some (r, st) ∧
      w' = World.passOn { w with st := st, live := w.live.erase o } o.id r := by
  obtain ⟨⟨r, st⟩, hr, rfl⟩ := Option.map_eq_some_iff.mp he
  exact ⟨r, st, hr, rfl⟩

theorem World.passOn_live (w : World) (id ptr : ℕ) : (w.passOn id ptr).live = w.live := by
  unfold World.passOn
  split
  · rfl
  · split <;> rfl

end Cmasan
