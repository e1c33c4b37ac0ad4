/-
# CMASanSimpleMap and the zones behind it

`CMASanSimpleMap` is a chained hash table from keys to pointers. The
quarantine zones and the allocation zones of all instances live behind one
each: a zone is looked up by its id and created on first use. `Registry` is
such a map together with the zones it points to; it carries that different
ids point to different zones, so a zone can be read and written as if it were
a function of the id (`Registry.view`).

Key definitions: `SimpleMap`, `SimpleMap.find`, `SimpleMap.insert`, `Registry`.
Key theorems: `SimpleMap.find_insert`, `Registry.view_getOrCreate`,
`Registry.view_set`.
-/
import Cmasan.Word
import Mathlib.Logic.Function.Basic

namespace Cmasan

/-- `CMASanSimpleMap`: the chain of each bucket is the list of its entries. -/
structure SimpleMap (V : Type*) where
  map : ℕ → List (ℕ × V)
  capacity : ℕ
  size : ℕ

variable {V Z : Type*}

/-- `initialize_once` of a new map. -/
def SimpleMap.initializeOnce (capacity : ℕ) : SimpleMap V := ⟨fun _ => [], capacity, 0⟩

/-- `hash`. -/
def SimpleMap.hash (m : SimpleMap V) (key : ℕ) : ℕ :=
  let key := (key >>> 3) ^^^ (key <<< 11 % 2 ^ 64)
  if key = 0 ∨ m.capacity = 0 then 0 else key % m.capacity

/-- `find`: the first entry of the key in its bucket. -/
def SimpleMap.find (m : SimpleMap V) (key : ℕ) : Option V := (m.map (m.hash key)).lookup key

/-- The walk of `insert`: the chain with the key's first entry at `value`, if it has one. -/
def updateEntry (key : ℕ) (value : V) : List (ℕ × V) → Option (List (ℕ × V))
  | [] => none
  | (k, v) :: es =>
    if k = key then some ((key, value) :: es) else (updateEntry key value es).map ((k, v) :: ·)

/-- `insert`. -/
def SimpleMap.insert (m : SimpleMap V) (key : ℕ) (value : V) : SimpleMap V :=
  match updateEntry key value (m.map (m.hash key)) with
  | some es => { m with map := Function.update m.map (m.hash key) es }
  | none =>
    { m with
      map := Function.update m.map (m.hash key) ((key, value) :: m.map (m.hash key))
      size := m.size + 1 }

theorem lookup_cons_ne {k k' : ℕ} (h : k ≠ k') (v : V) (es : List (ℕ × V)) :
    ((k', v) :: es).lookup k = es.lookup k := by
  have hb : (k == k') = false := by simpa using h
  rw [List.lookup_cons, hb]

theorem lookup_updateEntry {key : ℕ} {value : V} (k : ℕ) : ∀ {es es' : List (ℕ × V)},
    updateEntry key value es = some es' →
      es'.lookup k = if k = key then some value else es.lookup k
  | [], _, h => by cases h
  | (k₀, v₀) :: es, es', h => by
    unfold updateEntry at h
    by_cases he : k₀ = key
    · subst he
      rw [if_pos rfl] at h
      obtain rfl := Option.some.inj h
      by_cases hk : k = k₀
      · subst hk; simp
      · rw [lookup_cons_ne hk, lookup_cons_ne hk, if_neg hk]
    · rw [if_neg he] at h
      obtain ⟨es₁, h₁, rfl⟩ := Option.map_eq_some_iff.mp h
      have ih := lookup_updateEntry k h₁
      by_cases hk : k = k₀
      · subst hk; simp [he]
      · rw [lookup_cons_ne hk, lookup_cons_ne hk, ih]

@[simp] theorem SimpleMap.find_initializeOnce (capacity key : ℕ) :
    (SimpleMap.initializeOnce capacity : SimpleMap V).find key = none := rfl

/-- **`insert` sets its key and no other.** -/
theorem SimpleMap.find_insert (m : SimpleMap V) (key : ℕ) (value : V) (k : ℕ) :
    (m.insert key value).find k = if k = key then some value else m.find k := by
  unfold SimpleMap.insert
  cases hu : updateEntry key value (m.map (m.hash key)) with
  | some es =>
    show (Function.update m.map (m.hash key) es (m.hash k)).lookup k = _
    by_cases hh : m.hash k = m.hash key
    · rw [hh, Function.update_self, lookup_updateEntry k hu]
      unfold SimpleMap.find
      rw [hh]
    · have hk : k ≠ key := fun he => hh (congrArg m.hash he)
      rw [Function.update_of_ne hh, if_neg hk]
      rfl
  | none =>
    show (Function.update m.map (m.hash key) _ (m.hash k)).lookup k = _
    by_cases hh : m.hash k = m.hash key
    · rw [hh, Function.update_self]
      by_cases hk : k = key
      · subst hk; simp
      · rw [if_neg hk, lookup_cons_ne hk]
        unfold SimpleMap.find
        rw [hh]
    · have hk : k ≠ key := fun he => hh (congrArg m.hash he)
      rw [Function.update_of_ne hh, if_neg hk]
      rfl

/-! ### Zones behind a map -/

/-- A map to zones and the zones: `cell n` is the zone named `n`. Names are
used in order, and different ids have different zones. -/
structure Registry (Z : Type*) where
  map : SimpleMap ℕ
  cell : ℕ → Z
  next : ℕ
  used : ∀ id n, map.find id = some n → n < next
  distinct : ∀ id id' n, map.find id = some n → map.find id' = some n → id = id'

/-- The map before any zone was created. -/
def Registry.empty (z : Z) : Registry Z where
  map := .initializeOnce 500
  cell := fun _ => z
  next := 0
  used _ _ h := by simp at h
  distinct _ _ _ h := by simp at h

/-- A new zone `z` for an id. -/
def Registry.create (r : Registry Z) (z : Z) (id : ℕ) : Registry Z where
  map := r.map.insert id r.next
  cell := Function.update r.cell r.next z
  next := r.next + 1
  used id' n h := by
    rw [SimpleMap.find_insert] at h
    split at h
    · obtain rfl := Option.some.inj h
      omega
    · have := r.used id' n h
      omega
  distinct id₁ id₂ n h₁ h₂ := by
    rw [SimpleMap.find_insert] at h₁ h₂
    split at h₁ <;> split at h₂
    · simp [*]
    · obtain rfl := Option.some.inj h₁
      exact absurd (r.used _ _ h₂) (by omega)
    · obtain rfl := Option.some.inj h₂
      exact absurd (r.used _ _ h₁) (by omega)
    · exact r.distinct id₁ id₂ n h₁ h₂

/-- Find the zone of an id, or create it as `z`. -/
def Registry.getOrCreate (r : Registry Z) (z : Z) (id : ℕ) : ℕ × Registry Z :=
  match r.map.find id with
  | some n => (n, r)
  | none => (r.next, r.create z id)

/-- A write to the zone named `n`. -/
def Registry.set (r : Registry Z) (n : ℕ) (z : Z) : Registry Z :=
  { r with cell := Function.update r.cell n z }

/-- The zone of an id as it is, or as it is to be created. -/
def Registry.view (r : Registry Z) (z : Z) (id : ℕ) : Z :=
  match r.map.find id with
  | some n => r.cell n
  | none => z

theorem Registry.getOrCreate_cases (r : Registry Z) (z : Z) (id : ℕ) :
    (∃ n, r.map.find id = some n ∧ r.getOrCreate z id = (n, r)) ∨
      r.map.find id = none ∧ r.getOrCreate z id = (r.next, r.create z id) := by
  unfold Registry.getOrCreate
  split
  · rename_i n h
    exact .inl ⟨n, h, rfl⟩
  · rename_i h
    exact .inr ⟨h, rfl⟩

/-- The zone that is found or created is the id's. -/
theorem Registry.find_getOrCreate (r : Registry Z) (z : Z) (id : ℕ) :
    (r.getOrCreate z id).2.map.find id = some (r.getOrCreate z id).1 := by
  rcases r.getOrCreate_cases z id with ⟨n, h, he⟩ | ⟨h, he⟩
  · rw [he]
    exact h
  · rw [he]
    show (r.map.insert id r.next).find id = _
    rw [SimpleMap.find_insert, if_pos rfl]

/-- **Finding or creating a zone** changes the zone of no id. -/
@[simp] theorem Registry.view_getOrCreate (r : Registry Z) (z : Z) (id id' : ℕ) :
    (r.getOrCreate z id).2.view z id' = r.view z id' := by
  rcases r.getOrCreate_cases z id with ⟨n, h, he⟩ | ⟨h, he⟩
  · rw [he]
  · rw [he]
    unfold Registry.view Registry.create
    rw [SimpleMap.find_insert]
    by_cases hid : id' = id
    · subst hid
      simp [h]
    · simp only [if_neg hid]
      cases hf : r.map.find id' with
      | none => rfl
      | some n =>
        have := r.used id' n hf
        exact Function.update_of_ne (by omega) _ _

theorem Registry.cell_getOrCreate (r : Registry Z) (z : Z) (id : ℕ) :
    (r.getOrCreate z id).2.cell (r.getOrCreate z id).1 = r.view z id := by
  rw [← r.view_getOrCreate z id id]
  unfold Registry.view
  rw [r.find_getOrCreate z id]

/-- **A write through a zone's pointer** is a write to its id's zone. -/
theorem Registry.view_set {r : Registry Z} {id n : ℕ} (h : r.map.find id = some n) (z z' : Z)
    (id' : ℕ) : (r.set n z').view z id' = if id' = id then z' else r.view z id' := by
  unfold Registry.view Registry.set
  by_cases hid : id' = id
  · subst hid
    simp [h]
  · rw [if_neg hid]
    cases hf : r.map.find id' with
    | none => rfl
    | some m =>
      have hm : m ≠ n := fun he => hid (r.distinct id' id n (he ▸ hf) h)
      exact Function.update_of_ne hm _ _

end Cmasan
