/-
# CMASanSimpleMap is a map, and its zones do not alias

From any capacity of at least one and through any inserts the buckets stay a
partition of the keys: each key is in the chain of its hash, and there once
(`SimpleMap.Keyed`). With that `find` is the last insert of the key, a key is
in one chain node, and `size` counts keys, whatever collides. A zone that is
used through such a map is therefore the zone of one id: its name is its id's
for good, and what is done to it is what was done under its id.

Key definitions: `SimpleMap.Keyed`, `SimpleMap.inserts`, `Registry.use`,
`Registry.uses`.
Key theorems: `SimpleMap.Keyed.insert`, `SimpleMap.inserts_spec`,
`Registry.uses_spec`, `simpleMap_zones_never_alias`.
-/
import Mathlib.Algebra.BigOperators.Group.Finset.Basic
import Cmasan.SimpleMap

namespace Cmasan

open Finset

variable {V Z : Type*}

/-! ### One chain -/

theorem updateEntry_eq_none_iff {key : ℕ} {value : V} : ∀ {es : List (ℕ × V)},
    updateEntry key value es = none ↔ key ∉ es.map Prod.fst
  | [] => by simp [updateEntry]
  | (k, v) :: es => by
    unfold updateEntry
    by_cases h : k = key
    · simp [h]
    · rw [if_neg h, Option.map_eq_none_iff, updateEntry_eq_none_iff]
      simp [Ne.symm h]

theorem isSome_lookup (es : List (ℕ × V)) (k : ℕ) :
    (es.lookup k).isSome ↔ k ∈ es.map Prod.fst := by
  rw [List.lookup_isSome_iff, List.mem_map]
  constructor
  · intro ⟨p, hp, he⟩
    exact ⟨p, hp, (eq_of_beq he).symm⟩
  · intro ⟨p, hp, he⟩
    exact ⟨p, hp, beq_iff_eq.mpr he.symm⟩

theorem keys_updateEntry {key : ℕ} {value : V} : ∀ {es es' : List (ℕ × V)},
    updateEntry key value es = some es' → es'.map Prod.fst = es.map Prod.fst
  | [], _, h => by cases h
  | (k, v) :: es, es', h => by
    unfold updateEntry at h
    split at h
    · rename_i he
      obtain rfl := Option.some.inj h
      simp [he]
    · obtain ⟨es₁, h₁, rfl⟩ := Option.map_eq_some_iff.mp h
      simp [keys_updateEntry h₁]

/-! ### The buckets -/

/-- The keys of a bucket's chain. -/
def SimpleMap.keys (m : SimpleMap V) (b : ℕ) : List ℕ := (m.map b).map Prod.fst

/-- Each key is in the chain of its hash, and there once. -/
structure SimpleMap.Keyed (m : SimpleMap V) : Prop where
  hashed : ∀ b, ∀ k ∈ m.keys b, m.hash k = b
  nodup : ∀ b, (m.keys b).Nodup

theorem SimpleMap.keyed_initializeOnce (capacity : ℕ) :
    (SimpleMap.initializeOnce capacity : SimpleMap V).Keyed where
  hashed _ _ h := by cases h
  nodup _ := List.nodup_nil

@[simp] theorem SimpleMap.capacity_insert (m : SimpleMap V) (key : ℕ) (value : V) :
    (m.insert key value).capacity = m.capacity := by
  unfold SimpleMap.insert
  split <;> rfl

@[simp] theorem SimpleMap.hash_insert (m : SimpleMap V) (key : ℕ) (value : V) :
    (m.insert key value).hash = m.hash := by
  funext k
  unfold SimpleMap.hash
  rw [SimpleMap.capacity_insert]

theorem SimpleMap.hash_lt {m : SimpleMap V} (h : 1 ≤ m.capacity) (key : ℕ) :
    m.hash key < m.capacity := by
  unfold SimpleMap.hash
  simp only
  split
  · omega
  · exact Nat.mod_lt _ h

/-- What `insert` does to the chains and to `size`: nothing to the keys if the
key is in its chain, a node at the front otherwise. -/
theorem SimpleMap.keys_insert (m : SimpleMap V) (key : ℕ) (value : V) :
    (key ∈ m.keys (m.hash key) ∧ (m.insert key value).keys = m.keys ∧
      (m.insert key value).size = m.size) ∨
    (key ∉ m.keys (m.hash key) ∧
      (m.insert key value).keys =
        Function.update m.keys (m.hash key) (key :: m.keys (m.hash key)) ∧
      (m.insert key value).size = m.size + 1) := by
  unfold SimpleMap.insert
  cases hu : updateEntry key value (m.map (m.hash key)) with
  | some es =>
    dsimp only
    refine .inl ⟨?_, ?_, rfl⟩
    · by_contra h
      rw [updateEntry_eq_none_iff.mpr h] at hu
      cases hu
    · funext b
      show (Function.update m.map (m.hash key) es b).map Prod.fst = (m.map b).map Prod.fst
      by_cases hb : b = m.hash key
      · subst hb
        rw [Function.update_self]
        exact keys_updateEntry hu
      · rw [Function.update_of_ne hb]
  | none =>
    dsimp only
    refine .inr ⟨updateEntry_eq_none_iff.mp hu, ?_, rfl⟩
    funext b
    show (Function.update m.map (m.hash key) ((key, value) :: m.map (m.hash key)) b).map Prod.fst = _
    by_cases hb : b = m.hash key
    · subst hb
      rw [Function.update_self, Function.update_self]
      rfl
    · rw [Function.update_of_ne hb, Function.update_of_ne hb]
      rfl

theorem SimpleMap.Keyed.insert {m : SimpleMap V} (h : m.Keyed) (key : ℕ) (value : V) :
    (m.insert key value).Keyed := by
  rcases m.keys_insert key value with ⟨-, hk, -⟩ | ⟨hnew, hk, -⟩
  · constructor
    · intro b k hkb
      rw [SimpleMap.hash_insert]
      exact h.hashed b k (hk ▸ hkb)
    · intro b
      rw [hk]
      exact h.nodup b
  · constructor
    · intro b k hkb
      rw [SimpleMap.hash_insert]
      rw [hk] at hkb
      by_cases hb : b = m.hash key
      · subst hb
        rw [Function.update_self] at hkb
        rcases List.mem_cons.mp hkb with rfl | hkb
        · rfl
        · exact h.hashed _ k hkb
      · rw [Function.update_of_ne hb] at hkb
        exact h.hashed b k hkb
    · intro b
      rw [hk]
      by_cases hb : b = m.hash key
      · subst hb
        rw [Function.update_self]
        exact List.nodup_cons.mpr ⟨hnew, h.nodup _⟩
      · rw [Function.update_of_ne hb]
        exact h.nodup b

theorem SimpleMap.isSome_find (m : SimpleMap V) (k : ℕ) :
    (m.find k).isSome ↔ k ∈ m.keys (m.hash k) := by
  unfold SimpleMap.find
  exact isSome_lookup _ k

/-- The chain nodes of a key, over all buckets. -/
def SimpleMap.nodesOf (m : SimpleMap V) (k : ℕ) : ℕ := ∑ b ∈ range m.capacity, (m.keys b).count k

theorem SimpleMap.Keyed.nodesOf {m : SimpleMap V} (h : m.Keyed) (hcap : 1 ≤ m.capacity) (k : ℕ) :
    m.nodesOf k = if (m.find k).isSome then 1 else 0 := by
  have hother : ∀ b ∈ range m.capacity, b ≠ m.hash k → (m.keys b).count k = 0 := by
    intro b _ hb
    apply List.count_eq_zero.mpr
    exact fun hk => hb (h.hashed b k hk).symm
  have hown : m.hash k ∈ range m.capacity := mem_range.mpr (SimpleMap.hash_lt hcap k)
  calc m.nodesOf k = (m.keys (m.hash k)).count k :=
        sum_eq_single_of_mem _ hown hother
    _ = if (m.find k).isSome then 1 else 0 := by
        rw [(h.nodup _).count]
        exact if_congr (m.isSome_find k).symm rfl rfl

/-! ### A sequence of inserts -/

/-- The map after the inserts, in order. -/
def SimpleMap.inserts (m : SimpleMap V) (es : List (ℕ × V)) : SimpleMap V :=
  es.foldl (fun m e => m.insert e.1 e.2) m

theorem SimpleMap.inserts_concat (m : SimpleMap V) (es : List (ℕ × V)) (e : ℕ × V) :
    m.inserts (es ++ [e]) = (m.inserts es).insert e.1 e.2 := by
  unfold SimpleMap.inserts
  rw [List.foldl_append]
  rfl

/-- The last value of a key among the inserts. -/
def lastInsert (es : List (ℕ × V)) (k : ℕ) : Option V := es.reverse.lookup k

theorem lastInsert_concat (es : List (ℕ × V)) (e : ℕ × V) (k : ℕ) :
    lastInsert (es ++ [e]) k = if k = e.1 then some e.2 else lastInsert es k := by
  unfold lastInsert
  obtain ⟨key, value⟩ := e
  rw [List.reverse_append, List.reverse_singleton, List.singleton_append]
  by_cases h : k = key
  · subst h
    simp
  · rw [if_neg h, lookup_cons_ne h]

theorem isSome_lastInsert (es : List (ℕ × V)) (k : ℕ) :
    (lastInsert es k).isSome ↔ k ∈ es.map Prod.fst := by
  unfold lastInsert
  rw [isSome_lookup, List.map_reverse, List.mem_reverse]

/-- **After any inserts** `find` is the last insert of its key, the buckets
are a partition, the array is the size that it was, and `size` is the number
of distinct keys. -/
theorem SimpleMap.inserts_spec (capacity : ℕ) (es : List (ℕ × V)) :
    ((SimpleMap.initializeOnce capacity).inserts es).Keyed ∧
    ((SimpleMap.initializeOnce capacity).inserts es).capacity = capacity ∧
    ((SimpleMap.initializeOnce capacity).inserts es).find = lastInsert es ∧
    ((SimpleMap.initializeOnce capacity).inserts es).size = (es.map Prod.fst).toFinset.card := by
  induction es using List.reverseRecOn with
  | nil => exact ⟨SimpleMap.keyed_initializeOnce capacity, rfl, rfl, rfl⟩
  | append_singleton es e ih =>
    obtain ⟨hk, hc, hf, hs⟩ := ih
    rw [SimpleMap.inserts_concat]
    refine ⟨hk.insert e.1 e.2, by rw [SimpleMap.capacity_insert, hc], ?_, ?_⟩
    · funext k
      rw [SimpleMap.find_insert, lastInsert_concat, hf]
    · have hin := SimpleMap.isSome_find ((SimpleMap.initializeOnce capacity).inserts es) e.1
      rw [hf, isSome_lastInsert] at hin
      rw [List.map_append, List.toFinset_append]
      rcases SimpleMap.keys_insert ((SimpleMap.initializeOnce capacity).inserts es) e.1 e.2 with
        ⟨hold, -, hsize⟩ | ⟨hnew, -, hsize⟩
      · -- a key that has a node was inserted before
        rw [hsize, hs, union_eq_left.mpr]
        simpa using hin.mpr hold
      · rw [hsize, hs, union_comm]
        simp [mt hin.mp hnew]

/-! ### Zones in use -/

/-- One use of an id's zone: it is found or created and written through the
pointer. -/
def Registry.use (r : Registry Z) (z : Z) (id : ℕ) (f : Z → Z) : ℕ × Registry Z :=
  let (n, r') := r.getOrCreate z id
  (n, r'.set n (f (r'.cell n)))

/-- Uses one after the other, with the zones that they got. -/
def Registry.uses (z : Z) : List (ℕ × (Z → Z)) → Registry Z → List (ℕ × ℕ) × Registry Z
  | [], r => ([], r)
  | (id, f) :: us, r =>
    let (n, r') := r.use z id f
    let (ns, r'') := Registry.uses z us r'
    ((id, n) :: ns, r'')

theorem Registry.find_use_self (r : Registry Z) (z : Z) (id : ℕ) (f : Z → Z) :
    (r.use z id f).2.map.find id = some (r.use z id f).1 :=
  r.find_getOrCreate z id

theorem Registry.find_use (r : Registry Z) (z : Z) (id : ℕ) (f : Z → Z) {id' n : ℕ}
    (h : r.map.find id' = some n) : (r.use z id f).2.map.find id' = some n := by
  show (r.getOrCreate z id).2.map.find id' = some n
  rcases r.getOrCreate_cases z id with ⟨m, -, he⟩ | ⟨hnone, he⟩
  · rw [he]
    exact h
  · rw [he]
    show (r.map.insert id r.next).find id' = some n
    have hid : id' ≠ id := fun hid => by
      rw [hid, hnone] at h
      cases h
    rw [SimpleMap.find_insert, if_neg hid, h]

theorem Registry.view_use (r : Registry Z) (z : Z) (id : ℕ) (f : Z → Z) (id' : ℕ) :
    (r.use z id f).2.view z id' = if id' = id then f (r.view z id') else r.view z id' := by
  show ((r.getOrCreate z id).2.set (r.getOrCreate z id).1
    (f ((r.getOrCreate z id).2.cell (r.getOrCreate z id).1))).view z id' = _
  rw [Registry.view_set (r.find_getOrCreate z id), r.cell_getOrCreate z id, r.view_getOrCreate]
  by_cases h : id' = id
  · subst h
    rfl
  · rw [if_neg h, if_neg h]

/-- After a run an id that had a zone has it still, each use got the zone that
its id has, and a zone is what the uses under its id made of it. -/
theorem Registry.uses_spec (z : Z) : ∀ (us : List (ℕ × (Z → Z))) (r : Registry Z),
    (∀ id n, r.map.find id = some n → (Registry.uses z us r).2.map.find id = some n) ∧
    (∀ x ∈ (Registry.uses z us r).1, (Registry.uses z us r).2.map.find x.1 = some x.2) ∧
    (∀ id, (Registry.uses z us r).2.view z id =
      (us.filter (·.1 = id)).foldl (fun zone u => u.2 zone) (r.view z id))
  | [], r => ⟨fun _ _ h => h, fun _ h => absurd h List.not_mem_nil, fun _ => rfl⟩
  | (id, f) :: us, r => by
    obtain ⟨hkeep, hgot, hview⟩ := Registry.uses_spec z us (r.use z id f).2
    refine ⟨?_, ?_, ?_⟩
    · intro id' n h
      exact hkeep id' n (r.find_use z id f h)
    · intro x hx
      rcases List.mem_cons.mp hx with rfl | hx
      · exact hkeep id _ (r.find_use_self z id f)
      · exact hgot x hx
    · intro id'
      refine (hview id').trans ?_
      rw [Registry.view_use]
      by_cases h : id' = id
      · subst h
        simp
      · rw [if_neg h, List.filter_cons_of_neg (by simpa using Ne.symm h)]

/-- **CMASanSimpleMap is a map**, and zones of different ids never alias:
`find` is the last insert of its key, an inserted key has one chain node and
another key has none, `size` is the number of distinct keys, and two uses get
one zone iff they are under one id, which no other use writes to. -/
theorem simpleMap_zones_never_alias {capacity : ℕ} (hcap : 1 ≤ capacity) (es : List (ℕ × V)) (z : Z)
    (us : List (ℕ × (Z → Z))) :
    ((∀ k, (((SimpleMap.initializeOnce capacity).inserts es).find k).isSome ↔ k ∈ es.map Prod.fst) ∧
      (∀ k, ((SimpleMap.initializeOnce capacity).inserts es).find k = lastInsert es k) ∧
      (∀ k, ((SimpleMap.initializeOnce capacity).inserts es).nodesOf k =
        if k ∈ es.map Prod.fst then 1 else 0) ∧
      ((SimpleMap.initializeOnce capacity).inserts es).size = (es.map Prod.fst).toFinset.card) ∧
    (∀ x ∈ (Registry.uses z us (.empty z)).1, ∀ y ∈ (Registry.uses z us (.empty z)).1,
      (x.2 = y.2 ↔ x.1 = y.1)) ∧
    (∀ id, (Registry.uses z us (.empty z)).2.view z id =
      (us.filter (·.1 = id)).foldl (fun zone u => u.2 zone) z) := by
  obtain ⟨hk, hc, hf, hs⟩ := SimpleMap.inserts_spec capacity es
  obtain ⟨-, hgot, hview⟩ := Registry.uses_spec z us (.empty z)
  have hsome : ∀ k, (((SimpleMap.initializeOnce capacity).inserts es).find k).isSome ↔
      k ∈ es.map Prod.fst := by
    intro k
    rw [hf]
    exact isSome_lastInsert es k
  refine ⟨⟨hsome, fun k => congrFun hf k, ?_, hs⟩, ?_, hview⟩
  · intro k
    rw [hk.nodesOf (hc.symm ▸ hcap)]
    exact if_congr (hsome k) rfl rfl
  · intro x hx y hy
    constructor
    · intro he
      exact (Registry.uses z us (.empty z)).2.distinct x.1 y.1 x.2 (hgot x hx) (he ▸ hgot y hy)
    · intro he
      have hy' := hgot y hy
      rw [← he, hgot x hx] at hy'
      exact Option.some.inj hy'

/-- Three keys in one bucket, the first of them inserted twice. -/
theorem simpleMap_zones_one_bucket :
    ((SimpleMap.initializeOnce 1).inserts [(8, 'a'), (16, 'b'), (24, 'c'), (8, 'd')]).nodesOf 8 = 1 ∧
    ((SimpleMap.initializeOnce 1).inserts [(8, 'a'), (16, 'b'), (24, 'c'), (8, 'd')]).find 8 = some 'd' :=
  have h := (simpleMap_zones_never_alias (Nat.le_refl 1) [(8, 'a'), (16, 'b'), (24, 'c'), (8, 'd')]
    (0 : ℕ) []).1
  ⟨h.2.2.1 8, h.2.1 8⟩

end Cmasan
