/-
# Objects and their regions

An object is what the program asked for; its region is what the allocator
hands out for it, the extended size in units of the granularity. Where the
regions of two objects that are not empty have no byte in common, the first
granule of the one is none of the granules that the other enters into the
table (`Obj.Apart.granule_outside`), so that handing out one object leaves the entry
of the other as it is.

Key definitions: `Obj`, `Obj.Apart`, `Obj.Tracked`.
Key theorems: `Obj.region_ge`, `Obj.Apart.granule_outside`,
`Obj.Apart.granule_ne`.
-/
import Cmasan.HookEffects

namespace Cmasan

/-- An object, as the program asked for it. -/
structure Obj where
  ptr : ℕ
  size : ℕ
  granularity : ℕ
  id : ℕ
  deriving DecidableEq, Repr

/-- The end of the region that the allocator hands out for an object. -/
def Obj.regionEnd (o : Obj) (rz : RzOptions) : ℕ :=
  o.ptr + extendSize rz o.size o.granularity false * o.granularity

/-- The regions of two objects have no byte in common. -/
def Obj.Apart (rz : RzOptions) (o o' : Obj) : Prop :=
  o.regionEnd rz ≤ o'.ptr ∨ o'.regionEnd rz ≤ o.ptr ∨ o.regionEnd rz = o.ptr ∨ o'.regionEnd rz = o'.ptr

instance (rz : RzOptions) (o o' : Obj) : Decidable (o.Apart rz o') := by unfold Obj.Apart; infer_instance

/-- The object asks for some memory. -/
def Obj.Nonempty (o : Obj) : Prop := o.size * o.granularity ≠ 0

instance (o : Obj) : Decidable o.Nonempty := by unfold Obj.Nonempty; infer_instance

/-- The object, and the region handed out for it, lie in the 48-bit space. -/
def Obj.Fits (rz : RzOptions) (o : Obj) : Prop := Cmasan.Fits rz o.ptr o.size o.granularity

instance Obj.decidableFits (rz : RzOptions) (o : Obj) : Decidable (o.Fits rz) := by unfold Obj.Fits; infer_instance

/-- The hooks enter the object into the table. -/
structure Obj.Tracked (rz : RzOptions) (o : Obj) : Prop where
  fits : o.Fits rz
  nonempty : o.Nonempty
  extended : extendSize rz o.size o.granularity false ≠ o.size

instance Obj.decidableTracked (rz : RzOptions) (o : Obj) : Decidable (o.Tracked rz) :=
  decidable_of_iff (o.Fits rz ∧ o.Nonempty ∧ extendSize rz o.size o.granularity false ≠ o.size)
    ⟨fun ⟨h1, h2, h3⟩ => ⟨h1, h2, h3⟩, fun ⟨h1, h2, h3⟩ => ⟨h1, h2, h3⟩⟩

section

variable {rz : RzOptions} {o o' : Obj}

theorem Obj.region_ge (h : o.Fits rz) (hn : o.Nonempty) : o.ptr + 8 ≤ o.regionEnd rz := by
  have hs : o.size ≠ 0 := fun h0 => hn (by rw [h0, Nat.zero_mul])
  have hg : o.granularity ≠ 0 := fun h0 => hn (by rw [h0, Nat.mul_zero])
  have hle := le_extendSize rz (show o.size * o.granularity < 2 ^ 64 by have := h.no_wrap; omega)
  have hb := (extendedBytes_bounds rz (o.size * o.granularity)).1
  -- the extended size is at least one unit, and one more does not fit
  have hone : 1 * o.granularity ≤ extendSize rz o.size o.granularity false * o.granularity :=
    Nat.mul_le_mul_right _ (by omega)
  have hmax : extendedBytes rz (o.size * o.granularity) <
      extendSize rz o.size o.granularity false * o.granularity + o.granularity := by
    rw [extendSize_eq rz hs hg h.no_wrap]
    exact Nat.lt_div_mul_add (Nat.pos_of_ne_zero hg)
  unfold Obj.regionEnd
  omega

theorem Obj.Apart.symm (h : o.Apart rz o') : o'.Apart rz o := by
  unfold Obj.Apart at h ⊢
  omega

theorem Obj.Tracked.request (h : o.Tracked rz) : TrackedRequest rz o.ptr o.size o.granularity where
  ptr_ne := h.fits.ptr_ne
  size_ne h0 := h.nonempty (by rw [h0, Nat.zero_mul])
  granularity_ne h0 := h.nonempty (by rw [h0, Nat.mul_zero])
  no_wrap := h.fits.no_wrap
  fits := by
    have := h.fits.end_le
    omega
  extended := h.extended

theorem Obj.granule_ptr (h : o.Fits rz) : granule o.ptr = o.ptr / 8 := by
  have := h.ptr_lt
  unfold granule
  omega

theorem Obj.Tracked.granule_inside (h : o.Tracked rz) :
    o.ptr / 8 ≤ granule o.ptr ∧ granule o.ptr < trackedEnd rz o.ptr o.size o.granularity / 8 := by
  have hE := h.request.end_bounds
  rw [Obj.granule_ptr h.fits]
  omega

theorem Obj.Apart.granule_outside (ha : o.Apart rz o') (h : o.Tracked rz) (h' : o'.Fits rz) (hn : o'.Nonempty) :
    ¬ (o.ptr / 8 ≤ granule o'.ptr ∧ granule o'.ptr < trackedEnd rz o.ptr o.size o.granularity / 8) := by
  rw [Obj.granule_ptr h']
  have hr := Obj.region_ge h.fits h.nonempty
  have hr' := Obj.region_ge h' hn
  have hE := h.request.end_bounds
  have hend : trackedEnd rz o.ptr o.size o.granularity ≤ o.regionEnd rz := hE.2.1
  unfold Obj.Apart at ha
  omega

/-- Objects that are apart begin in different granules. -/
theorem Obj.Apart.granule_ne (ha : o.Apart rz o') (h : o.Fits rz) (hn : o.Nonempty) (h' : o'.Fits rz)
    (hn' : o'.Nonempty) : granule o.ptr ≠ granule o'.ptr := by
  have h1 := Obj.region_ge h hn
  have h2 := Obj.region_ge h' hn'
  rw [Obj.granule_ptr h, Obj.granule_ptr h']
  unfold Obj.Apart at ha
  omega

end

end Cmasan
