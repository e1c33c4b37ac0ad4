/-
# The range that a hand-out tracks

An extended request gets the range from the granule of its pointer to the last
granule boundary of its region. The extended bytes hold at least one unit more
than the object; rounded down to units and then to granules they still end
behind it, so the redzone never vanishes, and never reach behind the region,
so regions that are apart give ranges that are apart. Which requests are
extended by a whole redzone is a matter of the unit: the padding, the redzone
and the granule behind it have to hold as many units as 16 bytes take
(`extended_by_redzone_iff`).

Key definitions: `ExtendedRequest`, `State.inserted`, `TrackedFor`.
Key theorems: `allocateCMAChunkImpl_trackedFor`, `trackedEnd_le_start`,
`handed_out_ranges`, `handed_out_shadow`, `extended_by_redzone_iff`.
-/
import Cmasan.ExtendSize
import Cmasan.Allocate

namespace Cmasan

open Lib

/-- A request that is extended, with its region in the 48-bit space. -/
structure ExtendedRequest (o : RzOptions) (ptr size granularity : ℕ) : Prop where
  ptr_pos : 0 < ptr
  size_pos : 1 ≤ size
  granularity_pos : 1 ≤ granularity
  product_lt : size * granularity < 2 ^ 64
  extended : extendSize o size granularity false ≠ size
  region_le : ptr + extendSize o size granularity false * granularity ≤ 2 ^ 48

instance (o : RzOptions) (ptr size g : ℕ) : Decidable (ExtendedRequest o ptr size g) :=
  decidable_of_iff (0 < ptr ∧ 1 ≤ size ∧ 1 ≤ g ∧ size * g < 2 ^ 64 ∧ extendSize o size g false ≠ size ∧
    ptr + extendSize o size g false * g ≤ 2 ^ 48)
    ⟨fun ⟨h1, h2, h3, h4, h5, h6⟩ => ⟨h1, h2, h3, h4, h5, h6⟩,
      fun ⟨h1, h2, h3, h4, h5, h6⟩ => ⟨h1, h2, h3, h4, h5, h6⟩⟩

/-- The chunk that a call from `s` to `s'` inserted: infos are named in order. -/
def State.inserted (s s' : State) : ChunkInfo := s'.tlt.info s.tlt.nextInfo

/-- From `s` to `s'` a chunk was inserted for the request: its entries are
those of the granules of its range, which ends, on a boundary, behind the
object and in the region; the size of its redzone was stored as it is. -/
structure TrackedFor (o : RzOptions) (s s' : State) (ptr size granularity : ℕ) : Prop where
  nextInfo : s'.tlt.nextInfo = s.tlt.nextInfo + 1
  get : ∀ a, a ≠ 0 → roundDownTo ptr 8 ≤ a → a < (s.inserted s').endAddr →
    tltGet s'.tlt a = some s.tlt.nextInfo
  start : (s.inserted s').startAddr = ptr
  chunkSize : (s.inserted s').chunkSize = size * granularity
  status : (s.inserted s').status = .allocated
  end_mod : (s.inserted s').endAddr % 8 = 0
  end_gt : ptr + size * granularity < (s.inserted s').endAddr
  end_le : (s.inserted s').endAddr ≤ ptr + extendSize o size granularity false * granularity
  rzSize : (s.inserted s').rzSize =
    usub (usub (roundDownTo (uadd ptr (umul (extendSize o size granularity false) granularity)) 8) ptr)
      (umul size granularity)
  rzSize_lt : (s.inserted s').rzSize < 2 ^ 32

section ExtendedRequest

variable {o : RzOptions} {ptr size granularity : ℕ}

theorem ExtendedRequest.end_bounds (h : ExtendedRequest o ptr size granularity) :
    ptr + size * granularity + 2 ≤ trackedEnd o ptr size granularity ∧
      trackedEnd o ptr size granularity ≤ ptr + extendSize o size granularity false * granularity ∧
      trackedEnd o ptr size granularity ≤ ptr + size * granularity + 2063 ∧
      trackedEnd o ptr size granularity % 8 = 0 :=
  trackedEnd_bounds o ptr (Nat.one_le_iff_ne_zero.mp h.size_pos)
    (Nat.one_le_iff_ne_zero.mp h.granularity_pos) h.product_lt h.extended

/-- **Ranges of regions that are apart** are apart: rounding the end of the one
down goes as far as rounding the start of the other down. -/
theorem trackedEnd_le_start {ptr' : ℕ}
    (hle : ptr + extendSize o size granularity false * granularity ≤ ptr') :
    trackedEnd o ptr size granularity ≤ roundDownTo ptr' 8 := by
  unfold trackedEnd roundDownTo
  omega

end ExtendedRequest

/-- **The hand-out of an extended request** returns, its chunk is inserted, and
its range is as `trackedEnd` says. -/
theorem allocateCMAChunkImpl_trackedFor {F : Flags} {s : State} (h : s.Inv) {ptr size g : ℕ}
    (hr : ExtendedRequest F.rz ptr size g) (k : Caller) (id : ℕ) :
    ∃ s', allocateCMAChunkImpl F k s ptr size g id = some s' ∧ TrackedFor F.rz s s' ptr size g ∧
      (s.inserted s').endAddr = trackedEnd F.rz ptr size g := by
  have hE := hr.end_bounds
  have hreg := hr.region_le
  have hp := hr.ptr_pos
  obtain ⟨t', ht', he⟩ := allocateCMAChunkImpl_extended h (Nat.one_le_iff_ne_zero.mp hr.size_pos)
    (Nat.one_le_iff_ne_zero.mp hr.granularity_pos) hr.product_lt hr.extended
    (show ptr + extendSize F.rz size g false * g + 8 < 2 ^ 64 by omega) k id
  refine ⟨_, he, ?_⟩
  have hrz : usub (usub (roundDownTo (uadd ptr (umul (extendSize F.rz size g false) g)) 8) ptr)
      (umul size g) = trackedEnd F.rz ptr size g - ptr - size * g := by
    have hend : roundDownTo (ptr + extendSize F.rz size g false * g) 8 = trackedEnd F.rz ptr size g := rfl
    rw [umul_eq (by omega), umul_eq hr.product_lt, uadd_eq (by omega), hend,
      usub_eq (show ptr ≤ trackedEnd F.rz ptr size g by omega) (by omega), usub_eq (by omega) (by omega)]
  have hins := tltInsert_inserted h.tlt (Nat.pos_iff_ne_zero.mp hp) (by omega) (by omega) ht'
  have hsum : ptr + size * g + (trackedEnd F.rz ptr size g - ptr - size * g) = trackedEnd F.rz ptr size g := by
    omega
  rw [hsum] at hins
  have h1 : (t'.info s.tlt.nextInfo).startAddr = ptr := congrArg ChunkInfo.startAddr hins.new
  have h2 : (t'.info s.tlt.nextInfo).chunkSize = size * g := congrArg ChunkInfo.chunkSize hins.new
  have h3 : (t'.info s.tlt.nextInfo).rzSize = trackedEnd F.rz ptr size g - ptr - size * g :=
    congrArg ChunkInfo.rzSize hins.new
  have h4 : (t'.info s.tlt.nextInfo).status = .allocated := congrArg ChunkInfo.status hins.new
  have hendAddr : (t'.info s.tlt.nextInfo).endAddr = trackedEnd F.rz ptr size g := by
    unfold ChunkInfo.endAddr
    rw [h1, h2, h3]
    exact hsum
  refine ⟨⟨hins.nextInfo, fun a ha hlo hhi => ?_, h1, h2, h4, ?_, ?_, ?_, ?_, ?_⟩, hendAddr⟩
  · -- the granule of an address of the range is a granule of the range
    have hhi' : a < trackedEnd F.rz ptr size g := hendAddr ▸ hhi
    unfold roundDownTo at hlo
    apply hins.get_inside (by simp [newChunk]) ha
    · unfold granule
      omega
    · unfold granule
      omega
  · exact hendAddr.symm ▸ hE.2.2.2
  · show ptr + size * g < (t'.info s.tlt.nextInfo).endAddr
    omega
  · exact hendAddr.symm ▸ hE.2.1
  · exact h3.trans hrz.symm
  · show (t'.info s.tlt.nextInfo).rzSize < 2 ^ 32
    omega

/-- **The ranges of hand-outs.** A request whose product does not wrap is never
shrunk. If it is extended, the chunk that the hand-out inserts, in any well
formed state, ends on a granule boundary behind the object and in the region,
and its redzone is stored as it is; and two hand-outs, in any two states, of
regions that are apart track ranges that are apart. -/
theorem handed_out_ranges (F : Flags) :
    (∀ size g, 1 ≤ size → 1 ≤ g → size * g < 2 ^ 64 → size ≤ extendSize F.rz size g false) ∧
    (∀ ptr size g, ExtendedRequest F.rz ptr size g → ∀ s k id, s.Inv →
      ∃ s', allocateCMAChunkImpl F k s ptr size g id = some s' ∧ TrackedFor F.rz s s' ptr size g) ∧
    ∀ ptr size g ptr' size' g', ExtendedRequest F.rz ptr size g → ExtendedRequest F.rz ptr' size' g' →
      (∀ a, ¬ (ptr ≤ a ∧ a < ptr + extendSize F.rz size g false * g ∧
        ptr' ≤ a ∧ a < ptr' + extendSize F.rz size' g' false * g')) →
      ∀ s s₁ s' s₁' k k' id id', s.Inv → s'.Inv → allocateCMAChunkImpl F k s ptr size g id = some s₁ →
        allocateCMAChunkImpl F k' s' ptr' size' g' id' = some s₁' →
        ∀ a, ¬ (roundDownTo ptr 8 ≤ a ∧ a < (s.inserted s₁).endAddr ∧
          roundDownTo ptr' 8 ≤ a ∧ a < (s'.inserted s₁').endAddr) := by
  refine ⟨fun size g _ _ hw => le_extendSize F.rz hw, fun ptr size g hr s k id h => ?_, ?_⟩
  · obtain ⟨s', he, hout, -⟩ := allocateCMAChunkImpl_trackedFor h hr k id
    exact ⟨s', he, hout⟩
  · intro ptr size g ptr' size' g' hr hr' hdisj s s₁ s' s₁' k k' id id' h h' he he'
    obtain ⟨_, he₁, -, hend⟩ := allocateCMAChunkImpl_trackedFor h hr k id
    obtain rfl := Option.some.inj (he₁.symm.trans he)
    obtain ⟨_, he₁', -, hend'⟩ := allocateCMAChunkImpl_trackedFor h' hr' k' id'
    obtain rfl := Option.some.inj (he₁'.symm.trans he')
    rw [hend, hend']
    have hE := hr.end_bounds
    have hE' := hr'.end_bounds
    -- one region ends before the other starts: the later start is in no other region
    have hsep : ptr + extendSize F.rz size g false * g ≤ ptr' ∨
        ptr' + extendSize F.rz size' g' false * g' ≤ ptr := by
      have h1 := hdisj ptr
      have h2 := hdisj ptr'
      omega
    intro a ⟨h1, h2, h3, h4⟩
    rcases hsep with hle | hle
    · have := trackedEnd_le_start (o := F.rz) hle
      omega
    · have := trackedEnd_le_start (o := F.rz) hle
      omega

/-- Two objects of 32 bytes at pointers that are not aligned, with no gap
between their regions. -/
theorem handed_out_ranges_adjacent : ∃ s₁ s₂,
    allocateCMAChunkImpl { rz := .default } {} .initial 0x602000000013 32 1 1 = some s₁ ∧
    allocateCMAChunkImpl { rz := .default } {} s₁ 0x60200000004b 32 1 1 = some s₂ ∧
    TrackedFor .default .initial s₁ 0x602000000013 32 1 ∧
    ∀ a, ¬ (roundDownTo 0x602000000013 8 ≤ a ∧ a < (State.initial.inserted s₁).endAddr ∧
      roundDownTo 0x60200000004b 8 ≤ a ∧ a < (s₁.inserted s₂).endAddr) := by
  obtain ⟨-, hret, hdisj⟩ := handed_out_ranges { rz := .default }
  obtain ⟨s₁, he₁, hout⟩ := hret 0x602000000013 32 1 (by decide +kernel) .initial {} 1 State.initial_inv
  have h₁ : s₁.Inv := allocateCMAChunkImpl_inv State.initial_inv he₁
  obtain ⟨s₂, he₂, -⟩ := hret 0x60200000004b 32 1 (by decide +kernel) s₁ {} 1 h₁
  refine ⟨s₁, s₂, he₁, he₂, hout, ?_⟩
  have hlen : extendSize RzOptions.default 32 1 false = 56 := by decide +kernel
  apply hdisj _ _ _ _ _ _ (by decide +kernel) (by decide +kernel) _ _ _ _ _ {} {} 1 1 State.initial_inv h₁ he₁ he₂
  intro a
  rw [hlen]
  omega

/-! ### The shadow -/

theorem newChunkShadow_redzone (s : Shadow) {ptr size E a : ℕ} (hE8 : E % 8 = 0) (hlo : ptr + size ≤ a)
    (hhi : a < E) : addressIsPoisoned (newChunkShadow true s ptr size E) a = true := by
  unfold addressIsPoisoned newChunkShadow
  rw [decide_eq_true_iff, if_neg (by omega)]
  by_cases hlast : a / 8 = (ptr + size) / 8 ∧ (ptr + size) % 8 ≠ 0
  · -- the granule that the object ends in
    rw [if_pos ⟨rfl, hlast⟩]
    omega
  · rw [if_neg (fun h => hlast h.2), if_pos ⟨rfl, by omega, by omega⟩]
    unfold kAsanHeapLeftRedzoneMagic
    omega

/-- **The shadow of a hand-out.** Whatever the shadow was, for every pointer
and every extended request without a wrap: the hand-out returns, the bytes of
the object are addressable, and the bytes behind it up to the end of the
tracked range are not. -/
theorem handed_out_shadow (F : Flags) (hon : F.canPoisonMemory = true) {s : State} (h : s.Inv) (shadow : Shadow)
    (ptr : ℕ) {size granularity : ℕ} (hs : 1 ≤ size) (hg : 1 ≤ granularity) (hw : size * granularity < 2 ^ 64)
    (hfit : ptr + extendSize F.rz size granularity false * granularity + 8 < 2 ^ 64)
    (hne : extendSize F.rz size granularity false ≠ size) (k : Caller) (id : ℕ) :
    ∃ s', allocateCMAChunkImpl F k { s with shadow } ptr size granularity id = some s' ∧
      (∀ b, ptr ≤ b → b < ptr + size * granularity → addressIsPoisoned s'.shadow b = false) ∧
      ∀ b, ptr + size * granularity ≤ b → b < trackedEnd F.rz ptr size granularity →
        addressIsPoisoned s'.shadow b = true := by
  have hs0 : size ≠ 0 := Nat.one_le_iff_ne_zero.mp hs
  have hg0 : granularity ≠ 0 := Nat.one_le_iff_ne_zero.mp hg
  have hE := trackedEnd_bounds F.rz ptr hs0 hg0 hw hne
  have hinv : State.Inv { s with shadow } := h.congr rfl rfl
  obtain ⟨t', -, he⟩ := allocateCMAChunkImpl_extended hinv hs0 hg0 hw hne hfit k id
  refine ⟨_, he, fun b hlo hhi => ?_, fun b hlo hhi => ?_⟩
  · exact newChunkShadow_addressable _ _ (by omega) hlo hhi
  · simp only [hon]
    exact newChunkShadow_redzone _ hE.2.2.2 hlo hhi

theorem handed_out_shadow_short :
    ∃ s', allocateCMAChunkImpl { rz := .default } {} { State.initial with shadow := fun _ => kAsanHeapFreeMagic }
        0x602000000013 3 1 1 = some s' ∧
      (∀ b, 0x602000000013 ≤ b → b < 0x602000000013 + 3 * 1 → addressIsPoisoned s'.shadow b = false) ∧
      ∀ b, 0x602000000013 + 3 * 1 ≤ b → b < trackedEnd .default 0x602000000013 3 1 →
        addressIsPoisoned s'.shadow b = true :=
  handed_out_shadow { rz := .default } rfl State.initial_inv _ _ (by decide) (by decide) (by decide)
    (by decide +kernel) (by decide +kernel) {} 1

/-! ### Requests that are extended by a redzone -/

theorem extendedBytes_eq (o : RzOptions) {r : ℕ} (h : r + 7 < 2 ^ 64) :
    extendedBytes o r = r + ((8 - r % 8) % 8 + rzLog2Size (computeRzLog o (roundUpTo r 8)) + 8) := by
  unfold extendedBytes
  rw [roundUpTo_eight h]
  omega

/-- **Which requests are extended by a redzone.** For every request for which
nothing wraps: it is extended by at least 16 bytes, and then tracked, exactly
if the bytes behind the object, which are the padding to a granule, the redzone
of its size and one granule, hold as many whole units as 16 bytes take. -/
theorem extended_by_redzone_iff (F : Flags) {size granularity : ℕ} (hs : 1 ≤ size) (hg : 1 ≤ granularity)
    (hw : extendedBytes F.rz (size * granularity) < 2 ^ 64) :
    (16 ≤ (extendSize F.rz size granularity false - size) * granularity ∧
      ∀ ptr, 0 < ptr → ptr + extendSize F.rz size granularity false * granularity ≤ 2 ^ 48 →
        ∀ s k id, s.Inv → ∃ s', allocateCMAChunkImpl F k s ptr size granularity id = some s' ∧
          TrackedFor F.rz s s' ptr size granularity) ↔
      (granularity + 15) / granularity * granularity ≤
        (8 - size * granularity % 8) % 8 +
          rzLog2Size (computeRzLog F.rz (roundUpTo (size * granularity) 8)) + 8 := by
  have hs0 : size ≠ 0 := Nat.one_le_iff_ne_zero.mp hs
  have hg0 : granularity ≠ 0 := Nat.one_le_iff_ne_zero.mp hg
  have hb := extendedBytes_bounds F.rz (size * granularity)
  have hlt : size * granularity < 2 ^ 64 := by omega
  have hle := le_extendSize F.rz hlt
  have heq : extendSize F.rz size granularity false = extendedBytes F.rz (size * granularity) / granularity := by
    rw [extendSize_eq_ite F.rz hs0 hg0, umul_eq hlt, if_pos hw]
  -- so many units make 16 bytes
  have hunits : ∀ m, 16 ≤ m * granularity ↔ (granularity + 15) / granularity ≤ m := fun m => by
    rw [Nat.div_le_iff_le_mul_add_pred hg, Nat.mul_comm granularity m]
    omega
  have hsize : 16 ≤ (extendSize F.rz size granularity false - size) * granularity ↔
      (granularity + 15) / granularity * granularity ≤
        (8 - size * granularity % 8) % 8 +
          rzLog2Size (computeRzLog F.rz (roundUpTo (size * granularity) 8)) + 8 := by
    calc 16 ≤ (extendSize F.rz size granularity false - size) * granularity
        ↔ (granularity + 15) / granularity + size ≤ extendSize F.rz size granularity false := by
          rw [hunits]
          omega
      _ ↔ (granularity + 15) / granularity * granularity + size * granularity ≤
            extendedBytes F.rz (size * granularity) := by
          rw [heq, Nat.le_div_iff_mul_le hg, Nat.add_mul]
      _ ↔ _ := by
          rw [extendedBytes_eq F.rz (by omega)]
          omega
  rw [← hsize]
  constructor
  · exact fun h => h.1
  · intro h
    refine ⟨h, fun ptr hp hreg s k id hinv => ?_⟩
    have hne : extendSize F.rz size granularity false ≠ size := fun h0 => by
      rw [h0, Nat.sub_self, Nat.zero_mul] at h
      omega
    obtain ⟨s', he, hout, -⟩ := allocateCMAChunkImpl_trackedFor hinv ⟨hp, hs, hg, hlt, hne, hreg⟩ k id
    exact ⟨s', he, hout⟩

theorem extended_by_redzone_bytes :
    16 ≤ (extendSize .default 8 1 false - 8) * 1 :=
  ((extended_by_redzone_iff { rz := .default } (by decide : 1 ≤ 8) (by decide : 1 ≤ 1)
    (by decide +kernel)).mpr (by decide +kernel)).1

/-- One object of 32 bytes is as many bytes as the extended request, and is
not tracked. -/
theorem large_unit_not_extended :
    (extendSize .default 1 32 false - 1) * 32 = 0 ∧
      ((allocateCMAChunkImpl { rz := .default } {} .initial 0x602000000010 1 32 1).map fun s =>
        tltGet s.tlt 0x602000000010) = some none := by
  decide +kernel

end Cmasan
