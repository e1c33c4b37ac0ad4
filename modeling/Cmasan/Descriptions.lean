/-
# How a report describes a heap access

`GetHeapAddressInformation` describes an access to a tracked chunk in a branch
of its own, and any other heap access through the native chunk that
`FindHeapChunkByAddress` finds. Both say where the access is: to the left of
the chunk, to the right of it or inside, at which address and at what distance.
The branch for tracked chunks takes the distance from the chunk's beginning
whatever the access, does not look at the access size and has no case for the
left. So it says what the native description says for accesses that stay
inside the chunk, and for those beyond the end of an empty one
(`DescribedAlike`), and for no other.

Key definitions: `ChunkAccess`, `getAccessToHeapChunkInformation`,
`cmaChunkAccess`, `getHeapAddressInformation`, `DescribedAlike`.
Key theorems: `native_inside`, `native_right`, `cmaChunkAccess_right`,
`sameAccess_iff`, `getHeapAddressInformation_alike_iff`.
-/
import Cmasan.Tlt

namespace Cmasan

/-- A word as `sptr`. -/
def sptr (w : ℕ) : ℤ := if w < 2 ^ 63 then w else w - 2 ^ 64

/-- `AccessType`. -/
inductive AccessType where
  | left
  | right
  | inside
  | unknown
  deriving DecidableEq, Repr

/-- `ChunkAccess`. -/
structure ChunkAccess where
  badAddr : ℕ
  offset : ℤ
  accessType : AccessType
  chunkBegin : ℕ
  chunkSize : ℕ
  userRequestedAlignment : ℕ
  allocType : ℕ
  deriving DecidableEq

/-- `HeapAddressDescription`; the free stack id is set if there is a freeing
thread. -/
structure HeapAddressDescription where
  addr : ℕ
  allocTid : ℕ
  freeTid : ℕ
  allocStackId : ℕ
  freeStackId : Option ℕ
  chunkAccess : ChunkAccess

/-- What `AsanChunkView` says of a native chunk. -/
structure AsanChunkView where
  beg : ℕ
  usedSize : ℕ
  userRequestedAlignment : ℕ
  allocType : ℕ
  allocTid : ℕ
  freeTid : ℕ
  allocStackId : ℕ
  freeStackId : ℕ

namespace AsanChunkView

/-- `End`. -/
def end_ (v : AsanChunkView) : ℕ := uadd v.beg v.usedSize

/-- `AddrIsAtLeft`, with the offset it sets. -/
def addrIsAtLeft (v : AsanChunkView) (addr : ℕ) : Option ℕ :=
  if addr < v.beg then some (usub v.beg addr) else none

/-- `AddrIsAtRight`. -/
def addrIsAtRight (v : AsanChunkView) (addr accessSize : ℕ) : Option ℕ :=
  if uadd addr accessSize > v.end_ then some (usub addr v.end_) else none

/-- `AddrIsInside`. -/
def addrIsInside (v : AsanChunkView) (addr accessSize : ℕ) : Option ℕ :=
  if addr ≥ v.beg ∧ uadd addr accessSize ≤ v.end_ then some (usub addr v.beg) else none

end AsanChunkView

/-- `GetAccessToHeapChunkInformation`; an unknown access leaves the offset as
it was, which is here 0. -/
def getAccessToHeapChunkInformation (chunk : AsanChunkView) (addr accessSize : ℕ) : ChunkAccess :=
  let descr : ChunkAccess :=
    { badAddr := addr, offset := 0, accessType := .unknown, chunkBegin := chunk.beg
      chunkSize := chunk.usedSize, userRequestedAlignment := chunk.userRequestedAlignment
      allocType := chunk.allocType }
  match chunk.addrIsAtLeft addr with
  | some offset => { descr with offset := sptr offset, accessType := .left }
  | none =>
    match chunk.addrIsAtRight addr accessSize with
    | some offset =>
      if sptr offset < 0 then { descr with badAddr := usub addr offset, offset := 0, accessType := .right }
      else { descr with offset := sptr offset, accessType := .right }
    | none =>
      match chunk.addrIsInside addr accessSize with
      | some offset => { descr with offset := sptr offset, accessType := .inside }
      | none => descr

/-- The access in the branch for tracked chunks. -/
def cmaChunkAccess (chunkInfo : ChunkInfo) (addr : ℕ) : ChunkAccess where
  badAddr := addr
  offset := sptr (usub addr chunkInfo.startAddr)
  accessType :=
    if addr ≥ chunkInfo.startAddr then
      if addr ≥ uadd chunkInfo.startAddr chunkInfo.chunkSize then .right else .inside
    else .unknown
  chunkBegin := chunkInfo.startAddr
  chunkSize := chunkInfo.chunkSize
  userRequestedAlignment := chunkInfo.startAddr % 8
  allocType := 0

/-- `GetHeapAddressInformation`; `none` is a failed CHECK, `some none` that no
chunk is found. -/
def getHeapAddressInformation (t : Tlt) (findHeapChunkByAddress : ℕ → Option AsanChunkView)
    (addr accessSize : ℕ) : Option (Option HeapAddressDescription) :=
  match tltGet t addr with
  | some c =>
    let chunkInfo := t.info c
    if chunkInfo.allocThreadId = kInvalidTid then none
    else some (some
      { addr, allocTid := chunkInfo.allocThreadId, freeTid := chunkInfo.freeThreadId
        allocStackId := chunkInfo.allocStackId
        freeStackId := if chunkInfo.freeThreadId = kInvalidTid then none else some chunkInfo.freeStackId
        chunkAccess := cmaChunkAccess chunkInfo addr })
  | none =>
    match findHeapChunkByAddress addr with
    | none => some none
    | some chunk =>
      if chunk.allocTid = kInvalidTid then none
      else some (some
        { addr, allocTid := chunk.allocTid, freeTid := chunk.freeTid, allocStackId := chunk.allocStackId
          freeStackId := if chunk.freeTid = kInvalidTid then none else some chunk.freeStackId
          chunkAccess := getAccessToHeapChunkInformation chunk addr accessSize })

/-- A native chunk with the beginning and the size of a tracked one. -/
def ChunkInfo.asNative (i : ChunkInfo) : AsanChunkView :=
  ⟨i.startAddr, i.chunkSize, i.startAddr % 8, 0, i.allocThreadId, i.freeThreadId, i.allocStackId, i.freeStackId⟩

/-- Two descriptions say the same of where the access is. -/
def ChunkAccess.SameAccess (d d' : ChunkAccess) : Prop :=
  d.accessType = d'.accessType ∧ d.badAddr = d'.badAddr ∧ d.offset = d'.offset

instance (d d' : ChunkAccess) : Decidable (d.SameAccess d') :=
  inferInstanceAs (Decidable (d.accessType = d'.accessType ∧ d.badAddr = d'.badAddr ∧ d.offset = d'.offset))

/-- The accesses that both descriptions describe alike: inside the chunk from
its beginning on, or beyond the end of an empty chunk. -/
def DescribedAlike (i : ChunkInfo) (addr accessSize : ℕ) : Prop :=
  i.startAddr ≤ addr ∧
    ((addr < uadd i.startAddr i.chunkSize ∧ uadd addr accessSize ≤ uadd i.startAddr i.chunkSize) ∨
      (i.chunkSize = 0 ∧ uadd i.startAddr i.chunkSize < uadd addr accessSize ∧
        addr - i.startAddr < 2 ^ 63))

/-! ### Words as signed numbers -/

theorem sptr_eq {w : ℕ} (h : w < 2 ^ 63) : sptr w = w := if_pos h

theorem sptr_nonneg_iff {w : ℕ} (h : w < 2 ^ 64) : 0 ≤ sptr w ↔ w < 2 ^ 63 := by
  unfold sptr
  split <;> omega

theorem sptr_inj {v w : ℕ} (hv : v < 2 ^ 64) (hw : w < 2 ^ 64) : sptr v = sptr w ↔ v = w := by
  unfold sptr
  split <;> split <;> omega

theorem usub_lt (a b : ℕ) : usub a b < 2 ^ 64 := Nat.mod_lt _ (by decide)

theorem uadd_lt (a b : ℕ) : uadd a b < 2 ^ 64 := Nat.mod_lt _ (by decide)

theorem usub_right_inj {a b c : ℕ} (hb : b < 2 ^ 64) (hc : c < 2 ^ 64) : usub a b = usub a c ↔ b = c := by
  unfold usub
  omega

/-! ### The two descriptions -/

section Access

variable (i : ChunkInfo) (addr accessSize : ℕ)

theorem native_left (h : addr < i.startAddr) :
    (getAccessToHeapChunkInformation i.asNative addr accessSize).accessType = .left := by
  have hl : i.asNative.addrIsAtLeft addr = some (usub i.startAddr addr) := if_pos h
  unfold getAccessToHeapChunkInformation
  rw [hl]

theorem native_inside (h : i.startAddr ≤ addr)
    (hin : uadd addr accessSize ≤ uadd i.startAddr i.chunkSize) :
    (getAccessToHeapChunkInformation i.asNative addr accessSize).accessType = .inside ∧
    (getAccessToHeapChunkInformation i.asNative addr accessSize).badAddr = addr ∧
    (getAccessToHeapChunkInformation i.asNative addr accessSize).offset = sptr (usub addr i.startAddr) := by
  have hl : i.asNative.addrIsAtLeft addr = none := if_neg (Nat.not_lt.mpr h)
  have hr : i.asNative.addrIsAtRight addr accessSize = none := if_neg (Nat.not_lt.mpr hin)
  have hi : i.asNative.addrIsInside addr accessSize = some (usub addr i.startAddr) := if_pos ⟨h, hin⟩
  unfold getAccessToHeapChunkInformation
  rw [hl, hr, hi]
  exact ⟨rfl, rfl, rfl⟩

/-- The native description of an access that ends to the right of the chunk:
the distance is from the end, and a negative one moves the bad address there. -/
theorem native_right (h : i.startAddr ≤ addr)
    (hout : uadd i.startAddr i.chunkSize < uadd addr accessSize) :
    (getAccessToHeapChunkInformation i.asNative addr accessSize).accessType = .right ∧
    (getAccessToHeapChunkInformation i.asNative addr accessSize).badAddr =
      (if sptr (usub addr (uadd i.startAddr i.chunkSize)) < 0 then
        usub addr (usub addr (uadd i.startAddr i.chunkSize)) else addr) ∧
    (getAccessToHeapChunkInformation i.asNative addr accessSize).offset =
      if sptr (usub addr (uadd i.startAddr i.chunkSize)) < 0 then 0
      else sptr (usub addr (uadd i.startAddr i.chunkSize)) := by
  have hl : i.asNative.addrIsAtLeft addr = none := if_neg (Nat.not_lt.mpr h)
  have hr : i.asNative.addrIsAtRight addr accessSize = some (usub addr (uadd i.startAddr i.chunkSize)) :=
    if_pos hout
  unfold getAccessToHeapChunkInformation
  rw [hl, hr]
  dsimp only
  split <;> exact ⟨rfl, rfl, rfl⟩

theorem cmaChunkAccess_type (h : i.startAddr ≤ addr) : (cmaChunkAccess i addr).accessType =
    if uadd i.startAddr i.chunkSize ≤ addr then .right else .inside :=
  if_pos h

/-- **To the right of a chunk** the tracked description is off by the chunk's
size. -/
theorem cmaChunkAccess_right (hend : i.startAddr + i.chunkSize ≤ addr) (ha : addr < 2 ^ 63) :
    (cmaChunkAccess i addr).accessType = .right ∧
      (cmaChunkAccess i addr).offset = sptr (usub addr (uadd i.startAddr i.chunkSize)) + i.chunkSize := by
  have he : uadd i.startAddr i.chunkSize = i.startAddr + i.chunkSize := uadd_eq (by omega)
  constructor
  · rw [cmaChunkAccess_type i addr (by omega), he, if_pos hend]
  · show sptr (usub addr i.startAddr) = _
    rw [he, usub_eq (by omega) (by omega), usub_eq hend (by omega), sptr_eq (by omega), sptr_eq (by omega)]
    omega

end Access

theorem uadd_eq_left_iff {a b : ℕ} (ha : a < 2 ^ 64) (hb : b < 2 ^ 64) : uadd a b = a ↔ b = 0 := by
  unfold uadd
  omega

/-- Beyond the end both descriptions are alike for an empty chunk only. -/
theorem sameAccess_right_iff {i : ChunkInfo} {addr accessSize : ℕ} (ha : addr < 2 ^ 64)
    (hs : i.startAddr < 2 ^ 64) (hz : i.chunkSize < 2 ^ 64) (h : i.startAddr ≤ addr)
    (hout : uadd i.startAddr i.chunkSize < uadd addr accessSize)
    (hend : uadd i.startAddr i.chunkSize ≤ addr) :
    (cmaChunkAccess i addr).SameAccess (getAccessToHeapChunkInformation i.asNative addr accessSize) ↔
      i.chunkSize = 0 ∧ addr - i.startAddr < 2 ^ 63 := by
  obtain ⟨htype, hbad, hoffset⟩ := native_right i addr accessSize h hout
  have hdist : usub addr (uadd i.startAddr i.chunkSize) = addr - uadd i.startAddr i.chunkSize :=
    usub_eq hend ha
  have hempty := uadd_eq_left_iff hs hz
  unfold ChunkAccess.SameAccess
  rw [htype, cmaChunkAccess_type i addr h, if_pos hend, hbad, hoffset, hdist]
  by_cases hneg : addr - uadd i.startAddr i.chunkSize < 2 ^ 63
  · have hnonneg : ¬ sptr (addr - uadd i.startAddr i.chunkSize) < 0 := by
      rw [sptr_eq hneg]
      omega
    rw [if_neg hnonneg, if_neg hnonneg, ← hdist]
    show _ ∧ addr = addr ∧ sptr (usub addr i.startAddr) = _ ↔ _
    rw [sptr_inj (usub_lt _ _) (usub_lt _ _), usub_right_inj hs (uadd_lt _ _),
      eq_comm (a := i.startAddr), hempty]
    constructor
    · intro ⟨_, _, h0⟩
      refine ⟨h0, ?_⟩
      rw [hempty.mpr h0] at hneg
      exact hneg
    · intro ⟨h0, _⟩
      exact ⟨rfl, rfl, h0⟩
  · -- a distance that is negative as `sptr`: the native description is at the end
    have hlt : sptr (addr - uadd i.startAddr i.chunkSize) < 0 := by
      have := mt (sptr_nonneg_iff (w := addr - uadd i.startAddr i.chunkSize) (by omega)).mp hneg
      omega
    rw [if_pos hlt]
    constructor
    · intro ⟨_, hb, _⟩
      have hback : usub addr (addr - uadd i.startAddr i.chunkSize) = uadd i.startAddr i.chunkSize := by
        rw [usub_eq (by omega) ha]
        omega
      have hb : addr = usub addr (addr - uadd i.startAddr i.chunkSize) := hb
      omega
    · intro ⟨h0, hlt'⟩
      rw [hempty.mpr h0] at hneg
      exact absurd hlt' hneg

/-- **The two descriptions are alike iff** the access is one of
`DescribedAlike`. -/
theorem sameAccess_iff {i : ChunkInfo} {addr : ℕ} (accessSize : ℕ) (ha : addr < 2 ^ 64)
    (hs : i.startAddr < 2 ^ 64) (hz : i.chunkSize < 2 ^ 64) :
    (cmaChunkAccess i addr).SameAccess (getAccessToHeapChunkInformation i.asNative addr accessSize) ↔
      DescribedAlike i addr accessSize := by
  have hempty := uadd_eq_left_iff hs hz
  by_cases h : i.startAddr ≤ addr
  · by_cases hin : uadd addr accessSize ≤ uadd i.startAddr i.chunkSize
    · obtain ⟨htype, hbad, hoffset⟩ := native_inside i addr accessSize h hin
      unfold ChunkAccess.SameAccess DescribedAlike
      rw [htype, hbad, hoffset, cmaChunkAccess_type i addr h]
      constructor
      · intro ⟨hty, _, _⟩
        refine ⟨h, .inl ⟨?_, hin⟩⟩
        by_contra hge
        rw [if_pos (Nat.not_lt.mp hge)] at hty
        cases hty
      · intro ⟨_, hcase⟩
        have hlt : addr < uadd i.startAddr i.chunkSize := by omega
        exact ⟨if_neg (Nat.not_le.mpr hlt), rfl, rfl⟩
    · have hout := Nat.not_le.mp hin
      by_cases hend : uadd i.startAddr i.chunkSize ≤ addr
      · rw [sameAccess_right_iff ha hs hz h hout hend]
        unfold DescribedAlike
        constructor
        · intro ⟨h0, hd⟩
          exact ⟨h, .inr ⟨h0, hout, hd⟩⟩
        · intro ⟨_, hcase⟩
          omega
      · -- the access straddles the end
        obtain ⟨htype, -, -⟩ := native_right i addr accessSize h hout
        unfold ChunkAccess.SameAccess DescribedAlike
        rw [htype, cmaChunkAccess_type i addr h, if_neg hend]
        constructor
        · intro ⟨hty, _⟩
          cases hty
        · intro ⟨_, hcase⟩
          omega
  · have htype := native_left i addr accessSize (Nat.not_le.mp h)
    have hcma : (cmaChunkAccess i addr).accessType = .unknown := if_neg h
    unfold ChunkAccess.SameAccess DescribedAlike
    rw [htype, hcma]
    constructor
    · intro ⟨hty, _⟩
      cases hty
    · intro ⟨hle, _⟩
      exact absurd hle h

/-- **A tracked chunk's access is described as a native chunk's would be iff**
it is one of `DescribedAlike`. -/
theorem getHeapAddressInformation_alike_iff {t : Tlt} {findHeapChunkByAddress : ℕ → Option AsanChunkView}
    {addr c : ℕ} {d : HeapAddressDescription} (accessSize : ℕ) (hc : tltGet t addr = some c)
    (ha : addr < 2 ^ 64) (hs : (t.info c).startAddr < 2 ^ 64) (hz : (t.info c).chunkSize < 2 ^ 64)
    (hd : getHeapAddressInformation t findHeapChunkByAddress addr accessSize = some (some d)) :
    d.chunkAccess.SameAccess (getAccessToHeapChunkInformation (t.info c).asNative addr accessSize) ↔
      DescribedAlike (t.info c) addr accessSize := by
  have haccess : d.chunkAccess = cmaChunkAccess (t.info c) addr := by
    unfold getHeapAddressInformation at hd
    rw [hc] at hd
    dsimp only at hd
    split at hd
    · cases hd
    · obtain rfl := Option.some.inj (Option.some.inj hd)
      rfl
  rw [haccess]
  exact sameAccess_iff accessSize ha hs hz

/-! ### A chunk of 16 bytes and its redzone -/

/-- A one-byte access at an address of the chunk at 0x1000 is described, and
whether it is described as a native chunk's would be. -/
def describesSixteen (addr : ℕ) (alike : Bool) (t : Tlt) : Bool :=
  decide (tltGet t addr = some 0 ∧ (t.info 0).startAddr = 0x1000 ∧ (t.info 0).chunkSize = 16) &&
    ((getHeapAddressInformation t (fun _ => none) addr 1).join.map fun d =>
      decide (d.chunkAccess.SameAccess
        (getAccessToHeapChunkInformation (t.info 0).asNative addr 1))) == some alike

/-- The first byte after the chunk is described as 16 bytes to the right of
it; the native description says 0. -/
theorem description_off_by_size : ∃ t d, tltInsert initializeTlt 0x1000 16 16 0 0 1 = some t ∧
    tltGet t 0x1010 = some 0 ∧
    getHeapAddressInformation t (fun _ => none) 0x1010 1 = some (some d) ∧
    ¬ d.chunkAccess.SameAccess (getAccessToHeapChunkInformation (t.info 0).asNative 0x1010 1) := by
  have hrun : (tltInsert initializeTlt 0x1000 16 16 0 0 1).map (describesSixteen 0x1010 false) = some true := by
    decide +kernel
  obtain ⟨t, ht, hdesc⟩ := Option.map_eq_some_iff.mp hrun
  obtain ⟨hget, hsame⟩ := (Bool.and_eq_true _ _).mp hdesc
  obtain ⟨d, hd, hne⟩ := Option.map_eq_some_iff.mp (eq_of_beq hsame)
  exact ⟨t, d, ht, (of_decide_eq_true hget).1, Option.join_eq_some_iff.mp hd, of_decide_eq_false hne⟩

/-- The last byte of the chunk is described as a native chunk's. -/
theorem description_last_byte : ∃ t d, tltInsert initializeTlt 0x1000 16 16 0 0 1 = some t ∧
    getHeapAddressInformation t (fun _ => none) 0x100f 1 = some (some d) ∧
    d.chunkAccess.SameAccess (getAccessToHeapChunkInformation (t.info 0).asNative 0x100f 1) := by
  have hrun : (tltInsert initializeTlt 0x1000 16 16 0 0 1).map (describesSixteen 0x100f true) = some true := by
    decide +kernel
  obtain ⟨t, ht, hdesc⟩ := Option.map_eq_some_iff.mp hrun
  obtain ⟨hget, hsame⟩ := (Bool.and_eq_true _ _).mp hdesc
  obtain ⟨hc, hstart, hsize⟩ := of_decide_eq_true hget
  obtain ⟨d, hd, -⟩ := Option.map_eq_some_iff.mp (eq_of_beq hsame)
  have hd := Option.join_eq_some_iff.mp hd
  refine ⟨t, d, ht, hd, ?_⟩
  apply (getHeapAddressInformation_alike_iff 1 hc (by decide) (by rw [hstart]; decide)
    (by rw [hsize]; decide) hd).mpr
  unfold DescribedAlike
  rw [hstart, hsize]
  exact ⟨by decide, .inl ⟨by decide, by decide⟩⟩

end Cmasan
