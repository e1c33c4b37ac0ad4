/-
# The reference point's place among the entries

A reference point that no header precedes is swapped to the front
(`addInfo_swap`); one with a header before it is beyond the end of `infos` at
its index, so the loop ends there (`addInfo_raises`). Hence the result has all
entries and the reference point first iff each reference point after a header
is the last function and needs no swap: no function is before it, or another
reference point is (`ReferenceInPlace`).

Key definitions: `ReferenceInPlace`, `Complete`.
Key theorems: `blocksLoop_complete_iff`, `getAddrInfo_complete_iff`.
-/
import Cmasan.AddrInfo

namespace Cmasan

variable {isInWhitelistMap : List Char → Option ℕ}

/-- The block is a header. -/
def Block.IsHeader : Block → Prop
  | .header _ => True
  | .function _ => False

/-- The block is the reference point. -/
def Block.IsReference : Block → Prop
  | .header _ => False
  | .function b => b.IsReference

/-- The entry is the reference point's. -/
def AddrInfo.IsReference (e : AddrInfo) : Prop := e.functionName = referencePointFname

instance (e : AddrInfo) : Decidable e.IsReference :=
  inferInstanceAs (Decidable (e.functionName = referencePointFname))

/-- The entries of the functions, in the order of the output. -/
def entriesOf (isInWhitelistMap : List Char → Option ℕ) : List Block → List AddrInfo
  | [] => []
  | .header _ :: bs => entriesOf isInWhitelistMap bs
  | .function b :: bs => b.entry isInWhitelistMap :: entriesOf isInWhitelistMap bs

/-- A reference point is first, if there is one. -/
def ReferenceFirst (infos : List AddrInfo) : Prop :=
  (∃ e ∈ infos, e.IsReference) → ∃ e, infos.head? = some e ∧ e.IsReference

/-- The result has the entries, each as often as they have it, and the
reference point first. -/
def Complete (infos entries : List AddrInfo) : Prop :=
  infos.Perm entries ∧ ((∃ e ∈ entries, e.IsReference) → ∃ e, infos.head? = some e ∧ e.IsReference)

/-- A reference point after a header is the last function, and no function or
another reference point is before it. -/
def ReferenceInPlace (bs : List Block) : Prop :=
  ∀ pre r post, bs = pre ++ r :: post → r.IsReference → (∃ h ∈ pre, h.IsHeader) →
    (∀ b ∈ post, b.IsHeader) ∧ ((∀ b ∈ pre, b.IsHeader) ∨ ∃ b ∈ pre, b.IsReference)

/-! ### One entry -/

theorem addInfo_plain (infos : List AddrInfo) (i : ℕ) {info : AddrInfo} (h : ¬ info.IsReference) :
    addInfo infos i info = .ok (infos ++ [info]) :=
  if_neg fun hc => h hc.1

theorem addInfo_first (info : AddrInfo) : addInfo [] 0 info = .ok [info] :=
  if_neg fun hc => absurd hc.2 (Nat.lt_irrefl 0)

theorem addInfo_swap (e : AddrInfo) (infos : List AddrInfo) {info : AddrInfo} (h : info.IsReference) :
    addInfo (e :: infos) (infos.length + 1) info = .ok (info :: (infos ++ [e])) := by
  have hget : ((e :: infos) ++ [info])[infos.length + 1]? = some info := by simp
  have hzero : ((e :: infos) ++ [info])[0]? = some e := rfl
  unfold addInfo
  dsimp only
  rw [if_pos ⟨h, Nat.succ_pos _⟩, hget, hzero]
  simp

theorem addInfo_raises {infos : List AddrInfo} {i : ℕ} {info : AddrInfo} (h : info.IsReference)
    (hi : infos.length < i) : addInfo infos i info = .error (infos ++ [info]) := by
  have hget : (infos ++ [info])[i]? = none := by
    apply List.getElem?_eq_none
    rw [List.length_append, List.length_singleton]
    exact hi
  unfold addInfo
  dsimp only
  rw [if_pos ⟨h, by omega⟩, hget]
  split
  · rename_i heq
    cases heq
  · rfl

theorem addInfo_front (infos : List AddrInfo) {info : AddrInfo} (h : info.IsReference) :
    ∃ infos', addInfo infos infos.length info = .ok infos' ∧ infos'.Perm (infos ++ [info]) ∧
      infos'.head? = some info := by
  cases infos with
  | nil => exact ⟨[info], addInfo_first info, .refl _, rfl⟩
  | cons e infos =>
    refine ⟨_, addInfo_swap e infos h, ?_, rfl⟩
    calc (info :: (infos ++ [e])).Perm (info :: e :: infos) := (List.perm_append_singleton e infos).cons info
      List.Perm _ ((e :: infos) ++ [info]) := (List.perm_append_singleton info (e :: infos)).symm

/-! ### The loop -/

/-- What the loop needs of the blocks that are left: `seen` says that a header
was met, `none` that no function was, `front` that a reference point was. -/
def InPlaceFrom (seen none front : Prop) (bs : List Block) : Prop :=
  ∀ pre r post, bs = pre ++ r :: post → r.IsReference → (seen ∨ ∃ h ∈ pre, h.IsHeader) →
    (∀ b ∈ post, b.IsHeader) ∧ ((none ∧ ∀ b ∈ pre, b.IsHeader) ∨ front ∨ ∃ b ∈ pre, b.IsReference)

theorem inPlaceFrom_nil (seen none front : Prop) : InPlaceFrom seen none front [] := by
  intro pre r post he
  exact absurd he.symm (List.append_ne_nil_of_right_ne_nil _ (List.cons_ne_nil _ _))

/-- One block: the reference point after a header must be in place. -/
theorem inPlaceFrom_cons (seen none front : Prop) (b : Block) (bs : List Block) :
    InPlaceFrom seen none front (b :: bs) ↔
      (b.IsReference → seen → (∀ b' ∈ bs, b'.IsHeader) ∧ (none ∨ front)) ∧
      InPlaceFrom (seen ∨ b.IsHeader) (none ∧ b.IsHeader) (front ∨ b.IsReference) bs := by
  constructor
  · intro h
    refine ⟨fun hr hs => ?_, fun pre r post he hr hs => ?_⟩
    · simpa using h [] b bs rfl hr (.inl hs)
    · have hcons := h (b :: pre) r post (congrArg (b :: ·) he) hr (by simpa [or_assoc] using hs)
      simpa [and_assoc, or_assoc] using hcons
  · intro ⟨hb, hbs⟩ pre r post he hr hs
    cases pre with
    | nil =>
      obtain ⟨rfl, rfl⟩ := List.cons.inj he
      simpa using hb hr (by simpa using hs)
    | cons b' pre =>
      obtain ⟨rfl, he'⟩ := List.cons.inj he
      have hcons := hbs pre r post he' hr (by simpa [or_assoc] using hs)
      simpa [and_assoc, or_assoc] using hcons

theorem referenceInPlace_iff (bs : List Block) :
    ReferenceInPlace bs ↔ InPlaceFrom False True False bs := by
  unfold InPlaceFrom ReferenceInPlace
  simp

theorem inPlaceFrom_of_headers (seen none front : Prop) {bs : List Block} (h : ∀ b ∈ bs, b.IsHeader) :
    InPlaceFrom seen none front bs := by
  intro pre r post he hr
  have hheader : r.IsHeader := h r (he ▸ by simp)
  cases r with
  | header _ => exact hr.elim
  | function _ => exact hheader.elim

theorem entriesOf_eq_nil_iff : ∀ bs : List Block,
    entriesOf isInWhitelistMap bs = [] ↔ ∀ b ∈ bs, b.IsHeader
  | [] => by simp [entriesOf]
  | .header _ :: bs => by simp [entriesOf, entriesOf_eq_nil_iff bs, Block.IsHeader]
  | .function _ :: bs => by simp [entriesOf, Block.IsHeader]

theorem Complete.congr {infos entries entries' : List AddrInfo} (h : entries.Perm entries') :
    Complete infos entries ↔ Complete infos entries' := by
  have hmem : (∃ e ∈ entries, e.IsReference) ↔ ∃ e ∈ entries', e.IsReference := by
    simp only [h.mem_iff]
  unfold Complete
  rw [hmem]
  exact and_congr_left fun _ => ⟨fun hp => hp.trans h, fun hp => hp.trans h.symm⟩

/-- What is complete when the loop ends at a reference point. -/
theorem complete_of_raise (infos entries : List AddrInfo) (hf : ReferenceFirst infos) {info : AddrInfo}
    (h : info.IsReference) : Complete (infos ++ [info]) (infos ++ info :: entries) ↔
      entries = [] ∧ (infos = [] ∨ ∃ e ∈ infos, e.IsReference) := by
  constructor
  · intro ⟨hperm, hfirst⟩
    have hlen := hperm.length_eq
    simp only [List.length_append, List.length_cons, List.length_nil] at hlen
    refine ⟨List.length_eq_zero_iff.mp (by omega), ?_⟩
    obtain ⟨e, he, href⟩ := hfirst ⟨info, by simp, h⟩
    cases infos with
    | nil => exact .inl rfl
    | cons e' infos =>
      obtain rfl := Option.some.inj he
      exact .inr ⟨e', List.mem_cons_self, href⟩
  · intro ⟨hnil, hfront⟩
    subst hnil
    refine ⟨.refl _, fun _ => ?_⟩
    rcases hfront with rfl | hin
    · exact ⟨info, rfl, h⟩
    · obtain ⟨e, he, href⟩ := hf hin
      exact ⟨e, by rw [List.head?_append, he]; rfl, href⟩

theorem ReferenceFirst.concat {infos : List AddrInfo} {info : AddrInfo} (hf : ReferenceFirst infos)
    (h : ¬ info.IsReference) : ReferenceFirst (infos ++ [info]) := by
  rintro ⟨e, he, hr⟩
  have hin : e ∈ infos := by
    rcases List.mem_append.mp he with he | he
    · exact he
    · exact absurd (List.mem_singleton.mp he ▸ hr) h
  obtain ⟨e', he', hr'⟩ := hf ⟨e, hin, hr⟩
  exact ⟨e', by rw [List.head?_append, he']; rfl, hr'⟩

/-- Without a header before it a reference point's entry goes to the front, and the loop goes on. -/
theorem blocksLoop_front {b : FunctionBlock} (bs : List Block) (infos : List AddrInfo)
    (href : (b.entry isInWhitelistMap).IsReference) :
    ∃ infos', infos'.head? = some (b.entry isInWhitelistMap) ∧
      blocksLoop isInWhitelistMap (infos.length + 0) (.function b :: bs) infos =
        blocksLoop isInWhitelistMap (infos'.length + 0) bs infos' ∧
      (infos ++ entriesOf isInWhitelistMap (.function b :: bs)).Perm (infos' ++ entriesOf isInWhitelistMap bs) := by
  obtain ⟨infos', hadd, hperm, hhead⟩ := addInfo_front infos href
  have hlen : infos'.length = infos.length + 1 := by
    rw [hperm.length_eq, List.length_append, List.length_singleton]
  refine ⟨infos', hhead, ?_, ?_⟩
  · rw [blocksLoop, Nat.add_zero, hadd, hlen]
  · rw [entriesOf, List.append_cons]
    exact hperm.symm.append_right _

theorem blocksLoop_raise {b : FunctionBlock} (bs : List Block) (infos : List AddrInfo) {headers : ℕ}
    (href : (b.entry isInWhitelistMap).IsReference) (hpos : 0 < headers) :
    blocksLoop isInWhitelistMap (infos.length + headers) (.function b :: bs) infos =
      infos ++ [b.entry isInWhitelistMap] := by
  rw [blocksLoop, addInfo_raises href (by omega)]

theorem blocksLoop_plain {b : FunctionBlock} (bs : List Block) (infos : List AddrInfo) (headers : ℕ)
    (href : ¬ (b.entry isInWhitelistMap).IsReference) :
    blocksLoop isInWhitelistMap (infos.length + headers) (.function b :: bs) infos =
      blocksLoop isInWhitelistMap ((infos ++ [b.entry isInWhitelistMap]).length + headers) bs
        (infos ++ [b.entry isInWhitelistMap]) := by
  rw [blocksLoop, addInfo_plain infos _ href, List.length_append, List.length_singleton, Nat.add_right_comm]

/-- **The loop over the blocks** is complete iff the reference points that are
left are in place. A block's index is the entries so far and the headers so far. -/
theorem blocksLoop_complete_iff (bs : List Block) (infos : List AddrInfo) (headers : ℕ) (hf : ReferenceFirst infos) :
    Complete (blocksLoop isInWhitelistMap (infos.length + headers) bs infos)
        (infos ++ entriesOf isInWhitelistMap bs) ↔
      InPlaceFrom (0 < headers) (infos = []) (∃ e ∈ infos, e.IsReference) bs := by
  induction bs generalizing infos headers with
  | nil =>
    rw [entriesOf, List.append_nil]
    exact iff_of_true ⟨.refl _, hf⟩ (inPlaceFrom_nil _ _ _)
  | cons block bs ih => cases block with
    | header _ =>
      rw [inPlaceFrom_cons]
      refine (ih infos (headers + 1) hf).trans ?_
      simp [Block.IsHeader, Block.IsReference]
    | function b =>
      rw [inPlaceFrom_cons]
      have hiff : (b.entry isInWhitelistMap).IsReference ↔ (Block.function b).IsReference := Iff.rfl
      by_cases href : (b.entry isInWhitelistMap).IsReference
      · rcases Nat.eq_zero_or_pos headers with rfl | hpos
        · -- no header so far: the entry goes to the front
          obtain ⟨infos', hhead, hloop, hperm⟩ := blocksLoop_front bs infos href
          have hin : b.entry isInWhitelistMap ∈ infos' := List.mem_of_mem_head? hhead
          have hnil : infos' ≠ [] := List.ne_nil_of_mem hin
          have hfront : ∃ e ∈ infos', e.IsReference := ⟨_, hin, href⟩
          have hrest := ih infos' 0 fun _ => ⟨_, hhead, href⟩
          rw [hloop, Complete.congr hperm, hrest]
          simp [Block.IsHeader, hiff.mp href, hnil, hfront]
        · -- the swap is beyond the end
          rw [blocksLoop_raise bs infos href hpos, entriesOf, complete_of_raise infos _ hf href, entriesOf_eq_nil_iff]
          constructor
          · intro hc
            exact ⟨fun _ _ => hc, inPlaceFrom_of_headers _ _ _ hc.1⟩
          · intro hc
            exact hc.1 (hiff.mp href) hpos
      · have hrest := ih (infos ++ [b.entry isInWhitelistMap]) headers (hf.concat href)
        have happ : infos ++ entriesOf isInWhitelistMap (.function b :: bs) =
            (infos ++ [b.entry isInWhitelistMap]) ++ entriesOf isInWhitelistMap bs := List.append_cons _ _ _
        rw [blocksLoop_plain bs infos headers href, happ, hrest]
        simp [Block.IsHeader, mt hiff.mpr href, href, or_and_right, exists_or]

/-! ### The script -/

/-- The script on an output is the loop over its blocks. -/
theorem getAddrInfo_text {cmaList : List (List Char)} (o : ObjdumpOutput)
    (hknown : ∀ b, .function b ∈ o.blocks → b.Known cmaList isInWhitelistMap) :
    getAddrInfo cmaList o.text isInWhitelistMap = blocksLoop isInWhitelistMap 0 o.blocks [] := by
  unfold getAddrInfo
  by_cases hc : cmaList.length = 0
  · rw [if_pos hc]
    -- nothing was asked for, so there is no function
    have hempty : ∀ bs : List Block, (∀ b, .function b ∉ bs) → ∀ i, blocksLoop isInWhitelistMap i bs [] = [] := by
      intro bs
      induction bs with
      | nil => exact fun _ _ => rfl
      | cons b bs ih =>
        intro hno i
        cases b with
        | header h => exact ih (fun b hb => hno b (List.mem_cons_of_mem _ hb)) (i + 1)
        | function b => exact absurd List.mem_cons_self (hno b)
    refine (hempty o.blocks (fun b hb => ?_) 0).symm
    have hin := (hknown b hb).1
    rw [List.length_eq_zero_iff.mp hc] at hin
    cases hin
  · rw [if_neg hc, disasResults_text]
    exact addrInfoLoop_blocks 0 o.blocks [] fun b hb => (hknown b hb).2

/-- **Every function has its entry, the reference point first**, iff the
reference points are in place. -/
theorem getAddrInfo_complete_iff {cmaList : List (List Char)} (o : ObjdumpOutput)
    (hknown : ∀ b, .function b ∈ o.blocks → b.Known cmaList isInWhitelistMap) :
    Complete (getAddrInfo cmaList o.text isInWhitelistMap) (entriesOf isInWhitelistMap o.blocks) ↔
      ReferenceInPlace o.blocks := by
  rw [getAddrInfo_text o hknown]
  refine (blocksLoop_complete_iff o.blocks [] 0 fun ⟨_, he, _⟩ => absurd he List.not_mem_nil).trans ?_
  rw [referenceInPlace_iff]
  simp

/-! ### A reference point in a section after the first -/

/-- An instruction of an example. -/
def exampleInsn (digits : List Char) (hex : ∀ c ∈ digits, Lib.isDigitOf 16 c) (h : digits ≠ []) : Insn where
  indent := [' ', ' ']
  address := ⟨digits, hex, h⟩
  rest := " nop".toList
  indent_blank := by simp
  rest_line := by decide

/-- A function of one instruction. -/
def exampleFunction (name : List Char) (h : '<' ∉ name ∧ '>' ∉ name ∧ '\n' ∉ name) (n : Insn) :
    FunctionBlock where
  address := n.address
  name := name
  more := [':']
  init := []
  last := n
  name_plain := h
  more_line := by decide

/-- `f` in one section, the reference point and `g` in the next one. -/
def twoSections : ObjdumpOutput where
  format := "a.out: file format elf64-x86-64".toList
  header := ⟨" of section .init:".toList, by decide⟩
  blocks :=
    [.function (exampleFunction ['f'] (by decide) (exampleInsn "1000".toList (List.all_eq_true.mp rfl) (by decide))),
     .header ⟨" of section .text:".toList, by decide⟩,
     .function (exampleFunction referencePointFname (by decide)
       (exampleInsn "1130".toList (List.all_eq_true.mp rfl) (by decide))),
     .function (exampleFunction ['g'] (by decide) (exampleInsn "1140".toList (List.all_eq_true.mp rfl) (by decide)))]
  format_line := by decide

theorem twoSections_known : ∀ b, .function b ∈ twoSections.blocks →
    b.Known [['f'], referencePointFname, ['g']] fun _ => some 0 := by
  intro b hb
  cases hb with
  | head => exact ⟨List.mem_cons_self, .inr rfl⟩
  | tail _ hb =>
    cases hb with
    | tail _ hb =>
      cases hb with
      | head => exact ⟨List.mem_cons_of_mem _ List.mem_cons_self, .inr rfl⟩
      | tail _ hb =>
        cases hb with
        | head =>
          exact ⟨List.mem_cons_of_mem _ (List.mem_cons_of_mem _ List.mem_cons_self), .inr rfl⟩
        | tail _ hb => cases hb

/-- `g` has no entry and `f`'s is first. -/
theorem getAddrInfo_two_sections : ¬ Complete
    (getAddrInfo [['f'], referencePointFname, ['g']] twoSections.text fun _ => some 0)
    (entriesOf (fun _ => some 0) twoSections.blocks) := by
  rw [getAddrInfo_text twoSections twoSections_known]
  intro h
  have hlen := h.1.length_eq
  revert hlen
  decide

/-- The reference point in the first section, behind `f`, and `g` in the next one. -/
def referenceInFirst : ObjdumpOutput :=
  { twoSections with
    blocks := (twoSections.blocks.take 1) ++ (twoSections.blocks.drop 2).take 1 ++
      (twoSections.blocks.drop 1).take 1 ++ twoSections.blocks.drop 3 }

/-- All three have their entries, the reference point's first. -/
theorem getAddrInfo_reference_in_first : Complete
    (getAddrInfo [['f'], referencePointFname, ['g']] referenceInFirst.text fun _ => some 0)
    (entriesOf (fun _ => some 0) referenceInFirst.blocks) := by
  have hperm : referenceInFirst.blocks.Perm twoSections.blocks := .cons _ (.swap _ _ _)
  apply (getAddrInfo_complete_iff referenceInFirst fun b hb => twoSections_known b (hperm.mem_iff.mp hb)).mpr
  apply (referenceInPlace_iff _).mpr
  rw [show referenceInFirst.blocks = [_, _, _, _] from rfl, inPlaceFrom_cons, inPlaceFrom_cons, inPlaceFrom_cons,
    inPlaceFrom_cons]
  have hname : ¬ ['g'] = referencePointFname := by decide
  have hfirst : ¬ ['f'] = referencePointFname := by decide
  refine ⟨fun h => absurd h hfirst, fun _ h => ?_, fun h => h.elim, fun h => absurd h hname, inPlaceFrom_nil _ _ _⟩
  exact (h.elim id id).elim

end Cmasan
