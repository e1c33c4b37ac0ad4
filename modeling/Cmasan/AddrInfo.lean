/-
# get_addr_info: the functions that llvm-objdump lists

`get_addr_info` takes the output of llvm-objdump apart at the empty lines and
makes one entry of each function block: its name, its first and its last
address, and whether it is in the whitelist. The reference point's entry is
to come first, as the runtime derives the base address from the first line,
and is swapped there with the block's index in hand. That index also counts
the `Disassembly` headers, which have no entry; after one, the swap raises and
the bare `except` ends the loop with what there is.

What llvm-objdump prints is an `ObjdumpOutput`: blocks of lines, each block a
header or a function. On its text the script's loop is a loop over the blocks
(`blocksLoop`), where a function's entry is its own (`FunctionBlock.entry`).

Key definitions: `AddrInfo`, `addInfo`, `addrInfoStep`, `getAddrInfo`,
`ObjdumpOutput`, `FunctionBlock.entry`, `blocksLoop`.
Key theorems: `disasResults_text`, `FunctionBlock.parseFunction_lines`,
`addrInfoLoop_blocks`.
-/
import Cmasan.Lib.PyText

namespace Cmasan

open Lib

/-! ### The script -/

/-- `STRIP_STRINGS`. -/
def stripStrings (c : Char) : Bool := c = ' ' ∨ c = '\n' ∨ c = '\t'

/-- `DISASSEMBLY_SYMBOL`. -/
def disassemblySymbol : List Char := "Disassembly".toList

/-- `REFERENCE_POINT_FNAME`. -/
def referencePointFname : List Char := "CMASanPIEReferencePoint".toList

/-- An entry of `infos`. -/
structure AddrInfo where
  functionStart : ℤ
  functionEnd : ℤ
  functionName : List Char
  isInWhitelist : ℕ
  deriving DecidableEq

/-- The address at the start of a line, before its first colon. -/
def lineAddress (line : List Char) : Option ℤ :=
  pyInt 16 (strip stripStrings (line.takeWhile (· ≠ ':')))

/-- The entry of a function's lines, `none` where Python raises. -/
def parseFunction (isInWhitelistMap : List Char → Option ℕ) (lines : List (List Char)) :
    Option AddrInfo := do
  let line ← lines[0]?
  let functionName := slice line (find '<' line + 1) (find '>' line)
  let functionStart ← lines[1]?.bind lineAddress
  let functionEnd ← lines.getLast?.bind lineAddress
  let isInWhitelist ← if functionName = referencePointFname then some 0 else isInWhitelistMap functionName
  return { functionStart, functionEnd, functionName, isInWhitelist }

/-- The end of the loop's body: the entry at the end of `infos`, the reference
point's swapped with the first one; an exception leaves `infos` as it is. -/
def addInfo (infos : List AddrInfo) (i : ℕ) (info : AddrInfo) : Except (List AddrInfo) (List AddrInfo) :=
  let infos := infos ++ [info]
  if info.functionName = referencePointFname ∧ i > 0 then
    match infos[0]?, infos[i]? with
    | some temp, some other => .ok ((infos.set 0 other).set i temp)
    | _, _ => .error infos
  else .ok infos

/-- The loop's body for the result at index `i`. -/
def addrInfoStep (isInWhitelistMap : List Char → Option ℕ) (infos : List AddrInfo) (i : ℕ)
    (result : List Char) : Except (List AddrInfo) (List AddrInfo) :=
  let lines := result.splitOn '\n'
  if (lines[0]?.getD []).take 11 = disassemblySymbol then .ok infos
  else
    match parseFunction isInWhitelistMap lines with
    | none => .error infos
    | some info => addInfo infos i info

/-- The loop in its `try`. -/
def addrInfoLoop (isInWhitelistMap : List Char → Option ℕ) :
    ℕ → List (List Char) → List AddrInfo → List AddrInfo
  | _, [], infos => infos
  | i, result :: results, infos =>
    match addrInfoStep isInWhitelistMap infos i result with
    | .error infos => infos
    | .ok infos => addrInfoLoop isInWhitelistMap (i + 1) results infos

/-- `disas_results`. -/
def disasResults (stdout : List Char) : List (List Char) :=
  ((splitDouble '\n' stdout).drop 2).map (strip stripStrings)

/-- `get_addr_info` with what llvm-objdump prints. -/
def getAddrInfo (cmaList : List (List Char)) (stdout : List Char)
    (isInWhitelistMap : List Char → Option ℕ) : List AddrInfo :=
  if cmaList.length = 0 then [] else addrInfoLoop isInWhitelistMap 0 (disasResults stdout) []

/-! ### What llvm-objdump prints -/

/-- A hexadecimal numeral. -/
structure Numeral where
  digits : List Char
  hex : ∀ c ∈ digits, isDigitOf 16 c
  ne_nil : digits ≠ []

/-- The number that a numeral writes. -/
def Numeral.value (n : Numeral) : ℤ := digitsValue 16 n.digits

/-- A line of a function: its address, a colon and the rest. -/
structure Insn where
  indent : List Char
  address : Numeral
  rest : List Char
  indent_blank : ∀ c ∈ indent, c = ' ' ∨ c = '\t'
  rest_line : '\n' ∉ rest

/-- The line as it is printed. -/
def Insn.text (n : Insn) : List Char := n.indent ++ (n.address.digits ++ ':' :: n.rest)

/-- A function block: its symbol's address, its name and its lines, of which
there is one at least. -/
structure FunctionBlock where
  address : Numeral
  name : List Char
  more : List Char
  init : List Insn
  last : Insn
  name_plain : '<' ∉ name ∧ '>' ∉ name ∧ '\n' ∉ name
  more_line : '\n' ∉ more

/-- The line with the function's name. -/
def FunctionBlock.title (b : FunctionBlock) : List Char :=
  (b.address.digits ++ [' ']) ++ '<' :: (b.name ++ '>' :: b.more)

/-- All lines of a function. -/
def FunctionBlock.lines (b : FunctionBlock) : List (List Char) :=
  (b.title :: b.init.map Insn.text) ++ [b.last.text]

/-- The first line after the title. -/
def FunctionBlock.first (b : FunctionBlock) : Insn := b.init.head?.getD b.last

/-- A header: `Disassembly` and the rest of the line. -/
structure Header where
  rest : List Char
  rest_line : '\n' ∉ rest

/-- The header as it is printed. -/
def Header.text (h : Header) : List Char := disassemblySymbol ++ h.rest

/-- A block of the output. -/
inductive Block where
  | header (h : Header)
  | function (b : FunctionBlock)

/-- The block as it is printed, without the newline at its end. -/
def Block.text : Block → List Char
  | .header h => h.text
  | .function b => joinDelim '\n' b.lines

/-- An output: the line with the file's format, the first header and the
blocks, an empty line before each. -/
structure ObjdumpOutput where
  format : List Char
  header : Header
  blocks : List Block
  format_line : '\n' ∉ format ∧ format ≠ []

/-- Blocks, an empty line before each. -/
def blocksText (bs : List Block) : List Char := bs.flatMap fun b => '\n' :: '\n' :: b.text

/-- The output as it is printed. -/
def ObjdumpOutput.text (o : ObjdumpOutput) : List Char :=
  '\n' :: o.format ++ (blocksText (.header o.header :: o.blocks) ++ ['\n'])

/-- The function is the reference point. -/
def FunctionBlock.IsReference (b : FunctionBlock) : Prop := b.name = referencePointFname

instance (b : FunctionBlock) : Decidable b.IsReference :=
  inferInstanceAs (Decidable (b.name = referencePointFname))

/-- The function is one that was asked for, and its flag is known. -/
def FunctionBlock.Known (cmaList : List (List Char)) (isInWhitelistMap : List Char → Option ℕ)
    (b : FunctionBlock) : Prop :=
  b.name ∈ cmaList ∧ (b.IsReference ∨ (isInWhitelistMap b.name).isSome)

/-- What there is to know of a function. -/
def FunctionBlock.entry (isInWhitelistMap : List Char → Option ℕ) (b : FunctionBlock) : AddrInfo where
  functionStart := b.first.address.value
  functionEnd := b.last.address.value
  functionName := b.name
  isInWhitelist := if b.IsReference then 0 else (isInWhitelistMap b.name).getD 0

/-- The loop over the blocks themselves. -/
def blocksLoop (isInWhitelistMap : List Char → Option ℕ) : ℕ → List Block → List AddrInfo → List AddrInfo
  | _, [], infos => infos
  | i, .header _ :: bs, infos => blocksLoop isInWhitelistMap (i + 1) bs infos
  | i, .function b :: bs, infos =>
    match addInfo infos i (b.entry isInWhitelistMap) with
    | .error infos => infos
    | .ok infos => blocksLoop isInWhitelistMap (i + 1) bs infos

/-! ### The lines of a block -/

theorem Numeral.not_mem (n : Numeral) {c : Char} (h : isDigitOf 16 c = false) : c ∉ n.digits :=
  fun hc => ne_of_isDigitOf (n.hex c hc) h rfl

theorem Numeral.stays (n : Numeral) {c : Char} (h : c ∈ n.digits) : stripStrings c = false := by
  have hhex := n.hex c h
  have hne : ∀ d, isDigitOf 16 d = false → c ≠ d := fun d hd => ne_of_isDigitOf hhex hd
  simp [stripStrings, hne ' ' rfl, hne '\n' rfl, hne '\t' rfl]

theorem Insn.not_mem_indent (n : Insn) {c : Char} (h₁ : c ≠ ' ') (h₂ : c ≠ '\t') : c ∉ n.indent :=
  fun hc => (n.indent_blank c hc).elim h₁ h₂

theorem Insn.newline_not_mem_text (n : Insn) : '\n' ∉ n.text := by
  have hi := n.not_mem_indent (c := '\n') (by decide) (by decide)
  have hd := n.address.not_mem (c := '\n') rfl
  simp [Insn.text, hi, hd, n.rest_line]

theorem FunctionBlock.newline_not_mem_title (b : FunctionBlock) : '\n' ∉ b.title := by
  have hd := b.address.not_mem (c := '\n') rfl
  simp [FunctionBlock.title, hd, b.name_plain.2.2, b.more_line]

theorem FunctionBlock.newline_not_mem_lines (b : FunctionBlock) : ∀ l ∈ b.lines, '\n' ∉ l := by
  intro l hl
  rcases List.mem_append.mp hl with hl | hl
  · rcases List.mem_cons.mp hl with rfl | hl
    · exact b.newline_not_mem_title
    · obtain ⟨n, -, rfl⟩ := List.mem_map.mp hl
      exact n.newline_not_mem_text
  · obtain rfl := List.mem_singleton.mp hl
    exact b.last.newline_not_mem_text

theorem FunctionBlock.lines_ne_nil (b : FunctionBlock) : ∀ l ∈ b.lines, l ≠ [] := by
  intro l hl
  have htext : ∀ n : Insn, n.text ≠ [] := fun n => by simp [Insn.text]
  rcases List.mem_append.mp hl with hl | hl
  · rcases List.mem_cons.mp hl with rfl | hl
    · simp [FunctionBlock.title]
    · obtain ⟨n, -, rfl⟩ := List.mem_map.mp hl
      exact htext n
  · obtain rfl := List.mem_singleton.mp hl
    exact htext b.last

theorem Header.newline_not_mem_text (h : Header) : '\n' ∉ h.text := by
  have hd : '\n' ∉ disassemblySymbol := by decide
  simp [Header.text, hd, h.rest_line]

theorem Header.text_ne_nil (h : Header) : h.text ≠ [] :=
  List.append_ne_nil_of_left_ne_nil (by decide) _

/-- A block has no empty line. -/
theorem Block.isChain_text (b : Block) : (b.text ++ ['\n']).IsChain (NoDouble '\n') := by
  cases b with
  | header h =>
    have hlines : ∀ l ∈ [h.text], '\n' ∉ l ∧ l ≠ [] :=
      List.forall_mem_singleton.mpr ⟨h.newline_not_mem_text, h.text_ne_nil⟩
    exact isChain_joinDelim hlines (List.cons_ne_nil _ _)
  | function b =>
    exact isChain_joinDelim (fun l hl => ⟨b.newline_not_mem_lines l hl, b.lines_ne_nil l hl⟩)
      (List.cons_ne_nil _ _)

/-- The lines before the last one, and what is before the last address's colon. -/
theorem FunctionBlock.text_eq (b : FunctionBlock) : joinDelim '\n' b.lines =
    (joinDelim '\n' (b.title :: b.init.map Insn.text) ++ '\n' :: (b.last.indent ++ b.last.address.digits))
      ++ ':' :: b.last.rest := by
  unfold FunctionBlock.lines
  rw [joinDelim_concat _ (List.cons_ne_nil _ _)]
  simp [Insn.text]

theorem Block.text_eq_cons (b : Block) : ∃ c s, b.text = c :: s ∧ stripStrings c = false := by
  cases b with
  | header h => exact ⟨'D', _, rfl, rfl⟩
  | function b =>
    obtain ⟨c, cs, hc⟩ := List.exists_cons_of_ne_nil b.address.ne_nil
    have htitle : b.title = c :: (cs ++ [' '] ++ '<' :: (b.name ++ '>' :: b.more)) := by
      rw [FunctionBlock.title, hc]
      rfl
    obtain ⟨s, hs⟩ := exists_joinDelim_cons '\n' c (cs ++ [' '] ++ '<' :: (b.name ++ '>' :: b.more))
      (b.init.map Insn.text ++ [b.last.text])
    refine ⟨c, s, ?_, b.address.stays (hc ▸ List.mem_cons_self)⟩
    rw [← hs, ← htitle]
    rfl

theorem Block.strip_text_newline (b : Block) :
    strip stripStrings (b.text ++ ['\n']) = strip stripStrings b.text := by
  obtain ⟨c, s, hb, hc⟩ := b.text_eq_cons
  rw [hb, List.cons_append, strip_eq_rdropWhile hc, strip_eq_rdropWhile hc, ← List.cons_append]
  exact rdropWhile_append_of_pos _ (List.all_eq_true.mp rfl)

/-- Splitting at the empty lines gives the blocks, up to what is stripped. -/
theorem splitDouble_blocks (b : Block) : ∀ bs : List Block,
    (splitDouble '\n' (b.text ++ (blocksText bs ++ ['\n']))).map (strip stripStrings) =
      (b :: bs).map fun b => strip stripStrings b.text
  | [] => by
    show (splitDouble '\n' (b.text ++ ['\n'])).map _ = _
    rw [splitDouble_self b.isChain_text, List.map_singleton, b.strip_text_newline]
    rfl
  | b' :: bs => by
    have htext : b.text ++ (blocksText (b' :: bs) ++ ['\n']) =
        b.text ++ '\n' :: '\n' :: (b'.text ++ (blocksText bs ++ ['\n'])) := by
      simp [blocksText]
    rw [htext, splitDouble_append _ b.isChain_text, List.map_cons, splitDouble_blocks b' bs]
    rfl

/-- **The results** are the blocks after the first header, stripped. -/
theorem disasResults_text (o : ObjdumpOutput) :
    disasResults o.text = o.blocks.map fun b => strip stripStrings b.text := by
  have hformat : (('\n' :: o.format) ++ ['\n']).IsChain (NoDouble '\n') := by
    obtain ⟨c, cs, hc⟩ := List.exists_cons_of_ne_nil o.format_line.2
    have htail := isChain_line_append (.singleton '\n') o.format_line.1 o.format_line.2
    rw [hc] at htail ⊢
    refine List.isChain_cons_cons.mpr ⟨fun he => ?_, htail⟩
    exact o.format_line.1 (hc ▸ he.2 ▸ List.mem_cons_self)
  have htext : o.text = ('\n' :: o.format) ++ '\n' :: '\n' ::
      ((Block.header o.header).text ++ (blocksText o.blocks ++ ['\n'])) := by
    simp [ObjdumpOutput.text, blocksText]
  unfold disasResults
  rw [htext, splitDouble_append _ hformat, List.map_drop, List.map_cons, splitDouble_blocks]
  rfl

/-! ### A result and its block -/

/-- The function with the end of its last line stripped. -/
def FunctionBlock.stripped (b : FunctionBlock) : FunctionBlock where
  address := b.address
  name := b.name
  more := b.more
  init := b.init
  last := { b.last with
    rest := b.last.rest.rdropWhile stripStrings
    rest_line := fun h => b.last.rest_line ((List.rdropWhile_prefix _ _).subset h) }
  name_plain := b.name_plain
  more_line := b.more_line

theorem FunctionBlock.strip_text (b : FunctionBlock) :
    strip stripStrings (Block.function b).text = joinDelim '\n' b.stripped.lines := by
  obtain ⟨c, s, hb, hc⟩ := (Block.function b).text_eq_cons
  rw [hb, strip_eq_rdropWhile hc, ← hb]
  show (joinDelim '\n' b.lines).rdropWhile stripStrings = _
  rw [b.text_eq, rdropWhile_append_cons rfl, b.stripped.text_eq]
  rfl

theorem FunctionBlock.entry_stripped (b : FunctionBlock) (isInWhitelistMap : List Char → Option ℕ) :
    b.stripped.entry isInWhitelistMap = b.entry isInWhitelistMap := by
  have hfirst : b.stripped.first.address = b.first.address := by
    unfold FunctionBlock.first
    show (b.init.head?.getD b.stripped.last).address = _
    cases b.init <;> rfl
  unfold FunctionBlock.entry
  rw [hfirst]
  rfl

theorem Numeral.strip_append (n : Numeral) {indent : List Char} (h : ∀ c ∈ indent, stripStrings c) :
    strip stripStrings (indent ++ n.digits) = n.digits := by
  unfold strip
  obtain ⟨c, cs, hc⟩ := List.exists_cons_of_ne_nil n.ne_nil
  have hstay : stripStrings c = false := n.stays (hc ▸ List.mem_cons_self)
  rw [List.dropWhile_append_of_pos h, hc, List.dropWhile_cons_of_neg (by simp [hstay]), ← hc,
    List.rdropWhile_eq_self_iff]
  intro hl
  simp [n.stays (List.getLast_mem hl)]

theorem Insn.lineAddress_text (n : Insn) : lineAddress n.text = some n.address.value := by
  have hcolon : ∀ c ∈ n.indent ++ n.address.digits, decide (c ≠ ':') = true := by
    intro c hc
    apply decide_eq_true
    rintro rfl
    rcases List.mem_append.mp hc with hc | hc
    · exact n.not_mem_indent (by decide) (by decide) hc
    · exact n.address.not_mem rfl hc
  have htake : n.text.takeWhile (· ≠ ':') = n.indent ++ n.address.digits := by
    unfold Insn.text
    rw [← List.append_assoc, List.takeWhile_append_of_pos hcolon]
    simp
  have hblank : ∀ c ∈ n.indent, stripStrings c = true := by
    intro c hc
    rcases n.indent_blank c hc with rfl | rfl <;> rfl
  unfold lineAddress
  rw [htake, n.address.strip_append hblank]
  exact pyInt_digits n.address.hex n.address.ne_nil

theorem FunctionBlock.slice_title (b : FunctionBlock) :
    slice b.title (find '<' b.title + 1) (find '>' b.title) = b.name := by
  have hlt := b.address.not_mem (c := '<') rfl
  have hgt := b.address.not_mem (c := '>') rfl
  exact slice_between (by simp [hlt]) (by simp [hgt]) b.name_plain.2.1 (by decide)

theorem FunctionBlock.lines_one (b : FunctionBlock) : b.lines[1]? = some b.first.text := by
  unfold FunctionBlock.lines FunctionBlock.first
  cases b.init <;> rfl

/-- **A function's lines** give its entry. -/
theorem FunctionBlock.parseFunction_lines {isInWhitelistMap : List Char → Option ℕ} (b : FunctionBlock)
    (h : b.IsReference ∨ (isInWhitelistMap b.name).isSome) :
    parseFunction isInWhitelistMap b.lines = some (b.entry isInWhitelistMap) := by
  have hzero : b.lines[0]? = some b.title := rfl
  have hlast : b.lines.getLast? = some b.last.text := List.getLast?_concat
  unfold parseFunction
  rw [hzero, b.lines_one, hlast]
  simp only [Option.bind_eq_bind, Option.bind_some, Insn.lineAddress_text, b.slice_title]
  by_cases hr : b.name = referencePointFname
  · rw [if_pos hr]
    exact congrArg some (congrArg (AddrInfo.mk _ _ _) (if_pos hr).symm)
  · obtain ⟨flag, hf⟩ := Option.isSome_iff_exists.mp (h.resolve_left hr)
    have hentry : (b.entry isInWhitelistMap).isInWhitelist = flag := by
      refine (if_neg hr).trans ?_
      rw [hf]
      rfl
    rw [if_neg hr, hf, ← hentry]
    rfl

theorem FunctionBlock.take_title_ne (b : FunctionBlock) : b.title.take 11 ≠ disassemblySymbol := by
  intro he
  have hone : b.title[1]? = some 'i' := by
    rw [← List.getElem?_take_of_lt (show 1 < 11 by decide), he]
    rfl
  obtain ⟨c, cs, hc⟩ := List.exists_cons_of_ne_nil b.address.ne_nil
  unfold FunctionBlock.title at hone
  rw [hc] at hone
  cases cs with
  | nil => cases hone
  | cons d ds =>
    obtain rfl := Option.some.inj hone
    exact b.address.not_mem (c := 'i') rfl (hc ▸ List.mem_cons_of_mem _ List.mem_cons_self)

/-- **One step on a function's text** adds its entry. -/
theorem addrInfoStep_function {isInWhitelistMap : List Char → Option ℕ} (infos : List AddrInfo) (i : ℕ)
    {b : FunctionBlock} (h : b.IsReference ∨ (isInWhitelistMap b.name).isSome) :
    addrInfoStep isInWhitelistMap infos i (strip stripStrings (Block.function b).text) =
      addInfo infos i (b.entry isInWhitelistMap) := by
  have hlines : (joinDelim '\n' b.stripped.lines).splitOn '\n' = b.stripped.lines :=
    splitOn_joinDelim b.stripped.newline_not_mem_lines (List.cons_ne_nil _ _)
  have hzero : b.stripped.lines[0]? = some b.stripped.title := rfl
  unfold addrInfoStep
  rw [b.strip_text, hlines]
  dsimp only
  rw [hzero, Option.getD_some, if_neg b.stripped.take_title_ne, b.stripped.parseFunction_lines h,
    b.entry_stripped]

theorem addrInfoStep_header (isInWhitelistMap : List Char → Option ℕ) (infos : List AddrInfo) (i : ℕ)
    (h : Header) : addrInfoStep isInWhitelistMap infos i (strip stripStrings (Block.header h).text) =
      .ok infos := by
  have hstrip : strip stripStrings (Block.header h).text =
      disassemblySymbol ++ h.rest.rdropWhile stripStrings := by
    obtain ⟨c, s, hb, hc⟩ := (Block.header h).text_eq_cons
    rw [hb, strip_eq_rdropWhile hc, ← hb]
    exact rdropWhile_append_cons (c := 'y') rfl ("Disassembl".toList) h.rest
  have hline : '\n' ∉ disassemblySymbol ++ h.rest.rdropWhile stripStrings := by
    intro hmem
    rcases List.mem_append.mp hmem with hmem | hmem
    · exact absurd hmem (by decide)
    · exact h.rest_line ((List.rdropWhile_prefix _ _).subset hmem)
  unfold addrInfoStep
  rw [hstrip, List.splitOn_eq_singleton hline]
  have htake : (disassemblySymbol ++ h.rest.rdropWhile stripStrings).take disassemblySymbol.length =
      disassemblySymbol := List.take_left
  exact if_pos htake

/-- **The script on an output** is the loop over its blocks, if its functions
are known. -/
theorem addrInfoLoop_blocks {isInWhitelistMap : List Char → Option ℕ} : ∀ (i : ℕ) (bs : List Block)
    (infos : List AddrInfo),
    (∀ b, .function b ∈ bs → b.IsReference ∨ (isInWhitelistMap b.name).isSome) →
    addrInfoLoop isInWhitelistMap i (bs.map fun b => strip stripStrings b.text) infos =
      blocksLoop isInWhitelistMap i bs infos
  | _, [], _, _ => rfl
  | i, .header h :: bs, infos, hknown => by
    rw [List.map_cons, addrInfoLoop, addrInfoStep_header]
    exact addrInfoLoop_blocks (i + 1) bs infos fun b hb => hknown b (List.mem_cons_of_mem _ hb)
  | i, .function b :: bs, infos, hknown => by
    rw [List.map_cons, addrInfoLoop, addrInfoStep_function _ _ (hknown b List.mem_cons_self), blocksLoop]
    cases addInfo infos i (b.entry isInWhitelistMap) with
    | error infos' => rfl
    | ok infos' =>
      exact addrInfoLoop_blocks (i + 1) bs infos' fun b' hb => hknown b' (List.mem_cons_of_mem _ hb)

end Cmasan
