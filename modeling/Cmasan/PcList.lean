/-
# The list of CMA code ranges

`run_pc_extractor` writes one line for each CMA function it finds: start, end,
name and whether the function is in the whitelist only. The runtime reads the
lines back with a scanner that works in the buffer: a space is overwritten
with a zero byte and starts the next argument, and a newline ends the line and
adds what it says to the tables `whitelist_pc_range` and `cma_pc_range`.

`InitializeCMAInformation` and `CMASanOnDlOpen` each have a copy of the
scanner. The copies differ in three places, which are the parameters of one
scanner here (`PcParser`): what `'-'` does, what a line does to the tables,
and whether `arg2` is cleared for the next line.

Every write to a table is logged with its index, and a run that a CHECK stops
keeps the tables as they then stand.

Key definitions: `CacheEntry`, `runPcExtractor`, `PcTables`, `PcParser.scan`,
`initializeCMAInformation`, `onDlOpen`.
-/
import Mathlib.Logic.Function.Basic
import Cmasan.Word
import Cmasan.Lib.CText

namespace Cmasan

open Lib

/-- What `get_addr_info` returns for one function. -/
structure CacheEntry where
  functionStart : ℕ
  functionEnd : ℕ
  functionName : List UInt8
  isInWhitelist : Bool
  name_word : ∀ b ∈ functionName, b ≠ 0 ∧ b ≠ ' '.toUInt8 ∧ b ≠ '\n'.toUInt8

/-- `is_in_whitelist` as it is written. -/
def CacheEntry.flag (e : CacheEntry) : UInt8 := if e.isInWhitelist then '1'.toUInt8 else '0'.toUInt8

/-- `CACHE_ENTRY_FORMAT`. -/
def CacheEntry.format (e : CacheEntry) : List UInt8 :=
  decimal e.functionStart ++ ' '.toUInt8 :: (decimal e.functionEnd ++ ' '.toUInt8 ::
    (e.functionName ++ ' '.toUInt8 :: [e.flag, '\n'.toUInt8]))

/-- The file that `run_pc_extractor` writes; `none`: it writes none. -/
def runPcExtractor (isSharedLib : Bool) (infoInTarget infoInSharedLibs : List CacheEntry) :
    Option (List UInt8) :=
  if infoInTarget.length = 0 then none
  else some (infoInTarget.flatMap CacheEntry.format ++
    if isSharedLib then [] else '-'.toUInt8 :: '\n'.toUInt8 :: infoInSharedLibs.flatMap CacheEntry.format)

/-- `CMA_MAX_N`, the length of both tables. -/
def cmaMaxN : ℕ := 500

/-- The two tables. -/
inductive PcTable where
  | cma
  | whitelist
  deriving DecidableEq, Repr

/-- The tables of code ranges, with the log of the writes to them. -/
structure PcTables where
  cmaPcRange : ℕ → ℕ × ℕ := fun _ => (0, 0)
  whitelistPcRange : ℕ → ℕ × ℕ := fun _ => (0, 0)
  cmaCount : ℕ := 0
  whitelistCount : ℕ := 0
  baseAddress : ℕ := 0
  writes : List (PcTable × ℕ) := []

namespace PcTables

/-- A write to `whitelist_pc_range`. -/
def setWhitelist (t : PcTables) (i : ℕ) (range : ℕ × ℕ) : PcTables :=
  { t with whitelistPcRange := Function.update t.whitelistPcRange i range
           writes := t.writes ++ [(.whitelist, i)] }

/-- A write to `cma_pc_range`. -/
def setCma (t : PcTables) (i : ℕ) (range : ℕ × ℕ) : PcTables :=
  { t with cmaPcRange := Function.update t.cmaPcRange i range
           writes := t.writes ++ [(.cma, i)] }

/-- A range at the end of `whitelist_pc_range`. -/
def addWhitelist (t : PcTables) (range : ℕ × ℕ) : PcTables :=
  { t.setWhitelist t.whitelistCount range with whitelistCount := t.whitelistCount + 1 }

/-- A range at the end of `cma_pc_range`. -/
def addCma (t : PcTables) (range : ℕ × ℕ) : PcTables :=
  { t.setCma t.cmaCount range with cmaCount := t.cmaCount + 1 }

/-- The CHECK on the counts. -/
def checkCounts (t : PcTables) : Except PcTables PcTables :=
  if t.cmaCount < cmaMaxN ∧ t.whitelistCount < cmaMaxN then .ok t else .error t

/-- One range for both tables, or for the whitelist only, and the CHECK. -/
def addRange (t : PcTables) (range : ℕ × ℕ) (isOnlyInWhitelist : Bool) : Except PcTables PcTables :=
  checkCounts (if isOnlyInWhitelist then t.addWhitelist range else (t.addWhitelist range).addCma range)

end PcTables

/-- What the runtime takes from elsewhere: `internal_simple_strtoll` in base
10, as a `uptr`, and the address of `CMASanPIEReferencePoint`. -/
structure PcLoader where
  strtoll : List UInt8 → ℕ
  pieReference : ℕ

/-- A line, its words parsed. -/
structure PcLine where
  functionStart : ℕ
  functionEnd : ℕ
  functionName : List UInt8
  isOnlyInWhitelist : Bool

/-- The variables of the scanner. `read` is the buffer before `p` as the
scanner left it; `arg1`, `arg2` and `arg3` are positions in the buffer, 0 for
the null pointer, as an argument never starts at the buffer's first byte. -/
structure PcScan where
  read : List UInt8 := []
  arg1 : ℕ := 0
  arg2 : ℕ := 0
  arg3 : ℕ := 0
  lineLen : ℕ := 0
  isEntryComplete : Bool := false

namespace PcScan

/-- A space ends a word; the next one starts behind it. -/
def onSpace (s : PcScan) : PcScan :=
  let p := s.read.length
  let s' := { s with read := s.read ++ [0], lineLen := s.lineLen + 1 }
  if s.arg1 = 0 then { s' with arg1 := p + 1 }
  else if s.arg2 = 0 then { s' with arg2 := p + 1 }
  else { s' with arg3 := p + 1, isEntryComplete := true }

/-- Any other byte of a line. -/
def onByte (s : PcScan) (b : UInt8) : PcScan :=
  { s with read := s.read ++ [b], lineLen := s.lineLen + 1 }

/-- The arguments at the end of a line, where `*p = '\0'` has been written. -/
def line (L : PcLoader) (s : PcScan) : PcLine :=
  let buffer := s.read ++ [0]
  let arg0 := s.read.length - s.lineLen
  { functionStart := L.strtoll (cString buffer arg0)
    functionEnd := L.strtoll (cString buffer s.arg1)
    functionName := cString buffer s.arg2
    isOnlyInWhitelist := buffer.getD s.arg3 0 = '1'.toUInt8 }

/-- The variables for the next line. -/
def nextLine (resetsArg2 : Bool) (s : PcScan) : PcScan :=
  { s with read := s.read ++ [0], isEntryComplete := false, arg1 := 0
           arg2 := if resetsArg2 then 0 else s.arg2, lineLen := 0 }

end PcScan

/-- What a copy of the scanner does of its own, on a state `σ` that has the
tables. -/
structure PcParser (σ : Type) where
  tables : σ → PcTables
  /-- what `'-'` does; `none`: it is a byte like any other -/
  dash : Option (σ → σ)
  onLine : PcLine → σ → Except PcTables σ
  resetsArg2 : Bool

/-- The scanner on the bytes from `p` on; the buffer goes on with zeros. -/
def PcParser.scan {σ : Type} (P : PcParser σ) (L : PcLoader) :
    List UInt8 → PcScan → σ → Except PcTables σ
  | [], _, st => .ok st
  | b :: rest, s, st =>
    if b = 0 then .ok st
    else if b = '-'.toUInt8 ∧ P.dash.isSome then
      match rest with
      | [] => .ok ((P.dash.getD id) st)
      | c :: rest =>
        -- `p += 2`: the byte after the '-' is not looked at
        P.scan L rest { s with read := s.read ++ [b, c], lineLen := 0 } ((P.dash.getD id) st)
    else if b = '\n'.toUInt8 then
      if s.isEntryComplete then
        P.onLine (s.line L) st >>= fun st => P.scan L rest (s.nextLine P.resetsArg2) st
      else .error (P.tables st)
    else if b = ' '.toUInt8 then P.scan L rest s.onSpace st
    else P.scan L rest (s.onByte b) st

/-- The state of `InitializeCMAInformation`. -/
structure InitState where
  tables : PcTables
  isBaseInitialized : Bool := false
  isSharedLibMode : Bool := false

/-- A line of the part on the target itself. -/
def initStaticLine (L : PcLoader) (l : PcLine) (st : InitState) : Except PcTables InitState :=
  if st.isBaseInitialized then
    let base := st.tables.baseAddress
    (st.tables.addRange (uadd base l.functionStart, uadd base l.functionEnd) l.isOnlyInWhitelist).map
      ({ st with tables := · })
  else
    .ok { st with tables := { st.tables with baseAddress := usub L.pieReference l.functionStart }
                  isBaseInitialized := true }

/-- A line of the part on the shared libraries; `dlsym` gives 0 for a name it
does not find. -/
def initSharedLine (dlsym : List UInt8 → ℕ) (l : PcLine) (st : InitState) : Except PcTables InitState :=
  let len := usub l.functionEnd l.functionStart
  let sfunctionStart := dlsym l.functionName
  if sfunctionStart = 0 then .ok st
  else
    (st.tables.addRange (sfunctionStart, uadd sfunctionStart len) l.isOnlyInWhitelist).map
      ({ st with tables := · })

/-- The scanner of `InitializeCMAInformation`. -/
def initParser (L : PcLoader) (dlsym : List UInt8 → ℕ) : PcParser InitState where
  tables := InitState.tables
  dash := some ({ · with isSharedLibMode := true })
  onLine l st := if st.isSharedLibMode then initSharedLine dlsym l st else initStaticLine L l st
  resetsArg2 := true

/-- `InitializeCMAInformation` on the contents of the cache file; `none`: it
cannot be read. -/
def initializeCMAInformation (L : PcLoader) (dlsym : List UInt8 → ℕ) (file : Option (List UInt8))
    (t : PcTables) : Except PcTables PcTables :=
  match file with
  | none => .ok t
  | some buffer =>
    if buffer.length = 0 then .ok t
    else ((initParser L dlsym).scan L buffer {} { tables := t }).map InitState.tables

/-- A line in `CMASanOnDlOpen`. The end of the whitelist range is computed from
`cma_pc_range`, and the count that follows it is `cma_count`. -/
def dlOpenLine (dlsym : List UInt8 → ℕ) (l : PcLine) (t : PcTables) : Except PcTables PcTables :=
  let len := usub l.functionEnd l.functionStart
  let sfunctionStart := dlsym l.functionName
  if sfunctionStart = 0 then .ok t
  else
    let t := t.setWhitelist t.whitelistCount
      (sfunctionStart, uadd (t.cmaPcRange t.whitelistCount).1 len)
    let t := { t with cmaCount := t.cmaCount + 1 }
    PcTables.checkCounts
      (if l.isOnlyInWhitelist then t else t.addCma (sfunctionStart, uadd sfunctionStart len))

/-- The scanner of `CMASanOnDlOpen`: no `'-'`, and `arg2` is not cleared. -/
def dlOpenParser (dlsym : List UInt8 → ℕ) : PcParser PcTables where
  tables := id
  dash := none
  onLine := dlOpenLine dlsym
  resetsArg2 := false

/-- `CMASanOnDlOpen` on the contents of the library's cache file, with the
symbols of its handle; `none`: there is no file. -/
def onDlOpen (L : PcLoader) (dlsym : List UInt8 → ℕ) (file : Option (List UInt8)) (t : PcTables) :
    Except PcTables PcTables :=
  match file with
  | none => .ok t
  | some buffer =>
    if buffer.length = 0 then .ok t else (dlOpenParser dlsym).scan L buffer {} t

/-- The ranges in `whitelist_pc_range`. -/
def PcTables.whitelistRanges (t : PcTables) : List (ℕ × ℕ) :=
  (List.range t.whitelistCount).map t.whitelistPcRange

/-- The ranges in `cma_pc_range`. -/
def PcTables.cmaRanges (t : PcTables) : List (ℕ × ℕ) := (List.range t.cmaCount).map t.cmaPcRange

end Cmasan
