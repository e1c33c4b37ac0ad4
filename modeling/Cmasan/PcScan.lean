/-
# The scanner on what the extractor writes

A line of `run_pc_extractor` is scanned as a whole (`scan_entry`): it comes out
with its two numbers and its flag, and with the name that `arg2` points to.
That is the line's own name when `arg2` was clear at its start, and otherwise
the name it still holds of an earlier line (`PcScan.AtLine`). So
`InitializeCMAInformation` takes the entries one by one with their names
(`scan_entries`), and `CMASanOnDlOpen` takes each with the first one's
(`onDlOpen_eq`).

Key definitions: `PcParser.Plain`, `CacheEntry.line`, `PcScan.AtLine`.
Key theorems: `scan_entry`, `scan_entries`, `onDlOpen_eq`.
-/
import Cmasan.PcList

namespace Cmasan

open Lib

variable {σ : Type} (P : PcParser σ) (L : PcLoader)

/-- A byte that the scanner takes as part of a word. -/
def PcParser.Plain (b : UInt8) : Prop :=
  b ≠ 0 ∧ b ≠ ' '.toUInt8 ∧ b ≠ '\n'.toUInt8 ∧ (P.dash.isSome → b ≠ '-'.toUInt8)

theorem plain_of_isDigit {b : UInt8} (h : isDigit b) : P.Plain b :=
  ⟨ne_of_isDigit h (by decide), ne_of_isDigit h (by decide), ne_of_isDigit h (by decide),
    fun _ => ne_of_isDigit h (by decide)⟩

theorem plain_of_mem_decimal {n : ℕ} : ∀ b ∈ decimal n, P.Plain b :=
  fun _ hb => plain_of_isDigit P (isDigit_of_mem_decimal hb)

theorem zero_notMem_decimal (n : ℕ) : 0 ∉ decimal n :=
  fun h => ne_of_isDigit (isDigit_of_mem_decimal h) (by decide) rfl

theorem CacheEntry.zero_notMem_name (e : CacheEntry) : 0 ∉ e.functionName := fun h => (e.name_word 0 h).1 rfl

theorem CacheEntry.plain_flag (e : CacheEntry) : P.Plain e.flag := by
  apply plain_of_isDigit
  unfold flag
  cases e.isInWhitelist <;> decide

theorem CacheEntry.flag_eq_one (e : CacheEntry) : decide (e.flag = '1'.toUInt8) = e.isInWhitelist := by
  unfold flag
  cases e.isInWhitelist <;> decide

/-- The line with the name that the scanner takes for it. -/
def CacheEntry.line (e : CacheEntry) (name : List UInt8) : PcLine where
  functionStart := L.strtoll (decimal e.functionStart)
  functionEnd := L.strtoll (decimal e.functionEnd)
  functionName := name
  isOnlyInWhitelist := e.isInWhitelist

theorem scan_byte {b : UInt8} (hb : P.Plain b) (rest : List UInt8) (s : PcScan) (st : σ) :
    P.scan L (b :: rest) s st = P.scan L rest (s.onByte b) st := by
  obtain ⟨h0, hspace, hnewline, hd⟩ := hb
  have hdash : ¬ (b = '-'.toUInt8 ∧ P.dash.isSome) := fun h => hd h.2 h.1
  conv_lhs => unfold PcParser.scan
  rw [if_neg h0, if_neg hdash, if_neg hnewline, if_neg hspace]

theorem scan_space (rest : List UInt8) (s : PcScan) (st : σ) :
    P.scan L (' '.toUInt8 :: rest) s st = P.scan L rest s.onSpace st := by
  conv_lhs => unfold PcParser.scan
  rw [if_neg (by decide), if_neg fun h => absurd h.1 (by decide), if_neg (by decide), if_pos rfl]

theorem scan_newline {s : PcScan} (h : s.isEntryComplete) (rest : List UInt8) (st : σ) :
    P.scan L ('\n'.toUInt8 :: rest) s st =
      P.onLine (s.line L) st >>= P.scan L rest (s.nextLine P.resetsArg2) := by
  conv_lhs => unfold PcParser.scan
  rw [if_neg (by decide), if_neg fun h => absurd h.1 (by decide), if_pos rfl, if_pos h]

/-- A `'-'` starts the other part of the file; the byte behind it is skipped. -/
theorem scan_dash {f : σ → σ} (hf : P.dash = some f) (c : UInt8) (rest : List UInt8) (s : PcScan) (st : σ) :
    P.scan L ('-'.toUInt8 :: c :: rest) s st =
      P.scan L rest { s with read := s.read ++ ['-'.toUInt8, c], lineLen := 0 } (f st) := by
  conv_lhs => unfold PcParser.scan
  rw [if_neg (by decide), if_pos ⟨rfl, by rw [hf]; rfl⟩, hf]
  rfl

namespace PcScan

/-- The variables after a word. -/
def onWord (s : PcScan) (w : List UInt8) : PcScan :=
  { s with read := s.read ++ w, lineLen := s.lineLen + w.length }

/-- The variables at the newline of an entry. -/
def onEntry (s : PcScan) (e : CacheEntry) : PcScan :=
  ((((((s.onWord (decimal e.functionStart)).onSpace).onWord (decimal e.functionEnd)).onSpace).onWord
    e.functionName).onSpace).onByte e.flag

/-- At the start of a line, with `arg2` clear or still at the name `held`. -/
structure AtLine (s : PcScan) (held : Option (List UInt8)) : Prop where
  arg1 : s.arg1 = 0
  lineLen : s.lineLen = 0
  isEntryComplete : s.isEntryComplete = false
  arg2 : held.elim (s.arg2 = 0) fun name => s.arg2 ≠ 0 ∧ 0 ∉ name ∧
    ∃ before after, s.read = before ++ (name ++ 0 :: after) ∧ s.arg2 = before.length

theorem atLine_start : AtLine {} none := ⟨rfl, rfl, rfl, rfl⟩

end PcScan

theorem scan_word : ∀ {w : List UInt8} (_ : ∀ b ∈ w, P.Plain b) (rest : List UInt8) (s : PcScan) (st : σ),
    P.scan L (w ++ rest) s st = P.scan L rest (s.onWord w) st
  | [], _, _, s, st => by simp [PcScan.onWord]
  | b :: w, h, rest, s, st => by
    rw [List.cons_append, scan_byte P L (h b List.mem_cons_self),
      scan_word fun c hc => h c (List.mem_cons_of_mem b hc)]
    simp [PcScan.onWord, PcScan.onByte, Nat.add_assoc, Nat.add_comm 1]

theorem scan_onEntry {e : CacheEntry} (he : ∀ b ∈ e.functionName, P.Plain b) (rest : List UInt8)
    (s : PcScan) (st : σ) :
    P.scan L (e.format ++ rest) s st = P.scan L ('\n'.toUInt8 :: rest) (s.onEntry e) st := by
  have hformat : e.format ++ rest = decimal e.functionStart ++ (' '.toUInt8 :: (decimal e.functionEnd ++
      (' '.toUInt8 :: (e.functionName ++ (' '.toUInt8 :: e.flag :: '\n'.toUInt8 :: rest))))) := by
    simp [CacheEntry.format]
  rw [hformat, scan_word P L (plain_of_mem_decimal P), scan_space, scan_word P L (plain_of_mem_decimal P),
    scan_space, scan_word P L he, scan_space, scan_byte P L (e.plain_flag P)]
  rfl

namespace PcScan

@[simp] theorem onSpace_read (s : PcScan) : s.onSpace.read = s.read ++ [0] := by
  unfold onSpace
  split <;> [rfl; split <;> rfl]

@[simp] theorem onSpace_lineLen (s : PcScan) : s.onSpace.lineLen = s.lineLen + 1 := by
  unfold onSpace
  split <;> [rfl; split <;> rfl]

/-- What an entry leaves in the buffer: its words, each but the last ended by a zero. -/
theorem onEntry_read (s : PcScan) (e : CacheEntry) :
    (s.onEntry e).read = s.read ++ (decimal e.functionStart ++ 0 :: (decimal e.functionEnd ++
      0 :: (e.functionName ++ 0 :: [e.flag]))) := by
  simp [onEntry, onWord, onByte]

theorem onEntry_lineLen (s : PcScan) (e : CacheEntry) (h : s.lineLen = 0) :
    (s.onEntry e).read.length - (s.onEntry e).lineLen = s.read.length := by
  simp [onEntry, onWord, onByte, h]
  omega

theorem onEntry_args (s : PcScan) (e : CacheEntry) (h1 : s.arg1 = 0) :
    (s.onEntry e).isEntryComplete ∧
    (s.onEntry e).arg1 = (s.read ++ (decimal e.functionStart ++ [0])).length ∧
    (s.onEntry e).arg2 = (if s.arg2 = 0 then
      (s.read ++ (decimal e.functionStart ++ 0 :: (decimal e.functionEnd ++ [0]))).length else s.arg2) ∧
    (s.onEntry e).arg3 = (s.read ++ (decimal e.functionStart ++ 0 :: (decimal e.functionEnd ++
      0 :: (e.functionName ++ [0])))).length := by
  by_cases h2 : s.arg2 = 0
  · simp [onEntry, onWord, onByte, onSpace, h1, h2]
    omega
  · simp [onEntry, onWord, onByte, onSpace, h1, h2]
    omega

theorem onEntry_name {s : PcScan} {held : Option (List UInt8)} (h : s.AtLine held) (e : CacheEntry) :
    (s.onEntry e).arg2 ≠ 0 ∧ 0 ∉ held.getD e.functionName ∧
    ∃ before after, (s.onEntry e).read ++ [0] = before ++ (held.getD e.functionName ++ 0 :: after) ∧
      (s.onEntry e).arg2 = before.length := by
  obtain ⟨-, -, harg2, -⟩ := s.onEntry_args e h.arg1
  have hread := s.onEntry_read e
  cases held with
  | none =>
    have hclear : s.arg2 = 0 := h.arg2
    rw [if_pos hclear] at harg2
    refine ⟨?_, e.zero_notMem_name, _, [e.flag, 0], ?_, harg2⟩
    · rw [harg2]
      simp
    · rw [hread]
      simp
  | some name =>
    obtain ⟨hne, hzero, before, after, hbefore, hlen⟩ := h.arg2
    rw [if_neg hne] at harg2
    refine ⟨harg2.symm ▸ hne, hzero, before, after ++ (decimal e.functionStart ++ 0 ::
      (decimal e.functionEnd ++ 0 :: (e.functionName ++ 0 :: [e.flag, 0]))), ?_, harg2.trans hlen⟩
    rw [hread, hbefore]
    simp

/-- **The arguments of an entry**: its own, and the name that `arg2` points to. -/
theorem line_onEntry {s : PcScan} {held : Option (List UInt8)} (h : s.AtLine held) (e : CacheEntry) :
    (s.onEntry e).line L = e.line L (held.getD e.functionName) := by
  obtain ⟨-, harg1, -, harg3⟩ := s.onEntry_args e h.arg1
  obtain ⟨-, hzero, before, after, hbefore, harg2⟩ := onEntry_name h e
  have hread := s.onEntry_read e
  have hstart : cString ((s.onEntry e).read ++ [0]) ((s.onEntry e).read.length - (s.onEntry e).lineLen) =
      decimal e.functionStart := by
    apply cString_eq _ (s.onEntry_lineLen e h.lineLen) (zero_notMem_decimal _)
    · exact decimal e.functionEnd ++ 0 :: (e.functionName ++ 0 :: [e.flag, 0])
    · rw [hread]
      simp
  have hend : cString ((s.onEntry e).read ++ [0]) (s.onEntry e).arg1 = decimal e.functionEnd := by
    apply cString_eq _ harg1 (zero_notMem_decimal _)
    · exact e.functionName ++ 0 :: [e.flag, 0]
    · rw [hread]
      simp
  have hflag : ((s.onEntry e).read ++ [0]).getD (s.onEntry e).arg3 0 = e.flag := by
    rw [harg3, hread]
    simp
  simp only [PcScan.line, hstart, hend, cString_eq hbefore harg2 hzero, hflag, e.flag_eq_one, CacheEntry.line]

theorem atLine_nextLine {s : PcScan} {held : Option (List UInt8)} (h : s.AtLine held) (e : CacheEntry)
    (resetsArg2 : Bool) : ((s.onEntry e).nextLine resetsArg2).AtLine
      (if resetsArg2 then none else some (held.getD e.functionName)) := by
  obtain ⟨hne, hzero, hbuffer⟩ := onEntry_name h e
  refine ⟨rfl, rfl, rfl, ?_⟩
  cases resetsArg2 with
  | true => rfl
  | false => exact ⟨hne, hzero, hbuffer⟩

end PcScan

/-- **One line of the extractor**, with whatever follows it. -/
theorem scan_entry {e : CacheEntry} (he : ∀ b ∈ e.functionName, P.Plain b) {s : PcScan}
    {held : Option (List UInt8)} (h : s.AtLine held) (rest : List UInt8) (st : σ) :
    P.scan L (e.format ++ rest) s st = P.onLine (e.line L (held.getD e.functionName)) st >>=
      P.scan L rest ((s.onEntry e).nextLine P.resetsArg2) := by
  obtain ⟨hcomplete, -⟩ := s.onEntry_args e h.arg1
  rw [scan_onEntry P L he, scan_newline P L hcomplete, PcScan.line_onEntry L h]

/-- **The lines of the extractor**, where the name held at the start of a line
is the same for all of them. -/
theorem scan_entries {held : Option (List UInt8)}
    (hheld : ∀ name, (if P.resetsArg2 then none else some (held.getD name)) = held) :
    ∀ {es : List CacheEntry} (_ : ∀ e ∈ es, ∀ b ∈ e.functionName, P.Plain b) {s : PcScan} (_ : s.AtLine held),
    ∃ s' : PcScan, s'.AtLine held ∧ ∀ (rest : List UInt8) (st : σ),
      P.scan L (es.flatMap CacheEntry.format ++ rest) s st =
        es.foldlM (fun st e => P.onLine (e.line L (held.getD e.functionName)) st) st >>= P.scan L rest s'
  | [], _, s, h => ⟨s, h, fun rest st => rfl⟩
  | e :: es, he, s, h => by
    have hnext := PcScan.atLine_nextLine h e P.resetsArg2
    rw [hheld] at hnext
    obtain ⟨s', h', hscan⟩ := scan_entries hheld (fun e' he' => he e' (List.mem_cons_of_mem e he')) hnext
    refine ⟨s', h', fun rest st => ?_⟩
    rw [List.flatMap_cons, List.append_assoc, scan_entry P L (he e List.mem_cons_self) h, List.foldlM_cons,
      bind_assoc]
    congr 1
    funext st'
    exact hscan rest st'

/-- **The scanner of `CMASanOnDlOpen`** takes each entry with the name of the
first one. -/
theorem onDlOpen_eq (dlsym : List UInt8 → ℕ) (e : CacheEntry) (es : List CacheEntry) (t : PcTables) :
    onDlOpen L dlsym (runPcExtractor true (e :: es) []) t =
      (e :: es).foldlM (fun t e' => dlOpenLine dlsym (e'.line L e.functionName) t) t := by
  have hplain : ∀ e' : CacheEntry, ∀ b ∈ e'.functionName, (dlOpenParser dlsym).Plain b := by
    intro e' b hb
    obtain ⟨h0, hspace, hnewline⟩ := e'.name_word b hb
    exact ⟨h0, hspace, hnewline, fun h => by cases h⟩
  have hheld : ∀ name, (if (dlOpenParser dlsym).resetsArg2 then none
      else some ((some e.functionName).getD name)) = some e.functionName := fun _ => rfl
  have hnext : PcScan.AtLine _ (some e.functionName) := PcScan.atLine_nextLine PcScan.atLine_start e false
  obtain ⟨s', -, hscan⟩ := scan_entries (dlOpenParser dlsym) L hheld (fun e' (_ : e' ∈ es) => hplain e') hnext
  have hfile : runPcExtractor true (e :: es) [] = some (e.format ++ (es.flatMap CacheEntry.format ++ [])) := by
    simp [runPcExtractor]
  have hlen : (e.format ++ (es.flatMap CacheEntry.format ++ [])).length ≠ 0 := by
    simp [CacheEntry.format]
  rw [hfile]
  simp only [onDlOpen, if_neg hlen]
  rw [scan_entry _ L (hplain e) PcScan.atLine_start, List.foldlM_cons]
  congr 1
  funext t'
  calc _ = es.foldlM (fun t e' => dlOpenLine dlsym (e'.line L e.functionName) t) t' >>=
        (dlOpenParser dlsym).scan L [] s' := hscan [] t'
    _ = es.foldlM (fun t e' => dlOpenLine dlsym (e'.line L e.functionName) t) t' := bind_pure _

end Cmasan
