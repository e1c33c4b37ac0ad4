/-
# Options and call stacks

The options that the environment sets once, and what a hook sees of its
caller: the unwound stack, the id that the stack depot gives it and the
thread. A second CMA on the stack tells a free that a CMA makes from a free
of the program (`isCMAInCallStackSkipOneCMA`).

Key definitions: `Flags`, `Caller`, `isCMAInCallStackSkipOneCMA`.
-/
import Cmasan.Redzone

namespace Cmasan

/-- The options that the hooks read. -/
structure Flags where
  isQuarantineZoneOn : Bool := true
  quarantineSize : ℕ := 1 <<< 18
  quarantineNum : ℕ := 8192
  isLockOff : Bool := false
  isReportAlwaysOff : Bool := false
  alloczoneN : ℕ := 10000
  canPoisonMemory : Bool := true
  cmaPcRange : List (ℕ × ℕ) := []
  rz : RzOptions

/-- The default redzone limits. -/
def RzOptions.default : RzOptions := ⟨16, 2048, by decide, by decide, by decide, ⟨4, rfl⟩, ⟨11, rfl⟩⟩

/-- A quarantine that holds one chunk. -/
def oneChunkFlags : Flags := { quarantineNum := 1, rz := .default }

/-- What a hook sees of its caller. -/
structure Caller where
  trace : List ℕ := []
  stackId : ℕ := 0
  tid : ℕ := 0

/-- The range loop for one frame: the first CMA met so far, `none` once
another one is met. -/
def scanRanges (pc : ℕ) : List (ℕ × ℕ) → ℕ → Option ℕ
  | [], self => some self
  | (start, end_) :: ranges, self =>
    if start ≤ pc ∧ pc ≤ end_ then
      if self = 0 then scanRanges pc ranges start
      else if self ≠ start then none
      else scanRanges pc ranges self
    else scanRanges pc ranges self

/-- The frame loop of `isCMAInCallStackSkipOneCMA`; the previous instruction
of a return address is the byte before it. -/
def scanFrames (cmaPcRange : List (ℕ × ℕ)) : List ℕ → ℕ → Bool
  | [], _ => false
  | pc :: trace, self =>
    if pc = 0 then false
    else
      match scanRanges (usub pc 1) cmaPcRange self with
      | none => true
      | some self' => scanFrames cmaPcRange trace self'

/-- `isCMAInCallStackSkipOneCMA`. -/
def isCMAInCallStackSkipOneCMA (cmaPcRange : List (ℕ × ℕ)) (trace : List ℕ) : Bool :=
  scanFrames cmaPcRange trace 0

end Cmasan
