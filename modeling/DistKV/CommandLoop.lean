/-
The command loop of `kvm_client`, the `while(true)` of `main` in `src/main_client.cpp`.

An iteration reads a line, splits it and does what it asks for, and `exit` leaves the loop.
Nobody looks whether `getline` has read anything: at the end of the input it leaves `input`
empty, as it was made.  What a call returns is only printed and its exceptions are caught
around it, so the loop goes on whatever comes of it.  The line with the storage mode has been
read before.
-/
import DistKV.Shell

namespace DistKV

/-- `getline` into a new string, from the lines that are left. -/
def getline : List Bytes → Bytes × List Bytes
  | [] => ([], [])
  | line :: lines => (line, lines)

inductive LoopPhase where
  /-- At the beginning of an iteration. -/
  | reading
  /-- Behind the `break`. -/
  | left
  /-- An index was out of range. -/
  | outOfRange
deriving DecidableEq, Repr

structure CommandLoop where
  /-- What standard input still has. -/
  lines : List Bytes
  phase : LoopPhase := .reading
  /-- The calls of the distributor so far. -/
  calls : List Op := []

namespace CommandLoop

/-- One iteration, if the loop gets to it. -/
def iterate (s : CommandLoop) (draws : Draws) : CommandLoop :=
  match s.phase with
  | .reading =>
      let (input, lines) := getline s.lines
      match readCommand input with
      | none => { s with lines := lines, phase := .outOfRange }
      | some .exit => { s with lines := lines, phase := .left }
      | some command => { s with lines := lines, calls := s.calls ++ command.ops draws }
  | _ => s

end CommandLoop

end DistKV
