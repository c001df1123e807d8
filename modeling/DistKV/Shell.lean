/-
The command shell of `kvm_client`, `src/main_client.cpp`: what one line of input comes to.

A line is what `getline` has read, without the newline.  Every index into `args` is checked
here, and `none` is one that is out of range.  What is printed is left out, and so are the
clocks of the benchmarks; their random values and keys are handed in.
-/
import DistKV.Distributor
import DistKV.Generation
import DistKV.Lib.Words
import Mathlib.Algebra.Group.Int.Defs

namespace DistKV

/-- The words that `iss >> arg` reads from a line. -/
def parseCommand (command : Bytes) : List Bytes := Words.split isSpace command

/-- The numbers that an `int` can hold. -/
def IsInt (n : Int) : Prop := -2 ^ 31 ≤ n ∧ n < 2 ^ 31

instance : DecidablePred IsInt := fun n => by unfold IsInt; exact inferInstance

/-- The number that digits stand for. -/
def decimalValue (negative : Bool) (digits : Bytes) : Int :=
  let n : Nat := digits.foldl (fun n c => 10 * n + (c.toNat - 48)) 0
  if negative then -n else n

/-- `std::stoi`: the number that a text begins with; `none` is an exception. -/
def stoi (text : Bytes) : Option Int :=
  let (negative, text) := takeSign (text.dropWhile isSpace)
  let digits := text.takeWhile isDigit
  if digits = [] then none
  else if IsInt (decimalValue negative digits) then some (decimalValue negative digits)
  else none

/-- What a line asks for. -/
inductive Command where
  /-- An empty line. -/
  | skip
  | exit
  | help
  | call (op : Op)
  | benchmark
  | benchmark1
  /-- An exception of `stoi`, which is printed. -/
  | error
  | unknown
deriving DecidableEq

/-- The value of a `put` or an `update`: `args[2]`, and the words behind it one by one. -/
def readValue (args : List Bytes) : Option Bytes := do
  let value ← args[2]?
  (List.range' 3 (args.length - 3)).foldlM
    (fun value i => do
      let arg ← args[i]?
      return value ++ (str " " ++ arg))
    value

/-- The `try` of an action: `stoi` throws before anything else is done. -/
def callWithKey (args : List Bytes) (op : Key → Option Op) : Option Command := do
  let text ← args[1]?
  match stoi text with
  | none => return .error
  | some key => return .call (← op key)

/-- What is made of the words of a line: the chain of comparisons with `args[0]`. -/
def dispatch (args : List Bytes) : Option Command := do
  let action ← args[0]?
  if action = str "exit" then return .exit
  else if action = str "help" then return .help
  else if action = str "put" ∧ 3 ≤ args.length then
    callWithKey args fun key => return .insert key (← readValue args)
  else if action = str "get" ∧ 2 ≤ args.length then
    callWithKey args fun key => return .get key
  else if action = str "update" ∧ 3 ≤ args.length then
    callWithKey args fun key => return .update key (← readValue args)
  else if action = str "delete" ∧ 2 ≤ args.length then
    callWithKey args fun key => return .deleteKey key
  else if action = str "benchmark" then return .benchmark
  else if action = str "benchmark1" then return .benchmark1
  else return .unknown

/-- What is made of a line. -/
def readCommand (input : Bytes) : Option Command :=
  if input = [] then return .skip else dispatch (parseCommand input)

/-! ### The calls -/

/-- What the benchmarks draw. -/
structure Draws where
  /-- What `generateRandomString` returns. -/
  value : Nat → Bytes
  /-- What `benchmark1` draws from the keys. -/
  key : Nat → Key

/-- `NUM_OPERATIONS`. -/
def numOperations : Nat := 10000

/-- The first phase of a benchmark. -/
def insertions (draws : Draws) : List Op :=
  (List.range numOperations).map fun i : Nat => .insert (i + 1) (draws.value i)

namespace Command

/-- The calls that a command makes. -/
def ops (draws : Draws) : Command → List Op
  | call op => [op]
  | benchmark =>
      insertions draws ++ (List.range numOperations).map fun i : Nat => .get (i + 1)
  | benchmark1 =>
      insertions draws ++ (List.range numOperations).map fun i : Nat => .get (draws.key i)
  | _ => []

end Command

end DistKV
