/-
Generations of a server, `loadGeneration` and `saveGeneration` of
`src/GossipMembership.cpp`, and the directory that servers are started in.

A server reads the generation of its last incarnation from a file and writes its own back.
`std::ofstream` leaves the file empty when it opens it, and the digits get there when it is
closed, so that a process which dies in between leaves an empty file.  The events below are
therefore the steps of a constructor, and a process may die between any two of them.

`scripts/start_nodes.sh` removes the `.dat` and `.txt` files of its directory when a server
that it has started in memory mode is gone, whichever node they belong to.
-/
import DistKV.Gossip

namespace DistKV

/-! ### Numbers in a text -/

def isDigit (c : UInt8) : Bool := 48 ≤ c && c ≤ 57

/-- `isspace` in the classic locale. -/
def isSpace (c : UInt8) : Bool := c = 32 || (9 ≤ c && c ≤ 13)

/-- What is before the digits of a number: whether it is a minus sign, and what follows. -/
def takeSign : Bytes → Bool × Bytes
  | [] => (false, [])
  | c :: rest =>
      if c = 45 then (true, rest) else if c = 43 then (false, rest) else (false, c :: rest)

/-! ### The file -/

/-- `std::to_string(node_id)` in the middle makes it one file for each node. -/
def generationFilePath (nodeId : NodeId) : Bytes :=
  str "generation_" ++ toStdString nodeId ++ str ".dat"

/-- `f >> gen`: blanks are skipped, no digits read as 0, too many as the greatest number there
is, and a number with a minus sign as its complement. -/
def readUInt32 (text : Bytes) : UInt32 :=
  let (negative, text) := takeSign (text.dropWhile isSpace)
  let n := (text.takeWhile isDigit).foldl (fun n c => 10 * n + (c.toNat - 48)) 0
  if 2 ^ 32 ≤ n then 4294967295
  else if negative then -UInt32.ofNat n
  else UInt32.ofNat n

/-- `f << gen`. -/
def writeUInt32 (generation : UInt32) : Bytes := toStdString generation.toNat

/-- The files of a directory. -/
abbrev Files := Bytes → Option Bytes

def loadGeneration (files : Files) (nodeId : NodeId) : UInt32 :=
  match files (generationFilePath nodeId) with
  | some text => readUInt32 text
  | none => 0

/-- Whether the cleanup of `start_nodes.sh` removes a file. -/
def isTemporary (path : Bytes) : Bool :=
  (str ".dat").isSuffixOf path || (str ".txt").isSuffixOf path

/-! ### Starts and ends of servers -/

/-- How far the process of a node has got. -/
inductive Process where
  | down
  /-- The constructor has its generation from `loadGeneration`. -/
  | loaded (generation : UInt32)
  /-- `saveGeneration` has opened the file. -/
  | opened (generation : UInt32)
  /-- `saveGeneration` is done. -/
  | running (generation : UInt32)
deriving DecidableEq

structure WorkDir where
  files : Files
  process : NodeId → Process
  /-- The generations of the memberships that have been constructed for a node, the latest
  first. -/
  incarnations : NodeId → List UInt32

inductive LaunchEvent where
  /-- `generation_ = loadGeneration() + 1`. -/
  | load (i : NodeId)
  /-- `std::ofstream f(...)`. -/
  | openFile (i : NodeId)
  /-- `f << gen`, and the end of `f`. -/
  | write (i : NodeId)
  | stop (i : NodeId)
  /-- The process of a node is killed, wherever it is. -/
  | crash (i : NodeId)
  /-- The cleanup of `start_nodes.sh`. -/
  | cleanUp
deriving DecidableEq

namespace WorkDir

/-- Nothing has been started here yet. -/
def empty : WorkDir where
  files := fun _ => none
  process := fun _ => .down
  incarnations := fun _ => []

def setFile (path : Bytes) (text : Option Bytes) (d : WorkDir) : WorkDir :=
  { d with files := fun path' => if path' = path then text else d.files path' }

def setProcess (i : NodeId) (p : Process) (d : WorkDir) : WorkDir :=
  { d with process := fun j => if j = i then p else d.process j }

def record (i : NodeId) (generation : UInt32) (d : WorkDir) : WorkDir :=
  { d with incarnations := fun j =>
      if j = i then generation :: d.incarnations j else d.incarnations j }

/-- A write to a file that has been removed meanwhile is lost. -/
def step (d : WorkDir) : LaunchEvent → WorkDir
  | .load i =>
      match d.process i with
      | .down => d.setProcess i (.loaded (loadGeneration d.files i + 1))
      | _ => d
  | .openFile i =>
      match d.process i with
      | .loaded generation =>
          (d.setFile (generationFilePath i) (some [])).setProcess i (.opened generation)
      | _ => d
  | .write i =>
      match d.process i with
      | .opened generation =>
          let text := (d.files (generationFilePath i)).map fun _ => writeUInt32 generation
          ((d.setFile (generationFilePath i) text).setProcess i (.running generation)).record i
            generation
      | _ => d
  | .stop i =>
      match d.process i with
      | .running _ => d.setProcess i .down
      | _ => d
  | .crash i => d.setProcess i .down
  | .cleanUp =>
      { d with files := fun path => if isTemporary path then none else d.files path }

end WorkDir

end DistKV
