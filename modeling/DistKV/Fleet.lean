/-
Servers and the directories they are started in.

The constructor of a membership reads its generation from a file of the working directory and
writes the next one back before the server has a record of itself.  So a server of the network
comes up at the end of a `saveGeneration`, with the number that has been written, and its process
ends in the network and in the directory at once.  Several servers may share a directory, as
those that one `scripts/start_nodes.sh` starts do.
-/
import DistKV.Generation
import DistKV.GossipNet

namespace DistKV

/-- Servers on machines with one directory each. -/
structure Fleet (μ : Type) where
  network : Network
  dir : μ → WorkDir

inductive FleetEvent (μ : Type) where
  /-- A process begins, and `loadGeneration` is done. -/
  | load (i : NodeId)
  /-- `saveGeneration` has opened the file. -/
  | openFile (i : NodeId)
  /-- `saveGeneration` is done, and so is the rest of the constructor. -/
  | construct (i : NodeId) (now : UInt64)
  /-- What a server does while its process runs. -/
  | gossip (e : GossipEvent)
  /-- The process of a server ends, whichever way. -/
  | finish (i : NodeId)
  /-- The cleanup of `start_nodes.sh`. -/
  | cleanUp (machine : μ)

/-- The event is neither the beginning of a server nor its end. -/
def GossipEvent.isOfRunning : GossipEvent → Bool
  | .construct _ _ _ => false
  | .crash _ => false
  | _ => true

namespace Fleet

variable {μ : Type} [DecidableEq μ]

/-- Nothing has been started anywhere. -/
def start : Fleet μ where
  network := .empty
  dir := fun _ => .empty

/-- A step of a process in its directory. -/
def launch (machine : μ) (e : LaunchEvent) (s : Fleet μ) : Fleet μ :=
  { s with dir := Function.update s.dir machine ((s.dir machine).step e) }

/-- One event, with the machine of each server. -/
def step (config : NodeId → GossipConfig) (place : NodeId → μ) (s : Fleet μ) :
    FleetEvent μ → Fleet μ
  | .load i => s.launch (place i) (.load i)
  | .openFile i => s.launch (place i) (.openFile i)
  | .construct i now =>
      match (s.dir (place i)).process i with
      | .opened generation =>
          { s.launch (place i) (.write i) with
            network := s.network.step config (.construct i (generation - 1) now) }
      | _ => s
  | .gossip e =>
      if e.isOfRunning then { s with network := s.network.step config e } else s
  | .finish i =>
      { s.launch (place i) (.crash i) with network := s.network.step config (.crash i) }
  | .cleanUp machine => s.launch machine .cleanUp

end Fleet

end DistKV
