/-
The key ranges that a ring publishes, `src/ConsistentHashRing.cpp`.

A token owns the hashes behind the position of its predecessor, up to its own.  The two
listings go through the tokens and put down each one's share as half-open ranges; a share
that goes past the end of the ring is put down in two.
-/
import DistKV.Ring

namespace DistKV

/-- From `start` on, up to `stop`, which is not in it any more. -/
structure KeyRange where
  start : UInt32
  stop : UInt32
deriving DecidableEq, Repr

structure KeyRangeAssignment where
  range : KeyRange
  primaryNodeId : NodeId
  buddyNodeId : NodeId
deriving DecidableEq, Repr

namespace ConsistentHashRing

def uint32Max : UInt32 := 0xffffffff

/-- The ranges that are pushed for the token at `i`, in either listing. -/
def tokenRanges (r : ConsistentHashRing) (i : Nat) : List KeyRange :=
  let n := r.ring.length
  let curPos := (r.token i).position
  let prevPos := (r.token ((i + n - 1) % n)).position
  let start := prevPos + 1
  let stop := curPos + 1
  if start < stop then [{ start := start, stop := stop }]
  else if start > stop then
    { start := start, stop := uint32Max } :: if stop > 0 then [{ start := 0, stop := stop }] else []
  else if n = 1 then [{ start := 0, stop := uint32Max }]
  else []

/-- The node of the first token behind the one at `i` that is another's. -/
def tokenBuddy (r : ConsistentHashRing) (i : Nat) : NodeId :=
  let n := r.ring.length
  let primaryId := (r.token i).nodeId
  match (List.range' 1 (n - 1)).find? fun j => (r.token ((i + j) % n)).nodeId ≠ primaryId with
  | some j => (r.token ((i + j) % n)).nodeId
  | none => primaryId

def getKeyRangeAssignments (r : ConsistentHashRing) : List KeyRangeAssignment :=
  (List.range r.ring.length).flatMap fun i =>
    (r.tokenRanges i).map fun range =>
      { range := range
        primaryNodeId := (r.token i).nodeId
        buddyNodeId := r.tokenBuddy i }

/-- The ranges of each node. -/
abbrev RangeMap := AList fun _ : NodeId => List KeyRange

/-- `result[node_id].push_back(range)`. -/
def pushRange (nodeId : NodeId) (result : RangeMap) (range : KeyRange) : RangeMap :=
  result.insert nodeId ((result.lookup nodeId).getD [] ++ [range])

def getKeyRanges (r : ConsistentHashRing) : RangeMap :=
  (List.range r.ring.length).foldl
    (fun result i => (r.tokenRanges i).foldl (pushRange (r.token i).nodeId) result) ∅

end ConsistentHashRing

end DistKV
