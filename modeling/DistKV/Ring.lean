/-
The consistent hash ring of `src/ConsistentHashRing.cpp`.

A ring is the vector `ring_` of tokens and the virtual node count it was built
with.  `rebuild` lays `V` evenly spaced tokens for every node of the map, in the
map's iteration order, and stable-sorts them; `getPrimaryNode` takes the token
`lower_bound` finds for the key's hash, wrapping past the last one, and
`getBuddyNode` walks on from there to the first token of another node.

Iterators are indices.  The walk of `getBuddyNode` is a do-while over the ring,
so it recurses on a fuel; `Proofs/Ring.lean` shows that one round always ends it.
-/
import DistKV.Hash
import Mathlib.Algebra.Group.Nat.Defs
import Mathlib.Data.List.AList
import Mathlib.Data.List.Sort

namespace DistKV

/-- An `unordered_map<int, string>` from node ids to endpoints. -/
abbrev NodeMap := AList fun _ : NodeId => Endpoint

/-- One virtual node position on the ring. -/
structure Token where
  position : UInt32
  nodeId : NodeId
deriving DecidableEq, Repr, Inhabited

structure ConsistentHashRing where
  ring : List Token := []
  virtualNodesPerNode : Int := 0
deriving DecidableEq, Repr, Inhabited

namespace ConsistentHashRing

def hashNodeId (nodeId : NodeId) : UInt32 := murmur3_32 (toStdString nodeId) 0

def hashKey (key : Key) : UInt32 := murmur3_32 (toStdString key) 0

/-- The distance between two tokens of a node: the ring space over the token count. -/
def interval (virtualNodesPerNode : Int) : Nat := max 1 (2 ^ 32 / virtualNodesPerNode.toNat)

/-- The tokens `rebuild` pushes for one node: the base position and then one more
interval each time, cut back to 32 bits. -/
def nodeTokens (virtualNodesPerNode : Int) (nodeId : NodeId) : List Token :=
  (List.range virtualNodesPerNode.toNat).map fun v =>
    { position := UInt32.ofNat ((hashNodeId nodeId).toNat + v * interval virtualNodesPerNode)
      nodeId := nodeId }

/-- The comparator `rebuild` hands to `stable_sort`. -/
def tokenLt (a b : Token) : Prop :=
  if a.position ≠ b.position then a.position < b.position else a.nodeId < b.nodeId

instance : DecidableRel tokenLt := fun a b => by unfold tokenLt; exact inferInstance

def rebuild (r : ConsistentHashRing) (nodeEndpoints : NodeMap) (virtualNodesPerNode : Int) :
    ConsistentHashRing :=
  { r with
    virtualNodesPerNode := virtualNodesPerNode
    ring :=
      if virtualNodesPerNode ≤ 0 then []
      else (nodeEndpoints.keys.flatMap (nodeTokens virtualNodesPerNode)).insertionSort
        fun a b => ¬ tokenLt b a }

/-- `lower_bound` on the positions, wrapping to the first token past the last one. -/
def findToken (r : ConsistentHashRing) (position : UInt32) : Nat :=
  let it := r.ring.findIdx fun t => !decide (t.position < position)
  if it = r.ring.length then 0 else it

/-- The token an iterator points to. -/
def token (r : ConsistentHashRing) (it : Nat) : Token := r.ring.getD it default

def getPrimaryNode (r : ConsistentHashRing) (key : Key) : NodeId :=
  if r.ring.isEmpty then -1 else (r.token (r.findToken (hashKey key))).nodeId

/-- The do-while of `getBuddyNode`, from the token at `it`; `none` is a loop that
has used up its fuel. -/
def buddyLoop (r : ConsistentHashRing) (start : Nat) : (fuel it : Nat) → Option NodeId
  | 0, _ => none
  | fuel + 1, it =>
      let it := if it + 1 = r.ring.length then 0 else it + 1
      if (r.token it).nodeId ≠ (r.token start).nodeId then some (r.token it).nodeId
      else if it ≠ start then buddyLoop r start fuel it
      else some (r.token start).nodeId

def getBuddyNode (r : ConsistentHashRing) (key : Key) : NodeId :=
  if r.ring.isEmpty then -1
  else
    let start := r.findToken (hashKey key)
    (r.buddyLoop start r.ring.length start).getD (-1)

end ConsistentHashRing

end DistKV
