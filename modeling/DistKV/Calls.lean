/-
A distributor over its life.

Once it is made, a distributor rebuilds its ring, refreshes its membership and carries out
calls, one after the other and in any order.  What the stores reply to a call is handed in,
and may depend on all that the call has requested so far; the requests are written down.
-/
import DistKV.Refresh

namespace DistKV.KVDistributor

inductive Event where
  | rebuildRing (nodeEndpoints : NodeMap) (virtualNodesPerNode : Int)
  /-- A refresh, with the answer of the server or an exception. -/
  | fetchMembership (members : Option (List MemberRecord))
  | call (op : Op) (answer : List Request → Request → Reply)

/-- Carry out a call.  What is left is its result, the distributor and the requests. -/
def carryOut (op : Op) (answer : List Request → Request → Reply) (d : KVDistributor) :
    (Option Bytes × KVDistributor) × List Request :=
  (op.perform.run d).run (Prog.record answer) []

def step (d : KVDistributor) : Event → KVDistributor
  | .rebuildRing nodeEndpoints virtualNodesPerNode =>
      d.rebuildRing nodeEndpoints virtualNodesPerNode
  | .fetchMembership members => (d.fetchMembershipFromServer members).2
  | .call op answer => (d.carryOut op answer).1.2

end DistKV.KVDistributor
