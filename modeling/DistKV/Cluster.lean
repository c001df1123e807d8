/-
The servers a distributor works on, `src/KVServer.cpp` and the RPC layer.

A cluster has a server at every endpoint.  A request to the attached store is a
function call and always comes through.  One sent over the network may be lost, and
it may be carried out without the client hearing of it, since a `KVClient` stops
waiting after its timeout.  Both are exceptions to the distributor.

A session is one distributor at work: its own state, the endpoint whose store it is
attached to, and the cluster.
-/
import DistKV.Distributor

namespace DistKV

/-- A handler of `KVServer`, or a call on a store in one's own process.  The store
swallows its exceptions, so a write is always acknowledged. -/
def Server.serve (env : MemEnv) (s : Server) : StoreOp → Reply × Server
  | .find key => (.value (s.find key), s)
  | op => (.ack, s.write env op)

abbrev Cluster := Endpoint → Server

/-- What becomes of a request sent to a server. -/
inductive Fate where
  | answered
  /-- Carried out, but the answer does not reach the client in time. -/
  | unanswered
  | lost
deriving DecidableEq, Repr

/-- The circumstances of a call: what becomes of each request it sends, and what memory a
store finds for it. -/
structure Conditions where
  fate : Request → Fate
  memory : Request → Server → MemEnv

namespace Cluster

def serve (c : Conditions) (cluster : Cluster) (endpoint : Endpoint) (r : Request) :
    Reply × Cluster :=
  let out := (cluster endpoint).serve (c.memory r (cluster endpoint)) r.op
  (out.1, Function.update cluster endpoint out.2)

def handle (c : Conditions) (attached : Endpoint) (cluster : Cluster) (r : Request) :
    Reply × Cluster :=
  match r.target with
  | .attached => cluster.serve c attached r
  | .remote endpoint =>
      match c.fate r with
      | .answered => cluster.serve c endpoint r
      | .unanswered => (.failed, (cluster.serve c endpoint r).2)
      | .lost => (.failed, cluster)

end Cluster

structure Session where
  dist : KVDistributor
  /-- The endpoint of the server whose store the process is attached to. -/
  attached : Endpoint
  cluster : Cluster

namespace Session

/-- Carry out one call of the client. -/
def exec (c : Conditions) (op : Op) (s : Session) : Option Bytes × Session :=
  let out := (op.perform.run s.dist).run (Cluster.handle c s.attached) s.cluster
  (out.1.1, { s with dist := out.1.2, cluster := out.2 })

/-- Rebuild the distributor's ring over another map. -/
def rebuild (nodeEndpoints : NodeMap) (virtualNodesPerNode : Int) (s : Session) : Session :=
  { s with dist := s.dist.rebuildRing nodeEndpoints virtualNodesPerNode }

end Session

/-- What happens in a session. -/
inductive Event where
  | call (op : Op) (c : Conditions)
  | rebuild (nodeEndpoints : NodeMap)

/-- The session after an event, with `V` virtual nodes for each node. -/
def Session.step (V : Int) (s : Session) : Event → Session
  | .call op c => (s.exec c op).2
  | .rebuild nodeEndpoints => s.rebuild nodeEndpoints V

end DistKV
