/-
Several clients at once.

Every client is a process with a distributor of its own, whose `ring_mutex_` lets one
call begin only when the one before it is over.  Nothing holds between processes: the
clients take turns, a turn carries out one request of one client, and any other client
may have the next.  On its node a request is carried out at once, since a store does
its work with its mutex held.
-/
import DistKV.Cluster

namespace DistKV

structure Client where
  dist : KVDistributor
  /-- The endpoint of the server whose store the process is attached to. -/
  attached : Endpoint
  /-- The call in progress, and what is left of it. -/
  running : Option (Op × Prog Request Reply (Option Bytes × KVDistributor)) := none
  /-- What the last call returned. -/
  result : Option Bytes := none

structure Clients (κ : Type) where
  client : κ → Client
  cluster : Cluster

inductive Turn (κ : Type) where
  | begin (i : κ) (op : Op)
  /-- The next request of a client, or the return of its call. -/
  | advance (i : κ) (c : Conditions)

namespace Clients

variable {κ : Type} [DecidableEq κ]

def step (s : Clients κ) : Turn κ → Clients κ
  | .begin i op =>
      match (s.client i).running with
      | some _ => s
      | none =>
          { s with client := Function.update s.client i { s.client i with
              running := some (op, op.perform.run (s.client i).dist) } }
  | .advance i c =>
      match (s.client i).running with
      | none => s
      | some (_, .done (result, dist)) =>
          { s with client := Function.update s.client i { s.client i with
              dist := dist, running := none, result := result } }
      | some (op, .request r k) =>
          let out := s.cluster.handle c (s.client i).attached r
          { client := Function.update s.client i { s.client i with
              running := some (op, k out.1) }
            cluster := out.2 }

/-- No call is in progress. -/
def Quiet (s : Clients κ) : Prop := ∀ i, (s.client i).running = none

end Clients

end DistKV
