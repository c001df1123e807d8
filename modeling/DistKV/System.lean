/-
The whole system: servers that gossip, clients that call them, and the threads that keep
the maps of the clients up to date.

Beside the thread that carries out its calls, a client process has one that asks the servers
of the map for the membership, one after the other, until an answer has somebody alive in it.
`ring_mutex_` is held for the length of a call, and while the endpoints are copied or the map
is replaced, but not while the thread waits: an answer may be old when it is taken over.

A server is one process: when it ends, its store and its part in the gossip end together.  It
may come up again on its host, in either mode, whichever calls of the constructor of its store
fail, and gossips from the moment on when its membership is constructed.  A server is not taken
away from a client that has its segment mapped: what such a client sees afterwards depends on
memory that is not modelled.
-/
import DistKV.Clients
import DistKV.GossipNet
import DistKV.Refresh
import Mathlib.Data.Fintype.Defs

namespace DistKV

/-! ### A server that comes up again -/

structure Boot where
  size : Nat
  mode : StorageMode
  nodeTag : Bytes
  outcomes : List (Option Exn)

/-- A process ends and another one comes up on its host.  If its store cannot be set up it ends
at once: as the writes of a `KVClient` swallow their exceptions, and no value is found either
way, to a distributor that is a server without a map. -/
def Server.reboot (ending : Ending) (boot : Boot) (s : Server) : Server :=
  let size := if 0 < boot.size then boot.size else defaultMemorySize
  let kv : KvStore :=
    { totalMemorySize := size, storageMode := boot.mode, connMode := .server }
  match (KvStore.construct size boot.mode .server boot.nodeTag).run
      { kv := kv, host := s.finish ending, outcomes := boot.outcomes } with
  | .ok _ b => { kv := b.kv, host := b.host }
  | .error _ b => { kv := kv, host := b.host }

/-! ### The membership thread -/

/-- Where the membership thread of a client has got to. -/
inductive MembershipThread where
  /-- The endpoints that are still to be asked in this pass; with none it sleeps. -/
  | asking (endpoints : List Endpoint)
  /-- `getMembership` has returned, with no member if it has failed. -/
  | answered (members : List MemberRecord) (endpoints : List Endpoint)

def KVDistributor.getAllEndpoints (iteration : Iteration) (d : KVDistributor) : List Endpoint :=
  (iteration.entries d.nodeToIp).map fun pair => pair.2

/-- What a client process is started with. -/
structure Setting where
  protocol : Bytes
  endpoints : List Endpoint
  localIp : Endpoint
  /-- The endpoint of the server whose store the process is attached to. -/
  attached : Endpoint
  /-- How its maps are gone through. -/
  iteration : KVDistributor.Iteration := .plain

/-- Where `KVClient` looks for a server. -/
def Setting.fullEp (setting : Setting) (endpoint : Endpoint) : Endpoint :=
  setting.protocol ++ str "://" ++ endpoint

structure System (κ : Type) where
  network : Network
  clients : Clients κ
  thread : κ → MembershipThread

inductive SystemEvent (κ : Type) where
  | gossip (e : GossipEvent)
  | turn (t : Turn κ)
  /-- The process of a server ends, and another one comes up with a store in its place. -/
  | reboot (i : NodeId) (ending : Server.Ending) (boot : Boot)
  /-- The membership thread begins a pass. -/
  | getAllEndpoints (i : κ)
  /-- The next endpoint is asked, and a server answers, or none does. -/
  | getMembership (i : κ) (server : Option NodeId)
  /-- The rest of `fetchMembershipFromServer`. -/
  | fetchMembership (i : κ)

namespace System

variable {κ : Type} [DecidableEq κ]

def start (setting : κ → Setting) (cluster : Cluster) : System κ where
  network := .empty
  clients :=
    { client := fun i =>
        { dist := KVDistributor.ofConfig (setting i).iteration (setting i).endpoints
            (setting i).localIp
          attached := (setting i).attached }
      cluster := cluster }
  thread := fun _ => .asking []

def setThread (s : System κ) (i : κ) (t : MembershipThread) : System κ :=
  { s with thread := Function.update s.thread i t }

def setDist (s : System κ) (i : κ) (d : KVDistributor) : System κ :=
  { s with clients := { s.clients with
      client := Function.update s.clients.client i { s.clients.client i with dist := d } } }

/-- `ring_mutex_` of a client is free. -/
def unlocked (s : System κ) (i : κ) : Bool := (s.clients.client i).running.isNone

/-- What the server at an endpoint answers to `get_membership`. -/
def membershipAt (config : NodeId → GossipConfig) (s : System κ) (fullEp : Endpoint)
    (server : NodeId) : Option (List MemberRecord) :=
  match s.network.member server with
  | some m =>
      if m.phase ≠ .down ∧ (config server).endpoint = fullEp then
        some m.membership.getMemberView
      else none
  | none => none

/-- Where clients reach a server. -/
def storeOf (config : NodeId → GossipConfig) (i : NodeId) : Endpoint :=
  stripScheme (config i).endpoint

/-- Some client works on the store of the server at an endpoint directly. -/
def Mapped (s : System κ) (endpoint : Endpoint) : Prop :=
  ∃ i, 0 ≤ (s.clients.client i).dist.localNodeId ∧ (s.clients.client i).attached = endpoint

instance [Fintype κ] (s : System κ) (endpoint : Endpoint) : Decidable (s.Mapped endpoint) :=
  inferInstanceAs (Decidable (∃ _, _))

variable [Fintype κ] (config : NodeId → GossipConfig) (setting : κ → Setting)

def step (s : System κ) : SystemEvent κ → System κ
  | .gossip e => { s with network := s.network.step config e }
  | .turn t => { s with clients := s.clients.step t }
  | .reboot i ending boot =>
      let endpoint := storeOf config i
      if s.Mapped endpoint then s
      else
        { s with
          network := s.network.step config (.crash i)
          clients := { s.clients with
            cluster := Function.update s.clients.cluster endpoint
              ((s.clients.cluster endpoint).reboot ending boot) } }
  | .getAllEndpoints i =>
      match s.thread i with
      | .asking [] =>
          if s.unlocked i then
            s.setThread i
              (.asking ((s.clients.client i).dist.getAllEndpoints (setting i).iteration))
          else s
      | _ => s
  | .getMembership i server =>
      match s.thread i with
      | .asking (endpoint :: rest) =>
          match server with
          | none => s.setThread i (.answered [] rest)
          | some j =>
              match s.membershipAt config ((setting i).fullEp endpoint) j with
              | some members => s.setThread i (.answered members rest)
              | none => s
      | _ => s
  | .fetchMembership i =>
      match s.thread i with
      | .answered members rest =>
          match (s.clients.client i).dist.fetchMembershipFromServer (some members) with
          | (false, _) => s.setThread i (.asking rest)
          | (true, d) =>
              if s.unlocked i then (s.setDist i d).setThread i (.asking []) else s
      | _ => s

end System

end DistKV
