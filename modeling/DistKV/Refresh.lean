/-
The client process, `kvm_client`: what `main` of `src/main_client.cpp` makes of its
configuration, and `fetchMembershipFromServer` of `src/KVDistributor.cpp`.

The process attaches to a segment of shared memory by the tag in its name, which the client
takes from the first endpoint that is configured, and a server from the port it listens at.
A client that does not find the segment, or an endpoint in its configuration, ends at once
and is none here.  What a server answers to `get_membership` is handed in.
-/
import DistKV.Distributor
import DistKV.Gossip

namespace DistKV

/-! ### Configuration -/

/-- `config/config.json`, as far as the client reads it. -/
structure Config where
  countOfNode : Int
  /-- The object `ip_addresses`, by node id. -/
  ipAddresses : NodeId → Option Endpoint
  localIp : Endpoint

namespace Config

def getEndpoint (nodeId : NodeId) (config : Config) : Option Endpoint := config.ipAddresses nodeId

/-- The endpoints that the constructor of the distributor goes through. -/
def endpoints (config : Config) : Option (List Endpoint) :=
  (List.range config.countOfNode.toNat).mapM fun i : Nat => config.getEndpoint i

end Config

/-! ### Tags -/

/-- What follows the last colon of an endpoint, if there is any. -/
def nodeTag (endpoint : Endpoint) : Bytes :=
  if 58 ∈ endpoint then (endpoint.reverse.takeWhile (· ≠ 58)).reverse else []

/-- The address of a server, in `src/main_server.cpp`. -/
def serverAddress (protocol localIp : Bytes) (port : Int) : Endpoint :=
  protocol ++ str "://" ++ localIp ++ str ":" ++ toStdString port

/-- The tag of the segment that a server makes. -/
def serverTag (port : Int) : Bytes := toStdString port

/-! ### Membership -/

/-- What follows the first `://`. -/
def afterScheme : Endpoint → Option Endpoint
  | [] => none
  | c :: rest =>
      if (str "://").isPrefixOf (c :: rest) then some (rest.drop 2) else afterScheme rest

def stripScheme (endpoint : Endpoint) : Endpoint := (afterScheme endpoint).getD endpoint

/-- The map of the members that are alive. -/
def liveMap (members : List MemberRecord) : NodeMap :=
  members.foldl
    (fun live m =>
      if m.status ≠ .alive then live else live.insert m.nodeId (stripScheme m.endpoint)) ∅

/-- `fetchMembershipFromServer`, with the answer of the server or an exception. -/
def KVDistributor.fetchMembershipFromServer (members : Option (List MemberRecord))
    (d : KVDistributor) : Bool × KVDistributor :=
  match members with
  | none => (false, d)
  | some members =>
      let live := liveMap members
      if live.keys = [] then (false, d)
      else if live.entries.Perm d.nodeToIp.entries then (true, d)
      else (true, d.rebuildRing live defaultVirtualNodes)

/-! ### The process -/

structure KvmClient where
  /-- The tag of the segment the process is attached to. -/
  nodeTag : Bytes
  dist : KVDistributor

namespace KvmClient

/-- The start of `kvm_client`. -/
def launch (iteration : KVDistributor.Iteration) (config : Config) : Option KvmClient := do
  let firstEp ← config.getEndpoint 0
  let endpoints ← config.endpoints
  some { nodeTag := DistKV.nodeTag firstEp
         dist := KVDistributor.ofConfig iteration endpoints config.localIp }

/-- What changes the map of a client. -/
inductive Update where
  | rebuildRing (nodeEndpoints : NodeMap) (virtualNodesPerNode : Int)
  | fetchMembership (members : Option (List MemberRecord))

def step (c : KvmClient) : Update → KvmClient
  | .rebuildRing nodeEndpoints virtualNodesPerNode =>
      { c with dist := c.dist.rebuildRing nodeEndpoints virtualNodesPerNode }
  | .fetchMembership members => { c with dist := (c.dist.fetchMembershipFromServer members).2 }

end KvmClient

end DistKV
