/-
The client side, `src/KVDistributor.cpp`.

An operation of the distributor is a program over the requests it makes, one to a
store at a time: to the attached `KvStore` of its own process, or through the
`KVClient` to the server at an endpoint.  It carries the distributor along, since
looking an endpoint up with `operator[]` may add an entry to `node_to_ip`.

`ring_mutex_` is held for the length of an operation, so within one process no
ring rebuild and no other operation comes between two of its requests.  A
`KVClient` call that throws is a `failed` reply.  Log lines are left out, but for
the lookup they make.
-/
import DistKV.Ring
import DistKV.Store
import DistKV.Lib.Prog

namespace DistKV

inductive Target where
  /-- The `KvStore` the distributor holds a reference to. -/
  | attached
  /-- The server listening at an endpoint. -/
  | remote (endpoint : Endpoint)
deriving DecidableEq, Repr

structure Request where
  target : Target
  op : StoreOp
deriving DecidableEq, Repr

/-- What comes back: what `Find` returned, the end of a write, or an exception. -/
inductive Reply where
  | value (value : Bytes)
  | ack
  | failed
deriving DecidableEq, Repr

/-- `isMissOrError`. -/
def isMissOrError (value : Bytes) : Bool :=
  value = str "key not found" || value = str "Map not found"
    || (str "Error:").isPrefixOf value
    || (str "Fetch operation failed:").isPrefixOf value

/-- The text `get` returns when neither replica has the key. -/
def rpcFailed : Bytes := str "RPC Failed"

structure KVDistributor where
  countOfNode : Nat
  nodeToIp : NodeMap
  /-- The id of the node this process runs on, `-1` for a process that is a client only. -/
  localNodeId : NodeId
  hashRing : ConsistentHashRing
deriving DecidableEq

/-- A stretch of distributor code. -/
abbrev Call := StateT KVDistributor (Prog Request Reply)

/-- Put one request to a store. -/
def request (target : Target) (op : StoreOp) : Call Reply :=
  StateT.lift (Prog.ask { target := target, op := op })

namespace KVDistributor

/-! ### Construction and ring rebuilds -/

/-- The order in which an `unordered_map` is gone through, of which nothing is known but that
every entry comes once. -/
structure Iteration where
  entries : NodeMap → List (Sigma fun _ : NodeId => Endpoint)
  perm : ∀ m, (entries m).Perm m.entries

/-- As the entries of the model stand. -/
def Iteration.plain : Iteration := ⟨fun m => m.entries, fun _ => List.Perm.refl _⟩

/-- The default of `virtual_nodes_per_node`. -/
def defaultVirtualNodes : Int := 2

/-- `getLocalNodeId`: the first node that is come upon at the local address. -/
def getLocalNodeId (iteration : Iteration) (nodeToIp : NodeMap) (localIp : Endpoint) : NodeId :=
  match (iteration.entries nodeToIp).find? fun pair => pair.2 = localIp with
  | some pair => pair.1
  | none => -1

/-- The constructor, from the endpoints and the local address of the configuration. -/
def ofConfig (iteration : Iteration) (endpoints : List Endpoint) (localIp : Endpoint) :
    KVDistributor :=
  let nodeToIp : NodeMap :=
    (endpoints.zipIdx.map fun e => (⟨e.2, e.1⟩ : Sigma fun _ : NodeId => Endpoint)).toAList
  { countOfNode := nodeToIp.keys.length
    nodeToIp := nodeToIp
    localNodeId := getLocalNodeId iteration nodeToIp localIp
    hashRing := ({} : ConsistentHashRing).rebuild nodeToIp defaultVirtualNodes }

def rebuildRing (nodeEndpoints : NodeMap) (virtualNodesPerNode : Int) (d : KVDistributor) :
    KVDistributor :=
  { d with
    nodeToIp := nodeEndpoints
    countOfNode := nodeEndpoints.keys.length
    hashRing := d.hashRing.rebuild nodeEndpoints virtualNodesPerNode }

def isLocalNode (d : KVDistributor) (nodeId : NodeId) : Bool := nodeId = d.localNodeId

/-- `node_to_ip[node_id]`, which adds an empty endpoint for an id that is not there. -/
def getNodeToIP (nodeId : NodeId) : Call Endpoint := do
  let d ← getThe KVDistributor
  match d.nodeToIp.lookup nodeId with
  | some endpoint => pure endpoint
  | none =>
      set { d with nodeToIp := d.nodeToIp.insert nodeId [] }
      pure []

/-! ### One node -/

/-- Where requests for a node go. -/
def targetOf (nodeId : NodeId) : Call Target := do
  -- the log line of each operation looks the endpoint up before anything else
  let _ ← getNodeToIP nodeId
  let d ← getThe KVDistributor
  if d.isLocalNode nodeId then pure .attached
  else
    let endpoint ← getNodeToIP nodeId
    pure (.remote endpoint)

/-- What a reply to a read is worth: a value, unless it says that there is none. -/
def found : Reply → Option Bytes
  | .value value => if isMissOrError value then none else some value
  | _ => none

def readFromNode (nodeId : NodeId) (key : Key) : Call (Option Bytes) := do
  if nodeId < 0 then pure none
  else
    let target ← targetOf nodeId
    let reply ← request target (.find key)
    pure (found reply)

inductive RemoteOp where
  | insert
  | update
deriving DecidableEq, Repr

/-- The store call an operation stands for. -/
def RemoteOp.storeOp (op : RemoteOp) (key : Key) (value : Bytes) : StoreOp :=
  match op with
  | .insert => .insert key value
  | .update => .update key value

def writeToNode (nodeId : NodeId) (key : Key) (value : Bytes) (op : RemoteOp) :
    Call Unit := do
  if nodeId < 0 then pure ()
  else
    let target ← targetOf nodeId
    let _ ← request target (op.storeOp key value)

def deleteOnNode (nodeId : NodeId) (key : Key) : Call Unit := do
  if nodeId < 0 then pure ()
  else
    let target ← targetOf nodeId
    let _ ← request target (.delete key)

/-! ### The operations -/

def get (key : Key) : Call Bytes := do
  let d ← getThe KVDistributor
  let primaryNodeId := d.hashRing.getPrimaryNode key
  let buddyNodeId := d.hashRing.getBuddyNode key
  match ← readFromNode primaryNodeId key with
  | some value => pure value
  | none =>
      if buddyNodeId = primaryNodeId then pure rpcFailed
      else
        match ← readFromNode buddyNodeId key with
        | some value =>
            -- lazy migration from the buddy to the primary
            writeToNode primaryNodeId key value .insert
            pure value
        | none => pure rpcFailed

/-- The common body of `insert`, `update` and `deleteKey`: the primary, then the buddy. -/
def onReplicas (key : Key) (write : NodeId → Call Unit) : Call Unit := do
  let d ← getThe KVDistributor
  let primaryNodeId := d.hashRing.getPrimaryNode key
  let buddyNodeId := d.hashRing.getBuddyNode key
  write primaryNodeId
  if buddyNodeId = primaryNodeId then pure () else write buddyNodeId

def insert (key : Key) (value : Bytes) : Call Unit :=
  onReplicas key fun nodeId => writeToNode nodeId key value .insert

def update (key : Key) (value : Bytes) : Call Unit :=
  onReplicas key fun nodeId => writeToNode nodeId key value .update

def deleteKey (key : Key) : Call Unit :=
  onReplicas key fun nodeId => deleteOnNode nodeId key

end KVDistributor

/-- A call a client makes. -/
inductive Op where
  | insert (key : Key) (value : Bytes)
  | update (key : Key) (value : Bytes)
  | deleteKey (key : Key)
  | get (key : Key)
deriving DecidableEq, Repr

/-- Carry out a call; a `get` has a result. -/
def Op.perform : Op → Call (Option Bytes)
  | .insert key value => do
      KVDistributor.insert key value
      pure none
  | .update key value => do
      KVDistributor.update key value
      pure none
  | .deleteKey key => do
      KVDistributor.deleteKey key
      pure none
  | .get key => do
      let value ← KVDistributor.get key
      pure (some value)

end DistKV
