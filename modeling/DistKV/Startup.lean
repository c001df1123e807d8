/-
The start of `kvm_server`, `main` of `src/main_server.cpp`, and what it reads of the
configuration, `src/config.cpp`; and the ring that its change callback keeps.

The server looks its own address up among the endpoints that are configured, to find out which
node it is.  `local_ip` is what `hostname -I` says first, without the end of the line.  The
memory size is read as a floating-point number and is left out, and so is what is printed.
-/
import DistKV.KeyRanges
import DistKV.Refresh
import DistKV.Shell

namespace DistKV

/-- The object `gossip` of `config/config.json`. -/
structure GossipSection where
  suspectThresholdMs : Option Int
  deadThresholdMs : Option Int
  seedNodes : List Endpoint

/-- `read_gossip_config`, for the server with an address. -/
def readGossipConfig (gossip : Option GossipSection) (address : Endpoint) : GossipConfig :=
  match gossip with
  | none =>
      { endpoint := address
        seedNodes := []
        suspectThresholdMs := 3000
        deadThresholdMs := 10000 }
  | some g =>
      { endpoint := address
        seedNodes := g.seedNodes
        suspectThresholdMs := g.suspectThresholdMs.getD 3000
        deadThresholdMs := g.deadThresholdMs.getD 10000 }

/-- The loop of `findNodeId`, from node `i` on; `none` is an endpoint that is not configured. -/
def findNodeIdFrom (config : Config) (localIp portStr : Bytes) : (count i : Nat) → Option NodeId
  | 0, _ => some (-1)
  | count + 1, i => do
      let ep ← config.getEndpoint i
      if 58 ∈ ep ∧ ep.takeWhile (· ≠ 58) = localIp ∧ ep.dropWhile (· ≠ 58) = portStr then some i
      else findNodeIdFrom config localIp portStr count (i + 1)

def findNodeId (config : Config) (localIp : Bytes) (port : Int) : Option NodeId :=
  findNodeIdFrom config localIp (str ":" ++ toStdString port) config.countOfNode.toNat 0

/-- `tolower` in the classic locale. -/
def toLower (c : UInt8) : UInt8 := if 65 ≤ c ∧ c ≤ 90 then c + 32 else c

structure KvmServer where
  nodeId : NodeId
  gossip : GossipConfig
  /-- The tag of the store. -/
  nodeTag : Bytes
  mode : StorageMode

namespace KvmServer

/-- The start, from the arguments behind the name of the program. -/
def launch (config : Config) (gossip : Option GossipSection) (localIp : Bytes)
    (args : List Bytes) : Option KvmServer := do
  let protocol := args.getD 0 (str "ofi+tcp")
  let port := (args[1]?.bind stoi).getD 8080
  let modeArg := (args.getD 3 []).map toLower
  let address := serverAddress protocol localIp port
  let nodeId ← findNodeId config localIp port
  some
    { nodeId := if nodeId < 0 then 0 else nodeId
      gossip := readGossipConfig gossip address
      nodeTag := serverTag port
      mode := if modeArg = str "persistent" then .persistent else .memory }

end KvmServer

/-- `server_ring`: it is rebuilt for every map that the change callback is called with, and its
assignments are printed. -/
def serverRing (g : GossipMembership) : ConsistentHashRing :=
  g.delivered.foldr (fun live ring => ring.rebuild live KVDistributor.defaultVirtualNodes) {}

end DistKV
