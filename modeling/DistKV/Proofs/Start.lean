/-
A session at its start.

A server that comes up in memory mode on a host of its own is up and empty, so a
client that starts over a deployment of such servers is wired, whatever nodes its
ring is over, and finds no key anywhere.  Where every request is delivered and the
stores have the memory they are asked for, calls are `Smooth`.
-/
import DistKV.Proofs.Session
import DistKV.Proofs.Disruption

namespace DistKV

open Replica

/-- A server in memory mode on a host with nothing else on it. -/
def Server.fresh : Server where
  kv :=
    { totalMemorySize := defaultMemorySize
      storageMode := .memory
      connMode := .server
      memoryStorage := true
      memoryMapPtr := true }
  host :=
    { shm := Function.update (Function.update (Function.update (fun _ => none)
        (str "Project") none) (str "Project")
        (some (.segment { size := defaultMemorySize, sharedMap := none }))) (str "Project")
        (some (.segment { size := defaultMemorySize, sharedMap := some ∅ }))
      mutexes := Function.update (Function.update (fun _ => false)
        (str "SharedMapMutex") false) (str "SharedMapMutex") true }

namespace Server

/-- It is what the constructor makes. -/
theorem getInstance_memory :
    KvStore.getInstance 0 .memory .server [] {} [] = .ok fresh := rfl

theorem sharedMap_fresh : fresh.kv.sharedMap fresh.host = some ∅ := rfl

theorem fresh_up : fresh.Up where
  map := ⟨∅, sharedMap_fresh⟩
  mutex := rfl
  storage := rfl

theorem contents_fresh (key : Key) : fresh.contents key = none :=
  contents_of_map sharedMap_fresh key

end Server

/-! ### Maps of a deployment -/

namespace Deployment

variable {D : Deployment} {ids : List NodeId} {i : NodeId}

/-- The map of some nodes. -/
def mapOf (D : Deployment) (ids : List NodeId) : NodeMap :=
  ids.foldr (fun i m => m.insert i (D.endpoint i)) ∅

theorem mem_mapOf : i ∈ D.mapOf ids ↔ i ∈ ids := by
  induction ids with
  | nil => exact iff_of_false (AList.notMem_empty i) List.not_mem_nil
  | cons j ids ih =>
      show i ∈ (D.mapOf ids).insert j (D.endpoint j) ↔ _
      rw [AList.mem_insert, ih, List.mem_cons]

theorem lookup_mapOf (hi : i ∈ ids) : (D.mapOf ids).lookup i = some (D.endpoint i) := by
  induction ids with
  | nil => cases hi
  | cons j ids ih =>
      show ((D.mapOf ids).insert j (D.endpoint j)).lookup i = _
      by_cases hij : i = j
      · rw [hij, AList.lookup_insert]
      · rw [AList.lookup_insert_ne hij]
        exact ih ((List.mem_cons.mp hi).resolve_left hij)

theorem locates_mapOf (hids : ∀ i ∈ ids, 0 ≤ i) : D.Locates (D.mapOf ids) where
  endpoint := fun _ hi => lookup_mapOf (mem_mapOf.mp hi)
  nonneg := fun i hi => hids i (mem_mapOf.mp hi)

/-- A list with one node more is a map with one node more. -/
theorem joins_mapOf {n : NodeId} {ids' : List NodeId} (hn : n ∉ ids)
    (hmem : ∀ i, i ∈ ids' ↔ i = n ∨ i ∈ ids) :
    ConsistentHashRing.Joins n (D.mapOf ids) (D.mapOf ids') where
  fresh := fun h => hn (mem_mapOf.mp h)
  mem := fun i => by rw [mem_mapOf, mem_mapOf, hmem]

end Deployment

/-- A deployment whose nodes have addresses of different lengths. -/
def Deployment.byLength : Deployment where
  endpoint := fun i => List.replicate (if i < 0 then 2 * i.natAbs - 1 else 2 * i.natAbs) 110
  distinct := by
    intro i j h
    have hlen := congrArg List.length h
    simp only [List.length_replicate] at hlen
    grind

/-! ### A client starts -/

namespace KVDistributor

/-- Node `k` of a configuration is at its `k`th endpoint. -/
theorem dlookup_zipIdx (endpoints : List Endpoint) (n k : Nat) :
    ((endpoints.zipIdx n).map fun e =>
      (⟨e.2, e.1⟩ : Sigma fun _ : NodeId => Endpoint)).dlookup ((n + k : Nat) : NodeId) =
      endpoints[k]? := by
  induction endpoints generalizing n k with
  | nil => rfl
  | cons endpoint endpoints ih =>
      rw [List.zipIdx_cons, List.map_cons]
      cases k with
      | zero => exact List.dlookup_cons_eq _ _ _
      | succ k =>
          have hne : ((n + (k + 1) : Nat) : Int) ≠ (n : Int) := by omega
          rw [List.dlookup_cons_ne _ _ hne, List.getElem?_cons_succ, ← ih (n + 1) k]
          congr 2
          omega

variable {iteration : Iteration} {endpoints : List Endpoint} {localIp : Endpoint} {i : NodeId}
  {endpoint : Endpoint}

theorem lookup_ofConfig
    (h : (ofConfig iteration endpoints localIp).nodeToIp.lookup i = some endpoint) :
    ∃ k : Nat, i = k ∧ endpoints[k]? = some endpoint := by
  unfold ofConfig at h
  dsimp only at h
  rw [AList.lookup_to_alist] at h
  have hmem := List.of_mem_dlookup h
  rw [List.mem_map] at hmem
  rcases hmem with ⟨e, -, heq⟩
  refine ⟨e.2, (congrArg Sigma.fst heq).symm, ?_⟩
  have hid : i = (e.2 : NodeId) := (congrArg Sigma.fst heq).symm
  rw [← dlookup_zipIdx endpoints 0 e.2, Nat.zero_add, ← hid]
  exact h

/-- The local node is the one at the local address, if there is one. -/
theorem lookup_getLocalNodeId {m : NodeMap} (h : 0 ≤ getLocalNodeId iteration m localIp) :
    m.lookup (getLocalNodeId iteration m localIp) = some localIp := by
  unfold getLocalNodeId at h ⊢
  cases hfind : (iteration.entries m).find? fun pair => pair.2 = localIp with
  | none =>
      rw [hfind] at h
      exact absurd h (by decide)
  | some pair =>
      have hlocal := List.find?_some hfind
      simp only [decide_eq_true_eq] at hlocal
      rw [← hlocal]
      exact List.mem_dlookup m.nodupKeys
        ((iteration.perm m).mem_iff.mp (List.mem_of_find?_eq_some hfind))

end KVDistributor

/-- **What the constructor makes is wired**, if the configuration says where the nodes are. -/
theorem Session.wired_ofConfig {D : Deployment} {iteration : KVDistributor.Iteration}
    {endpoints : List Endpoint} {localIp : Endpoint} {cluster : Cluster}
    (hD : ∀ (k : Nat) endpoint, endpoints[k]? = some endpoint → D.endpoint k = endpoint)
    (hup : ∀ e, (cluster e).Up) :
    Session.Wired D KVDistributor.defaultVirtualNodes
      { dist := KVDistributor.ofConfig iteration endpoints localIp
        attached := localIp
        cluster := cluster } where
  ring := ⟨{}, rfl⟩
  map := by
    refine ⟨fun i hi => ?_, fun i hi => ?_⟩
    · obtain ⟨endpoint, hlookup⟩ := Option.isSome_iff_exists.mp (AList.lookup_isSome.mpr hi)
      obtain ⟨k, rfl, hk⟩ := KVDistributor.lookup_ofConfig hlookup
      rw [hlookup, hD k endpoint hk]
    · obtain ⟨endpoint, hlookup⟩ := Option.isSome_iff_exists.mp (AList.lookup_isSome.mpr hi)
      obtain ⟨k, rfl, -⟩ := KVDistributor.lookup_ofConfig hlookup
      exact Int.natCast_nonneg k
  attached := by
    intro hlocal
    have hlookup : (KVDistributor.ofConfig iteration endpoints localIp).nodeToIp.lookup
        (KVDistributor.ofConfig iteration endpoints localIp).localNodeId = some localIp :=
      KVDistributor.lookup_getLocalNodeId hlocal
    obtain ⟨k, hid, hk⟩ := KVDistributor.lookup_ofConfig hlookup
    exact (hD k localIp hk).symm.trans (congrArg D.endpoint hid.symm)
  up := hup

/-- A proper value makes a proper insert, and a proper update. -/
theorem Proper.insert {value : Bytes} (h : Proper value) (key : Key) :
    (Op.insert key value).IsProper := by
  intro w value' hw hv
  cases hw
  cases hv
  exact h

theorem Proper.update {value : Bytes} (h : Proper value) (key : Key) :
    (Op.update key value).IsProper := by
  intro w value' hw hv
  cases hw
  cases hv
  exact h

theorem isProper_deleteKey (key : Key) : (Op.deleteKey key).IsProper := by
  intro w value hw hv
  cases hw
  cases hv

theorem isProper_get (key : Key) : (Op.get key).IsProper := by
  intro w value hw
  cases hw

namespace Session

variable {D : Deployment} {V : Int} {ids : List NodeId}

/-- A client that runs on none of the nodes, over fresh servers. -/
def start (D : Deployment) (V : Int) (ids : List NodeId) : Session where
  dist :=
    { countOfNode := ids.length
      nodeToIp := D.mapOf ids
      localNodeId := -1
      hashRing := ({} : ConsistentHashRing).rebuild (D.mapOf ids) V }
  attached := []
  cluster := fun _ => Server.fresh

theorem start_wired (hids : ∀ i ∈ ids, 0 ≤ i) : (start D V ids).Wired D V where
  ring := ⟨{}, rfl⟩
  map := Deployment.locates_mapOf hids
  attached := fun h => absurd (show (0 : Int) ≤ -1 from h) (by decide)
  up := fun _ => Server.fresh_up

theorem start_placed (hV : 1 ≤ V) {i : NodeId} (hi : i ∈ ids) (hids : ∀ i ∈ ids, 0 ≤ i)
    (key : Key) : (start D V ids).Placed key :=
  (start_wired hids).placed hV (Deployment.mem_mapOf.mpr hi) key

theorem start_column (key : Key) (i : NodeId) : (start D V ids).column D key i = none :=
  Server.contents_fresh key

theorem start_inOrder (hids : ∀ i ∈ ids, 0 ≤ i) : (start D V ids).InOrder D V where
  toWired := start_wired hids
  proper := by
    intro key i value hv
    rw [start_column key i] at hv
    cases hv

end Session

/-! ### Circumstances -/

namespace Conditions

/-- Memory for whatever a request stores. -/
def enoughFor (r : Request) : MemEnv where
  freeMemory :=
    match r.op with
    | .insert _ value => 2 * KvStore.entrySize value
    | .update _ newValue => 2 * newValue.length
    | _ => 0
  alloc := none

/-- Everything is delivered, and there is memory for it. -/
def fine : Conditions where
  fate := fun _ => .answered
  memory := fun r _ => enoughFor r

/-- Everything is delivered but what is sent to one node. -/
def silentAt (D : Deployment) (r : NodeId) : Conditions where
  fate := fun request =>
    if request.target = .remote (D.endpoint r) then .lost else .answered
  memory := fun r _ => enoughFor r

theorem ample_of_enoughFor {c : Conditions} (hc : ∀ r s, c.memory r s = enoughFor r) :
    c.Ample := by
  intro r s hs
  rw [hc]
  unfold Server.Admits enoughFor
  cases r.op with
  | find key => trivial
  | insert key value =>
      refine ⟨?_, fun _ => rfl⟩
      unfold KvStore.hasEnoughMemory KvStore.getFreeMemory
      simp only [hs.storage, if_true, decide_eq_true_eq]
      omega
  | update key newValue =>
      intro old _
      refine ⟨fun _ => ?_, rfl⟩
      unfold KvStore.hasEnoughMemory KvStore.getFreeMemory
      simp only [hs.storage, if_true, decide_eq_true_eq]
      omega
  | delete key => trivial

theorem fine_ample : fine.Ample := ample_of_enoughFor fun _ _ => rfl

theorem fine_delivered : fine.Delivered := fun _ => rfl

/-- Every other node is served as if nothing were wrong. -/
theorem silentAt_serves {D : Deployment} {V : Int} {s : Session} (hs : s.Wired D V) {i r : NodeId}
    (hi : i ∈ s.dist.nodeToIp) (hne : i ≠ r) :
    Session.Serves (silentAt D r) s.dist i := by
  intro op
  refine ⟨?_, fun server hup =>
    ample_of_enoughFor (c := silentAt D r) (fun _ _ => rfl) (s.dist.requestTo i op) server hup⟩
  unfold answers KVDistributor.requestTo KVDistributor.target
  by_cases hlocal : s.dist.isLocalNode i = true
  · simp [hlocal]
  · simp only [hlocal, Bool.false_eq_true, if_false, hs.map.endpoint i hi, Option.getD_some]
    have hfate : (silentAt D r).fate { target := .remote (D.endpoint i), op := op } =
        .answered := if_neg fun h => hne (D.distinct (Target.remote.inj h))
    rw [hfate]
    rfl

end Conditions

end DistKV
