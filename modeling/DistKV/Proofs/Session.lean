/-
A session, seen one key at a time.

What the servers of a deployment hold for one key is a column in the sense of
`Lib/Replica.lean`.  In a session whose ring was built from its map, whose map knows
where the nodes are, and whose servers serve, a write is `Replica.replicate` on the
column of its key and a `get` is `Replica.fetch`; no other column changes.  Which
requests get through is read off the circumstances of the call.
-/
import DistKV.Cluster
import DistKV.Proofs.Distributor
import DistKV.Proofs.Ring
import DistKV.Proofs.Store

namespace DistKV

open Replica
open scoped Classical

/-- Where the nodes of a deployment are: every node has a server of its own. -/
structure Deployment where
  endpoint : NodeId → Endpoint
  distinct : Function.Injective endpoint

/-- A map of the deployment: it says where its nodes are. -/
structure Deployment.Locates (D : Deployment) (m : NodeMap) : Prop where
  endpoint : ∀ i ∈ m, m.lookup i = some (D.endpoint i)
  nonneg : ∀ i ∈ m, 0 ≤ i

/-- A value that survives the way into a store and out of it again: no NUL in it, and not
one of the texts that stand for a miss or an error. -/
structure Proper (value : Bytes) : Prop where
  nulFree : cStr value = value
  found : isMissOrError value = false

namespace Conditions

/-- The client hears the answer to a request. -/
def answers (c : Conditions) (r : Request) : Bool :=
  r.target = .attached || c.fate r = .answered

/-- A request is carried out, whether the client hears of it or not. -/
def executes (c : Conditions) (r : Request) : Bool :=
  r.target = .attached || c.fate r ≠ .lost

/-- No store rejects a request for want of memory. -/
def Ample (c : Conditions) : Prop := ∀ r (s : Server), s.Up → s.Admits (c.memory r s) r.op

/-- Every request is delivered. -/
def Delivered (c : Conditions) : Prop := ∀ r, c.fate r = .answered

theorem Delivered.answers {c : Conditions} (hc : c.Delivered) (r : Request) :
    c.answers r = true := by
  unfold Conditions.answers
  simp [hc r]

theorem Delivered.executes {c : Conditions} (hc : c.Delivered) (r : Request) :
    c.executes r = true := by
  unfold Conditions.executes
  simp [hc r]

end Conditions

/-- What the nodes hold for a key. -/
def Cluster.column (D : Deployment) (cluster : Cluster) (key : Key) : Column NodeId Bytes :=
  fun i => (cluster (D.endpoint i)).contents key

namespace Session

abbrev column (D : Deployment) (s : Session) (key : Key) : Column NodeId Bytes :=
  s.cluster.column D key

/-- A session that is wired up: the ring is the ring of the map, the map is one of the
deployment, the process is attached to the store of its own node if it has one, and all
servers are up. -/
structure Wired (D : Deployment) (V : Int) (s : Session) : Prop where
  ring : ∃ r : ConsistentHashRing, s.dist.hashRing = r.rebuild s.dist.nodeToIp V
  map : D.Locates s.dist.nodeToIp
  attached : 0 ≤ s.dist.localNodeId → s.attached = D.endpoint s.dist.localNodeId
  up : ∀ e, (s.cluster e).Up

variable {D : Deployment} {V : Int} {s : Session} {c : Conditions} {i : NodeId}
  {key : Key}

theorem Wired.known (hs : s.Wired D V) (hi : i ∈ s.dist.nodeToIp) : s.dist.Known i :=
  ⟨hs.map.nonneg i hi, hi⟩

/-! ### One request -/

theorem serve_snd (env : MemEnv) (s : Server) (op : StoreOp) :
    (s.serve env op).2 = s.write env op := by
  cases op <;> rfl

/-- The servers with one of them having carried out an operation. -/
def executed (c : Conditions) (cluster : Cluster) (endpoint : Endpoint) (r : Request) :
    Cluster :=
  Function.update cluster endpoint
    ((cluster endpoint).write (c.memory r (cluster endpoint)) r.op)

/-- What a request to a node does. -/
theorem handle_requestTo (hs : s.Wired D V) (hi : i ∈ s.dist.nodeToIp) (op : StoreOp)
    (cluster : Cluster) :
    Cluster.handle c s.attached cluster (s.dist.requestTo i op) =
      (if c.answers (s.dist.requestTo i op) then
          ((cluster (D.endpoint i)).serve
            (c.memory (s.dist.requestTo i op) (cluster (D.endpoint i))) op).1
        else .failed,
       if c.executes (s.dist.requestTo i op) then
          executed c cluster (D.endpoint i) (s.dist.requestTo i op)
        else cluster) := by
  unfold KVDistributor.requestTo KVDistributor.target Conditions.answers Conditions.executes
    Cluster.handle
  by_cases hlocal : s.dist.isLocalNode i = true
  · have hi' : i = s.dist.localNodeId := by
      simpa [KVDistributor.isLocalNode] using hlocal
    have ha : s.attached = D.endpoint i := by
      rw [hi']
      exact hs.attached (hi' ▸ hs.map.nonneg i hi)
    simp only [hlocal, if_true, ha, decide_true, Bool.true_or]
    unfold Cluster.serve executed
    simp only [serve_snd]
  · simp only [hlocal, Bool.false_eq_true, if_false, hs.map.endpoint i hi, Option.getD_some,
      reduceCtorEq, decide_false, Bool.false_or]
    unfold Cluster.serve executed
    cases c.fate _ <;> simp [serve_snd]

theorem executed_up {cluster : Cluster} (hcl : ∀ e, (cluster e).Up)
    (endpoint : Endpoint) (r : Request) (e : Endpoint) :
    (executed c cluster endpoint r e).Up := by
  unfold executed
  by_cases he : e = endpoint
  · rw [he, Function.update_self]
    exact (hcl endpoint).write _ _
  · rw [Function.update_of_ne he]
    exact hcl e

/-- A write that a server has the memory for is carried out, and one it has not is not. -/
theorem executed_column {cluster : Cluster} (hcl : ∀ e, (cluster e).Up) {r : Request}
    {w : Write Bytes} (hw : r.op.write = some w) :
    (executed c cluster (D.endpoint i) r).column D key =
      if key = r.op.key then
        put (fun i => decide ((cluster (D.endpoint i)).Admits
          (c.memory r (cluster (D.endpoint i))) r.op)) w i (cluster.column D key)
      else cluster.column D key := by
  unfold executed put
  by_cases ha : (cluster (D.endpoint i)).Admits (c.memory r (cluster (D.endpoint i))) r.op
  · simp only [ha, decide_true, if_true]
    funext j
    unfold Cluster.column
    by_cases hj : j = i
    · subst hj
      rw [Function.update_self, Server.contents_write (hcl _).toServing ha, hw]
      by_cases hk : key = r.op.key
      · rw [if_pos hk, if_pos hk, Function.update_self]
      · rw [if_neg hk, if_neg hk]
    · rw [Function.update_of_ne fun he => hj (D.distinct he)]
      by_cases hk : key = r.op.key
      · rw [if_pos hk, Function.update_of_ne hj]
      · rw [if_neg hk]
  · rw [Server.write_of_not_admits ha, Function.update_eq_self]
    simp only [ha, decide_false, Bool.false_eq_true, if_false, ite_self]

/-- A read leaves every server as it is. -/
theorem handle_find (hs : s.Wired D V) (hi : i ∈ s.dist.nodeToIp) (key : Key)
    (cluster : Cluster) :
    (Cluster.handle c s.attached cluster (s.dist.requestTo i (.find key))).2 = cluster := by
  rw [handle_requestTo hs hi]
  dsimp only
  split
  · exact Function.update_eq_self _ _
  · rfl

/-- What a read is taken to find: what is there, unless it reads like a miss or an error. -/
def readAs (x : Option Bytes) : Option Bytes := x.filter fun value => !isMissOrError value

theorem readAs_of_not_isMissOrError {x : Option Bytes}
    (h : ∀ value, x = some value → isMissOrError value = false) : readAs x = x := by
  unfold readAs
  rcases x with _ | value
  · rfl
  · rw [Option.filter_some, h value rfl]
    rfl

/-- What a read finds, if the client hears of it. -/
theorem found_handle_any (hs : s.Wired D V) (hi : i ∈ s.dist.nodeToIp) {cluster : Cluster}
    (hcl : ∀ e, (cluster e).Up) :
    KVDistributor.found
        (Cluster.handle c s.attached cluster (s.dist.requestTo i (.find key))).1 =
      if c.answers (s.dist.requestTo i (.find key)) then readAs (cluster.column D key i)
      else none := by
  rw [handle_requestTo hs hi]
  dsimp only
  split
  · show KVDistributor.found (.value ((cluster (D.endpoint i)).find key)) = _
    rw [Server.find_eq (hcl _).toServing]
    unfold Cluster.column
    rcases (cluster (D.endpoint i)).contents key with _ | value
    · decide
    · show (if isMissOrError value then none else some value) = readAs (some value)
      unfold readAs
      rw [Option.filter_some]
      rcases isMissOrError value with _ | _
      · rfl
      · rfl
  · rfl

/-- For a proper value that is what the node holds. -/
theorem found_handle (hs : s.Wired D V) (hi : i ∈ s.dist.nodeToIp) {cluster : Cluster}
    (hcl : ∀ e, (cluster e).Up)
    (hproper : ∀ value, cluster.column D key i = some value → Proper value) :
    KVDistributor.found
        (Cluster.handle c s.attached cluster (s.dist.requestTo i (.find key))).1 =
      look (fun i => c.answers (s.dist.requestTo i (.find key))) i (cluster.column D key) := by
  rw [found_handle_any hs hi hcl,
    readAs_of_not_isMissOrError fun value hvalue => (hproper value hvalue).found]
  rfl

/-- A value that a read finds is there, whatever the values are. -/
theorem column_of_found (hs : s.Wired D V) (hi : i ∈ s.dist.nodeToIp) {cluster : Cluster}
    (hcl : ∀ e, (cluster e).Up) {value : Bytes}
    (h : KVDistributor.found
      (Cluster.handle c s.attached cluster (s.dist.requestTo i (.find key))).1 = some value) :
    cluster.column D key i = some value := by
  rw [found_handle_any hs hi hcl] at h
  split at h
  · exact (Option.filter_eq_some_iff.mp h).1
  · cases h

/-- The nodes that take a write: the request comes through, and there is memory for it. -/
noncomputable def takes (c : Conditions) (D : Deployment) (d : KVDistributor)
    (cluster : Cluster) (op : StoreOp) (i : NodeId) : Bool :=
  c.executes (d.requestTo i op) && decide ((cluster (D.endpoint i)).Admits
    (c.memory (d.requestTo i op) (cluster (D.endpoint i))) op)

/-- A write request is carried out at its node, if the node takes it. -/
theorem handle_write (hs : s.Wired D V) (hi : i ∈ s.dist.nodeToIp) {cluster : Cluster}
    (hcl : ∀ e, (cluster e).Up) {op : StoreOp} {w : Write Bytes} (hw : op.write = some w)
    (key : Key) :
    (Cluster.handle c s.attached cluster (s.dist.requestTo i op)).2.column D key =
      if key = op.key then put (takes c D s.dist cluster op) w i (cluster.column D key)
      else cluster.column D key := by
  rw [handle_requestTo hs hi]
  dsimp only
  by_cases hx : c.executes (s.dist.requestTo i op) = true
  · rw [if_pos hx, executed_column hcl hw, show (s.dist.requestTo i op).op = op from rfl]
    refine if_congr Iff.rfl (put_congr ?_) rfl
    unfold takes
    rw [hx, Bool.true_and]
  · rw [if_neg hx]
    unfold put takes
    rw [Bool.not_eq_true _ |>.mp hx, Bool.false_and]
    simp only [Bool.false_eq_true, if_false, ite_self]

/-- Nor does an insert change anything at a node that has the key. -/
theorem handle_insert_present (hs : s.Wired D V) (hi : i ∈ s.dist.nodeToIp) {cluster : Cluster}
    (h : cluster.column D key i ≠ none) (value : Bytes) :
    (Cluster.handle c s.attached cluster (s.dist.requestTo i (.insert key value))).2 =
      cluster := by
  rw [handle_requestTo hs hi]
  dsimp only
  split
  · unfold executed
    rw [show (s.dist.requestTo i (.insert key value)).op = .insert key value from rfl,
      Server.insert_present h]
    exact Function.update_eq_self _ _
  · rfl

theorem handle_up (hs : s.Wired D V) (hi : i ∈ s.dist.nodeToIp) {cluster : Cluster}
    (hcl : ∀ e, (cluster e).Up) (op : StoreOp) (e : Endpoint) :
    ((Cluster.handle c s.attached cluster (s.dist.requestTo i op)).2 e).Up := by
  rw [handle_requestTo hs hi]
  dsimp only
  split
  · exact executed_up hcl _ _ e
  · exact hcl e

/-! ### One call -/

/-- Where the replicas of a key are. -/
theorem Wired.primary_mem (hs : s.Wired D V) (hV : 1 ≤ V) (hi : i ∈ s.dist.nodeToIp)
    (key : Key) : s.dist.primary key ∈ s.dist.nodeToIp := by
  obtain ⟨r, hr⟩ := hs.ring
  unfold KVDistributor.primary
  rw [hr]
  exact ConsistentHashRing.primary_mem hV hi key

theorem Wired.buddy_mem (hs : s.Wired D V) (hV : 1 ≤ V) (hi : i ∈ s.dist.nodeToIp)
    (key : Key) : s.dist.buddy key ∈ s.dist.nodeToIp := by
  obtain ⟨r, hr⟩ := hs.ring
  unfold KVDistributor.buddy
  rw [hr]
  exact ConsistentHashRing.buddy_mem hV hi key

/-- The key and both of its replicas are known, as they are whenever there is a node. -/
structure Placed (s : Session) (key : Key) : Prop where
  primary : s.dist.primary key ∈ s.dist.nodeToIp
  buddy : s.dist.buddy key ∈ s.dist.nodeToIp

theorem Placed.of_dist {t : Session} (h : s.Placed key) (ht : t.dist = s.dist) :
    t.Placed key := by
  refine ⟨?_, ?_⟩
  · rw [ht]
    exact h.primary
  · rw [ht]
    exact h.buddy

theorem Wired.placed (hs : s.Wired D V) (hV : 1 ≤ V) (hi : i ∈ s.dist.nodeToIp) (key : Key) :
    s.Placed key := ⟨hs.primary_mem hV hi key, hs.buddy_mem hV hi key⟩

/-- There is a place for every key, or the ring is empty. -/
theorem Wired.placed_or_empty (hs : s.Wired D V) :
    (∀ key, s.Placed key) ∨ s.dist.hashRing.ring = [] := by
  by_cases hV : 1 ≤ V
  · by_cases hkeys : s.dist.nodeToIp.keys = []
    · refine Or.inr ?_
      obtain ⟨r, hr⟩ := hs.ring
      rw [hr]
      unfold ConsistentHashRing.rebuild
      rw [if_neg (by omega), hkeys]
      rfl
    · obtain ⟨i, hi⟩ := List.exists_mem_of_ne_nil _ hkeys
      exact Or.inl (hs.placed hV (AList.mem_keys.mpr hi))
  · refine Or.inr ?_
    obtain ⟨r, hr⟩ := hs.ring
    rw [hr]
    exact if_pos (by omega)

/-- Over an empty ring a call has no effect. -/
theorem exec_of_empty (h : s.dist.hashRing.ring = []) (op : Op) :
    s.exec c op = (match op with
      | .get _ => some rpcFailed
      | _ => none, s) := by
  unfold exec
  rw [KVDistributor.run_of_empty h]
  rfl

theorem exec_of_write (hs : s.Wired D V) {op : Op} {w : StoreOp} (hw : op.storeOp = some w)
    (hkey : s.Placed op.key) :
    s.exec c op =
      (none, { s with cluster :=
        ((s.dist.writeProgram w (s.dist.primary op.key) (s.dist.buddy op.key)).run
          (Cluster.handle c s.attached) s.cluster).2 }) := by
  unfold exec
  rw [KVDistributor.run_write hw (hs.known hkey.primary) (hs.known hkey.buddy)]
  unfold KVDistributor.writeProgram Prog.run
  split
  · rfl
  · rfl

/-- What one node takes does not depend on what another has carried out. -/
theorem takes_of_ne (hs : s.Wired D V) {p b : NodeId} (hp : p ∈ s.dist.nodeToIp) (hne : b ≠ p)
    (op : StoreOp) (cluster : Cluster) :
    takes c D s.dist (Cluster.handle c s.attached cluster (s.dist.requestTo p op)).2 op b =
      takes c D s.dist cluster op b := by
  unfold takes
  rw [handle_requestTo hs hp]
  dsimp only
  split
  · unfold executed
    rw [Function.update_of_ne fun he => hne (D.distinct he)]
  · rfl

/-- **A write is a replicated write.** -/
theorem exec_write (hs : s.Wired D V) {op : Op} {w : StoreOp} (hw : op.storeOp = some w)
    {a : Write Bytes} (ha : w.write = some a) (hkey : s.Placed op.key) (key : Key) :
    (s.exec c op).2.column D key =
      if key = op.key then
        replicate (takes c D s.dist s.cluster w) a (s.dist.primary op.key)
          (s.dist.buddy op.key) (s.column D key)
      else s.column D key := by
  have hk : w.key = op.key := by
    cases op <;> cases hw <;> rfl
  rw [exec_of_write hs hw hkey]
  show Cluster.column D _ key = _
  unfold KVDistributor.writeProgram replicate
  rw [Prog.run]
  have hfirst := handle_write (c := c) hs hkey.primary hs.up ha key
  split
  · rw [Prog.run, hfirst, hk]
  · rename_i hne
    rw [Prog.run, Prog.run,
      handle_write hs hkey.buddy (handle_up hs hkey.primary hs.up w) ha, hfirst, hk]
    by_cases hkk : key = op.key
    · simp only [if_pos hkk]
      exact put_congr (takes_of_ne hs hkey.primary hne w s.cluster)
    · simp only [if_neg hkk]

/-- The nodes whose answer to a read of a key the client hears. -/
def readable (c : Conditions) (s : Session) (key : Key) (i : NodeId) : Bool :=
  c.answers (s.dist.requestTo i (.find key))

/-- The nodes that take the write back of what the buddy holds. -/
noncomputable def writable (c : Conditions) (D : Deployment) (s : Session) (key : Key) :
    NodeId → Bool :=
  takes c D s.dist s.cluster (.insert key ((s.column D key (s.dist.buddy key)).getD []))

/-- The three ways a `get` goes. -/
theorem exec_get_cases (hs : s.Wired D V) (hkey : s.Placed key)
    (hproper : ∀ i value, s.column D key i = some value → Proper value) :
    (∃ value, look (readable c s key) (s.dist.primary key) (s.column D key) = some value ∧
      s.exec c (.get key) = (some value, s)) ∨
    (∃ value, look (readable c s key) (s.dist.primary key) (s.column D key) = none ∧
      s.dist.buddy key ≠ s.dist.primary key ∧
      look (readable c s key) (s.dist.buddy key) (s.column D key) = some value ∧
      s.exec c (.get key) = (some value, { s with cluster :=
        (Cluster.handle c s.attached s.cluster
          (s.dist.requestTo (s.dist.primary key) (.insert key value))).2 })) ∨
    (look (readable c s key) (s.dist.primary key) (s.column D key) = none ∧
      (s.dist.buddy key = s.dist.primary key ∨
        look (readable c s key) (s.dist.buddy key) (s.column D key) = none) ∧
      s.exec c (.get key) = (some rpcFailed, s)) := by
  have hp := found_handle (c := c) hs hkey.primary hs.up (hproper _)
  have hb := found_handle (c := c) hs hkey.buddy hs.up (hproper _)
  have hpcl := handle_find (c := c) hs hkey.primary key s.cluster
  have hbcl := handle_find (c := c) hs hkey.buddy key s.cluster
  unfold exec
  rw [KVDistributor.run_get (hs.known hkey.primary) (hs.known hkey.buddy)]
  unfold KVDistributor.getProgram
  rw [Prog.run, hp, hpcl]
  cases hlook : look (readable c s key) (s.dist.primary key) (s.column D key) with
  | some value =>
      refine Or.inl ⟨value, rfl, ?_⟩
      unfold readable at hlook
      rw [hlook]
      rfl
  | none =>
      refine Or.inr ?_
      unfold readable at hlook
      rw [hlook]
      dsimp only
      by_cases hne : s.dist.buddy key = s.dist.primary key
      · rw [if_pos hne]
        exact Or.inr ⟨rfl, Or.inl hne, rfl⟩
      · rw [if_neg hne, Prog.run, hb, hbcl]
        cases hlookb : look (readable c s key) (s.dist.buddy key) (s.column D key) with
        | some value =>
            refine Or.inl ⟨value, rfl, hne, rfl, ?_⟩
            unfold readable at hlookb
            rw [hlookb]
            rfl
        | none =>
            refine Or.inr ⟨rfl, Or.inr rfl, ?_⟩
            unfold readable at hlookb
            rw [hlookb]
            rfl

/-- **A `get` is a fetch.** -/
theorem exec_get (hs : s.Wired D V) (hkey : s.Placed key)
    (hproper : ∀ i value, s.column D key i = some value → Proper value) :
    (s.exec c (.get key)).1 =
        some ((fetch (readable c s key) (writable c D s key) (s.dist.primary key)
          (s.dist.buddy key) (s.column D key)).1.getD rpcFailed) ∧
      ∀ key', (s.exec c (.get key)).2.column D key' =
        if key' = key then
          (fetch (readable c s key) (writable c D s key) (s.dist.primary key)
            (s.dist.buddy key) (s.column D key)).2
        else s.column D key' := by
  obtain ⟨value, hp, hx⟩ | ⟨value, hp, hne, hb, hx⟩ | ⟨hp, hb, hx⟩ :=
    exec_get_cases (c := c) hs hkey hproper
  · rw [hx, fetch_of_primary hp]
    refine ⟨rfl, fun key' => ?_⟩
    split
    · rename_i heq
      rw [heq]
    · rfl
  · rw [hx, fetch_of_buddy hp hne hb]
    have hcol : s.column D key (s.dist.buddy key) = some value := look_eq_some hb
    have hwrite : StoreOp.write (.insert key value) = some (.insert value) := by
      show some (Write.insert (cStr value)) = _
      rw [(hproper _ _ hcol).nulFree]
    refine ⟨rfl, fun key' => ?_⟩
    refine (handle_write hs hkey.primary hs.up hwrite key').trans ?_
    unfold writable
    rw [hcol, show (StoreOp.insert key value).key = key from rfl]
    by_cases hk : key' = key
    · rw [if_pos hk, if_pos hk, hk]
      rfl
    · rw [if_neg hk, if_neg hk]
  · rw [hx, fetch_of_neither hp hb]
    refine ⟨rfl, fun key' => ?_⟩
    split
    · rename_i heq
      rw [heq]
    · rfl

/-! ### What a call leaves alone -/

/-- Whatever the values are, a `get` changes nothing, or sends the primary what the buddy
holds. -/
theorem exec_get_any (hs : s.Wired D V) (hkey : s.Placed key) :
    (∃ result, s.exec c (.get key) = (result, s)) ∨
    (∃ value, s.dist.buddy key ≠ s.dist.primary key ∧
      s.column D key (s.dist.buddy key) = some value ∧
      s.exec c (.get key) = (some value, { s with cluster :=
        (Cluster.handle c s.attached s.cluster
          (s.dist.requestTo (s.dist.primary key) (.insert key value))).2 })) := by
  have hpcl := handle_find (c := c) hs hkey.primary key s.cluster
  have hbcl := handle_find (c := c) hs hkey.buddy key s.cluster
  unfold exec
  rw [KVDistributor.run_get (hs.known hkey.primary) (hs.known hkey.buddy)]
  unfold KVDistributor.getProgram
  rw [Prog.run, hpcl]
  rcases KVDistributor.found (Cluster.handle c s.attached s.cluster
    (s.dist.requestTo (s.dist.primary key) (.find key))).1 with _ | value
  · dsimp only
    by_cases hne : s.dist.buddy key = s.dist.primary key
    · rw [if_pos hne]
      exact Or.inl ⟨_, rfl⟩
    · rw [if_neg hne, Prog.run, hbcl]
      rcases hfound : KVDistributor.found (Cluster.handle c s.attached s.cluster
        (s.dist.requestTo (s.dist.buddy key) (.find key))).1 with _ | value
      · exact Or.inl ⟨_, rfl⟩
      · exact Or.inr ⟨value, hne, column_of_found hs hkey.buddy hs.up hfound, rfl⟩
  · exact Or.inl ⟨_, rfl⟩

/-- A call changes the servers and nothing else, and they still serve. -/
theorem exec_frame (hs : s.Wired D V) {op : Op} (hkey : s.Placed op.key) :
    ∃ cluster : Cluster, (s.exec c op).2 = { s with cluster := cluster } ∧
      ∀ e, (cluster e).Up := by
  cases hw : op.storeOp with
  | some w =>
      rw [exec_of_write hs hw hkey]
      refine ⟨_, rfl, fun e => ?_⟩
      unfold KVDistributor.writeProgram
      rw [Prog.run]
      have hfirst := handle_up (c := c) hs hkey.primary hs.up w
      split
      · exact hfirst e
      · exact handle_up hs hkey.buddy hfirst w e
  | none =>
      obtain ⟨key, rfl⟩ := Op.eq_get_of_storeOp hw
      dsimp only [Op.key] at hkey
      obtain ⟨result, hx⟩ | ⟨value, -, -, hx⟩ := exec_get_any (c := c) hs hkey
      · rw [hx]
        exact ⟨s.cluster, rfl, hs.up⟩
      · rw [hx]
        exact ⟨_, rfl, handle_up hs hkey.primary hs.up _⟩

/-- So a wired session stays wired. -/
theorem Wired.exec (hs : s.Wired D V) {op : Op} (hkey : s.Placed op.key) :
    ((s.exec c op).2).Wired D V := by
  obtain ⟨cluster, hx, hup⟩ := exec_frame (c := c) hs hkey
  rw [hx]
  exact ⟨hs.ring, hs.map, hs.attached, hup⟩

theorem Wired.dist_exec (hs : s.Wired D V) {op : Op} (hkey : s.Placed op.key) :
    (s.exec c op).2.dist = s.dist := by
  obtain ⟨cluster, hx, -⟩ := exec_frame (c := c) hs hkey
  rw [hx]

/-- What a `get` that is delivered returns, whatever the values are. -/
theorem result_get_any (hs : s.Wired D V) (hkey : s.Placed key) (hd : c.Delivered) :
    (s.exec c (.get key)).1 =
      some (((readAs (s.column D key (s.dist.primary key))).or
        (readAs (s.column D key (s.dist.buddy key)))).getD rpcFailed) := by
  have hp := @found_handle_any D V s c _ key hs hkey.primary _ hs.up
  have hb := @found_handle_any D V s c _ key hs hkey.buddy _ hs.up
  rw [if_pos (hd.answers _)] at hp hb
  unfold exec
  rw [KVDistributor.run_get (hs.known hkey.primary) (hs.known hkey.buddy)]
  unfold KVDistributor.getProgram
  rw [Prog.run, hp, handle_find (c := c) hs hkey.primary key s.cluster]
  rcases hprimary : readAs (s.column D key (s.dist.primary key)) with _ | value
  · dsimp only
    by_cases hne : s.dist.buddy key = s.dist.primary key
    · rw [if_pos hne, hne, hprimary]
      rfl
    · rw [if_neg hne, Prog.run, hb]
      rcases readAs (s.column D key (s.dist.buddy key)) with _ | value
      · rfl
      · rfl
  · rfl

/-- What a `get` does to the columns, whatever the values are. -/
theorem column_get_any (hs : s.Wired D V) (hkey : s.Placed key) :
    (∀ key', (s.exec c (.get key)).2.column D key' = s.column D key') ∨
    (∃ value, s.column D key (s.dist.buddy key) = some value ∧
      ∀ key', (s.exec c (.get key)).2.column D key' =
        if key' = key then
          put (takes c D s.dist s.cluster (.insert key value)) (.insert value)
            (s.dist.primary key) (s.column D key)
        else s.column D key') := by
  obtain ⟨result, hx⟩ | ⟨value, -, hb, hx⟩ := exec_get_any (c := c) hs hkey
  · rw [hx]
    exact Or.inl fun _ => rfl
  · rw [hx]
    refine Or.inr ⟨value, hb, fun key' => ?_⟩
    have hwrite : StoreOp.write (.insert key value) = some (.insert value) := by
      show some (Write.insert (cStr value)) = _
      rw [Server.nulFree_of_contents hb]
    refine (handle_write hs hkey.primary hs.up hwrite key').trans ?_
    rw [show (StoreOp.insert key value).key = key from rfl]
    by_cases hk : key' = key
    · rw [if_pos hk, if_pos hk, hk]
    · rw [if_neg hk, if_neg hk]

/-- Nor does a rebuild over another map of the deployment undo the wiring. -/
theorem Wired.rebuild (hs : s.Wired D V) {m : NodeMap} (hm : D.Locates m) :
    (s.rebuild m V).Wired D V := ⟨⟨s.dist.hashRing, rfl⟩, hm, hs.attached, hs.up⟩

end Session

/-! ### Sessions with proper values -/

namespace Op

/-- What a write does to the entries of its key. -/
def write : Op → Option (Write Bytes)
  | .insert _ value => some (.insert value)
  | .update _ newValue => some (.update newValue)
  | .deleteKey _ => some .delete
  | .get _ => none

/-- A call that writes nothing is a `get`. -/
theorem eq_get_of_write {op : Op} (h : op.write = none) : ∃ key, op = .get key := by
  cases op with
  | get key => exact ⟨key, rfl⟩
  | _ => simp [write] at h

theorem eq_insert {op : Op} {value : Bytes} (h : op.write = some (.insert value)) :
    ∃ key, op = .insert key value := by
  cases op with
  | insert key value' =>
      simp only [write, Option.some.injEq, Write.insert.injEq] at h
      exact ⟨key, by rw [h]⟩
  | _ => simp [write] at h

/-- A call brings only proper values. -/
def IsProper (op : Op) : Prop := ∀ w value, op.write = some w → w.value = some value → Proper value

/-- For proper values what is stored is what was sent. -/
theorem IsProper.storeOp {op : Op} (hop : op.IsProper) {w : Write Bytes} (hw : op.write = some w) :
    ∃ request, op.storeOp = some request ∧ request.write = some w := by
  cases op with
  | insert key value =>
      cases hw
      refine ⟨.insert key value, rfl, ?_⟩
      show some (Write.insert (cStr value)) = _
      rw [(hop _ value rfl rfl).nulFree]
  | update key value =>
      cases hw
      refine ⟨.update key value, rfl, ?_⟩
      show some (Write.update (cStr value)) = _
      rw [(hop _ value rfl rfl).nulFree]
  | deleteKey key =>
      cases hw
      exact ⟨.delete key, rfl, rfl⟩
  | get key => cases hw

end Op

namespace Session

variable {D : Deployment} {V : Int} {s : Session} {c : Conditions} {key : Key}

/-- A session in order whose stores hold proper values only. -/
structure InOrder (D : Deployment) (V : Int) (s : Session) : Prop extends s.Wired D V where
  proper : ∀ key i value, s.column D key i = some value → Proper value

/-- The nodes that take the request of a write. -/
noncomputable def reached (c : Conditions) (D : Deployment) (s : Session) (op : Op)
    (i : NodeId) : Bool :=
  match op.storeOp with
  | some request => takes c D s.dist s.cluster request i
  | none => false

/-- Every request for a node comes through, and there is memory for it. -/
def Serves (c : Conditions) (d : KVDistributor) (i : NodeId) : Prop :=
  ∀ op, c.answers (d.requestTo i op) = true ∧
    ∀ server : Server, server.Up → server.Admits (c.memory (d.requestTo i op) server) op

theorem serves_of_smooth (hc : c.Ample) (hd : c.Delivered) (d : KVDistributor) (i : NodeId) :
    Serves c d i := fun op => ⟨hd.answers _, fun server hup => hc (d.requestTo i op) server hup⟩

theorem executes_of_answers {r : Request} (h : c.answers r = true) : c.executes r = true := by
  unfold Conditions.answers at h
  unfold Conditions.executes
  cases hf : c.fate r with
  | answered => simp
  | unanswered => simp
  | lost =>
      rw [hf] at h
      simpa using h

variable {i : NodeId}

theorem Serves.takes (h : Serves c s.dist i) (hs : s.Wired D V) (op : StoreOp) :
    takes c D s.dist s.cluster op i = true := by
  unfold Session.takes
  rw [executes_of_answers (h op).1, Bool.true_and, decide_eq_true_eq]
  exact (h op).2 _ (hs.up _)

theorem Serves.reached (h : Serves c s.dist i) (hs : s.Wired D V) {op : Op} {w : Write Bytes}
    (hw : op.write = some w) : reached c D s op i = true := by
  unfold Session.reached
  cases op with
  | insert key value => exact h.takes hs _
  | update key value => exact h.takes hs _
  | deleteKey key => exact h.takes hs _
  | get key => cases hw

theorem Serves.readable (h : Serves c s.dist i) (key : Key) : readable c s key i = true :=
  (h (.find key)).1

/-- A write replicates on the column of its key. -/
theorem InOrder.column_write (hs : s.InOrder D V) {op : Op} (hop : op.IsProper)
    {w : Write Bytes} (hw : op.write = some w) (hkey : s.Placed op.key) (key : Key) :
    (s.exec c op).2.column D key =
      if key = op.key then
        replicate (reached c D s op) w (s.dist.primary op.key) (s.dist.buddy op.key)
          (s.column D key)
      else s.column D key := by
  obtain ⟨request, hrequest, hwrite⟩ := hop.storeOp hw
  rw [exec_write hs.toWired hrequest hwrite hkey key]
  have hreached : reached c D s op = takes c D s.dist s.cluster request := by
    funext i
    unfold reached
    rw [hrequest]
  rw [hreached]

/-- A `get` fetches from the column of its key. -/
theorem InOrder.column_get (hs : s.InOrder D V) (hkey : s.Placed key) (key' : Key) :
    (s.exec c (.get key)).2.column D key' =
      if key' = key then
        (fetch (readable c s key) (writable c D s key) (s.dist.primary key)
          (s.dist.buddy key) (s.column D key)).2
      else s.column D key' :=
  (exec_get hs.toWired hkey (hs.proper key)).2 key'

theorem InOrder.result_get (hs : s.InOrder D V) (hkey : s.Placed key) :
    (s.exec c (.get key)).1 =
      some ((fetch (readable c s key) (writable c D s key) (s.dist.primary key)
        (s.dist.buddy key) (s.column D key)).1.getD rpcFailed) :=
  (exec_get hs.toWired hkey (hs.proper key)).1

/-- A call leaves a session in order. -/
theorem InOrder.exec (hs : s.InOrder D V) {op : Op} (hop : op.IsProper)
    (hkey : s.Placed op.key) : ((s.exec c op).2).InOrder D V where
  toWired := hs.toWired.exec hkey
  proper := by
    intro key i value hv
    cases hw : op.write with
    | some w =>
        rw [hs.column_write hop hw hkey key] at hv
        split at hv
        · obtain h | h := @replicate_apply _ _ _ (reached c D s op) w (s.dist.primary op.key)
            (s.dist.buddy op.key) i (s.column D key)
          · rw [h] at hv
            exact hs.proper key i value hv
          · rw [h] at hv
            obtain hold | hnew := Write.apply_eq_some hv
            · exact hs.proper key i value hold
            · exact hop w value hw hnew
        · exact hs.proper key i value hv
    | none =>
        obtain ⟨k, rfl⟩ := Op.eq_get_of_write hw
        dsimp only [Op.key] at hkey
        rw [hs.column_get hkey key] at hv
        split at hv
        · obtain h | ⟨-, -, h⟩ := fetch_column hv
          · exact hs.proper k i value h
          · exact hs.proper k _ value h
        · exact hs.proper key i value hv

/-- A node that is not in the map is left alone. -/
theorem InOrder.column_of_not_mem (hs : s.InOrder D V) {op : Op} (hop : op.IsProper)
    (hkey : s.Placed op.key) {i : NodeId} (hi : i ∉ s.dist.nodeToIp) (key : Key) :
    (s.exec c op).2.column D key i = s.column D key i := by
  have hp : i ≠ s.dist.primary op.key := fun h => hi (h ▸ hkey.primary)
  have hb : i ≠ s.dist.buddy op.key := fun h => hi (h ▸ hkey.buddy)
  cases hw : op.write with
  | some w =>
      rw [hs.column_write hop hw hkey key]
      split
      · exact replicate_apply_of_ne hp hb
      · rfl
  | none =>
      obtain ⟨k, rfl⟩ := Op.eq_get_of_write hw
      dsimp only [Op.key] at hkey hp
      rw [hs.column_get hkey key]
      split
      · rename_i hk
        rw [fetch_apply_of_ne hp, hk]
      · rfl

theorem InOrder.dist_exec (hs : s.InOrder D V) {op : Op} (hkey : s.Placed op.key) :
    (s.exec c op).2.dist = s.dist := hs.toWired.dist_exec hkey

theorem InOrder.dist_get (hs : s.InOrder D V) (hkey : s.Placed key) :
    (s.exec c (.get key)).2.dist = s.dist := hs.dist_exec hkey

theorem InOrder.rebuild (hs : s.InOrder D V) {m : NodeMap} (hm : D.Locates m) :
    (s.rebuild m V).InOrder D V := ⟨hs.toWired.rebuild hm, hs.proper⟩

end Session

end DistKV
