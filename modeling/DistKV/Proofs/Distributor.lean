/-
The programs of the distributor, written out.

For nodes that the map holds, and whose ids are not negative, the lookups of
`targetOf` change nothing, and every operation is a program of at most three
requests: a write goes to the primary and to the buddy, a `get` reads the primary,
then the buddy, and inserts at the primary what it found at the buddy.
-/
import DistKV.Distributor

namespace DistKV

/-- What an operation asks its replicas to do, when it is a write. -/
def Op.storeOp : Op → Option StoreOp
  | .insert key value => some (.insert key value)
  | .update key newValue => some (.update key newValue)
  | .deleteKey key => some (.delete key)
  | .get _ => none

/-- A call that asks for no write is a `get`. -/
theorem Op.eq_get_of_storeOp {op : Op} (h : op.storeOp = none) : ∃ key, op = .get key := by
  cases op with
  | get key => exact ⟨key, rfl⟩
  | _ => simp [storeOp] at h

/-- The key an operation is about. -/
def Op.key : Op → Key
  | .insert key _ => key
  | .update key _ => key
  | .deleteKey key => key
  | .get key => key

namespace KVDistributor

variable {d : KVDistributor} {i p b : NodeId} {key : Key} {value : Bytes}

/-- Where the requests for a node of the map go. -/
def target (d : KVDistributor) (i : NodeId) : Target :=
  if d.isLocalNode i then .attached else .remote ((d.nodeToIp.lookup i).getD [])

/-- A request for a node of the map. -/
def requestTo (d : KVDistributor) (i : NodeId) (op : StoreOp) : Request :=
  { target := d.target i, op := op }

/-- A node that the map holds and that is a node. -/
structure Known (d : KVDistributor) (i : NodeId) : Prop where
  nonneg : 0 ≤ i
  mem : i ∈ d.nodeToIp

theorem run_getNodeToIP (hi : i ∈ d.nodeToIp) :
    (getNodeToIP i).run d = .done ((d.nodeToIp.lookup i).getD [], d) := by
  obtain ⟨endpoint, he⟩ := Option.isSome_iff_exists.mp (AList.lookup_isSome.mpr hi)
  unfold getNodeToIP
  simp [StateT.run_bind, he]

theorem run_targetOf (hi : i ∈ d.nodeToIp) : (targetOf i).run d = .done (d.target i, d) := by
  unfold targetOf target
  simp only [StateT.run_bind, run_getNodeToIP hi, Prog.done_bind]
  by_cases hlocal : d.isLocalNode i = true
  · simp [hlocal]
  · simp [hlocal, run_getNodeToIP hi]

theorem run_request (target : Target) (op : StoreOp) :
    (request target op).run d = .request { target := target, op := op } fun a => .done (a, d) :=
  rfl

theorem run_readFromNode (hi : d.Known i) : (readFromNode i key).run d =
    .request (d.requestTo i (.find key)) fun a => .done (found a, d) := by
  unfold readFromNode requestTo
  rw [if_neg (not_lt.mpr hi.nonneg)]
  simp [StateT.run_bind, run_targetOf hi.mem, run_request]

theorem run_writeToNode (hi : d.Known i) (op : RemoteOp) :
    (writeToNode i key value op).run d =
      .request (d.requestTo i (op.storeOp key value)) fun _ => .done ((), d) := by
  unfold writeToNode requestTo
  rw [if_neg (not_lt.mpr hi.nonneg)]
  simp [StateT.run_bind, run_targetOf hi.mem, run_request]

theorem run_deleteOnNode (hi : d.Known i) : (deleteOnNode i key).run d =
    .request (d.requestTo i (.delete key)) fun _ => .done ((), d) := by
  unfold deleteOnNode requestTo
  rw [if_neg (not_lt.mpr hi.nonneg)]
  simp [StateT.run_bind, run_targetOf hi.mem, run_request]

/-! ### The operations written out -/

/-- The requests of a write. -/
def writeProgram (d : KVDistributor) (op : StoreOp) (p b : NodeId) :
    Prog Request Reply (Option Bytes × KVDistributor) :=
  .request (d.requestTo p op) fun _ =>
    if b = p then .done (none, d)
    else .request (d.requestTo b op) fun _ => .done (none, d)

/-- The requests of a `get`. -/
def getProgram (d : KVDistributor) (key : Key) (p b : NodeId) :
    Prog Request Reply (Option Bytes × KVDistributor) :=
  .request (d.requestTo p (.find key)) fun a =>
    match found a with
    | some value => .done (some value, d)
    | none =>
        if b = p then .done (some rpcFailed, d)
        else
          .request (d.requestTo b (.find key)) fun a =>
            match found a with
            | some value =>
                .request (d.requestTo p (.insert key value)) fun _ => .done (some value, d)
            | none => .done (some rpcFailed, d)

/-- The two replicas of a key, in the distributor's ring. -/
def primary (d : KVDistributor) (key : Key) : NodeId := d.hashRing.getPrimaryNode key
def buddy (d : KVDistributor) (key : Key) : NodeId := d.hashRing.getBuddyNode key

theorem run_onReplicas {write : NodeId → Call Unit} {op : StoreOp}
    (hp : (write (d.primary key)).run d =
      .request (d.requestTo (d.primary key) op) fun _ => .done ((), d))
    (hb : (write (d.buddy key)).run d =
      .request (d.requestTo (d.buddy key) op) fun _ => .done ((), d)) :
    (do onReplicas key write
        pure none : Call (Option Bytes)).run d =
      d.writeProgram op (d.primary key) (d.buddy key) := by
  unfold primary buddy at *
  unfold onReplicas writeProgram
  by_cases hne : d.hashRing.getBuddyNode key = d.hashRing.getPrimaryNode key
  · simp [StateT.run_bind, hp, hne]
  · simp [StateT.run_bind, hp, hb, hne]

/-- **A write is its two requests.** -/
theorem run_write {op : Op} {w : StoreOp} (hw : op.storeOp = some w)
    (hp : d.Known (d.primary op.key)) (hb : d.Known (d.buddy op.key)) :
    op.perform.run d = d.writeProgram w (d.primary op.key) (d.buddy op.key) := by
  cases op with
  | insert key value =>
      cases hw
      exact run_onReplicas (run_writeToNode hp .insert) (run_writeToNode hb .insert)
  | update key value =>
      cases hw
      exact run_onReplicas (run_writeToNode hp .update) (run_writeToNode hb .update)
  | deleteKey key =>
      cases hw
      exact run_onReplicas (run_deleteOnNode hp) (run_deleteOnNode hb)
  | get key => cases hw

/-- **A `get` is two reads at most, and a write back.** -/
theorem run_get (hp : d.Known (d.primary key)) (hb : d.Known (d.buddy key)) :
    (Op.get key).perform.run d = d.getProgram key (d.primary key) (d.buddy key) := by
  have hread := @run_readFromNode d _ key hp
  have hreadb := @run_readFromNode d _ key hb
  have hwrite := fun v => @run_writeToNode d _ key v hp .insert
  unfold primary buddy at *
  unfold Op.perform get getProgram
  simp [StateT.run_bind, hread]
  funext a
  cases found a with
  | some value => simp
  | none =>
      by_cases hne : d.hashRing.getBuddyNode key = d.hashRing.getPrimaryNode key
      · simp [hne]
      · simp [hne, StateT.run_bind, hreadb]
        funext a'
        cases found a' with
        | some value => simp [hwrite, RemoteOp.storeOp]
        | none => simp

theorem primary_of_empty (h : d.hashRing.ring = []) (key : Key) : d.primary key = -1 := by
  unfold primary ConsistentHashRing.getPrimaryNode
  rw [h]
  rfl

theorem buddy_of_empty (h : d.hashRing.ring = []) (key : Key) : d.buddy key = -1 := by
  unfold buddy ConsistentHashRing.getBuddyNode
  rw [h]
  rfl

/-- Over an empty ring no operation makes a request. -/
theorem run_of_empty (h : d.hashRing.ring = []) (op : Op) : op.perform.run d =
    .done (match op with
      | .get _ => some rpcFailed
      | _ => none, d) := by
  have hp := primary_of_empty h
  have hb := buddy_of_empty h
  unfold primary at hp
  unfold buddy at hb
  cases op with
  | insert key value =>
      simp [Op.perform, insert, onReplicas, writeToNode, StateT.run_bind, hp, hb]
  | update key value =>
      simp [Op.perform, update, onReplicas, writeToNode, StateT.run_bind, hp, hb]
  | deleteKey key =>
      simp [Op.perform, deleteKey, onReplicas, deleteOnNode, StateT.run_bind, hp, hb]
  | get key =>
      simp [Op.perform, get, readFromNode, StateT.run_bind, hp, hb]

end KVDistributor

end DistKV
