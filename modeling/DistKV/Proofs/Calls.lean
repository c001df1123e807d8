/-
Every request goes to a registered replica.

The map of endpoints, the number of nodes and the ring say the same of the membership
(`Settled`), whatever rebuilds, refreshes and calls there have been.  So the lookups of a call
never meet an id that is not there, a call leaves the distributor as it is, and its requests
are those of the programs in `Proofs/Distributor.lean`.
-/
import DistKV.Calls
import DistKV.Proofs.LocalStore
import DistKV.Proofs.Routing

namespace DistKV.KVDistributor

open Machine

variable {d : KVDistributor} {i : NodeId} {key : Key}

/-! ### Calls change nothing -/

/-- A stretch of code that leaves the distributor as it is. -/
def Kept (d : KVDistributor) {τ : Type} (c : Call τ) : Prop := (c.run d).Ends fun t => t.2 = d

theorem Kept.bind {τ υ : Type} {c : Call τ} {f : τ → Call υ} (hc : d.Kept c)
    (hf : ∀ t, d.Kept (f t)) : d.Kept (c >>= f) := by
  refine Prog.Ends.bind hc fun t ht => ?_
  obtain ⟨a, d'⟩ := t
  cases ht
  exact hf a

theorem kept_pure {τ : Type} (t : τ) : d.Kept (pure t : Call τ) := rfl

theorem kept_request (target : Target) (op : StoreOp) : d.Kept (request target op) := fun _ => rfl

theorem kept_getThe {τ : Type} {f : KVDistributor → Call τ} (h : d.Kept (f d)) :
    d.Kept (getThe KVDistributor >>= f) := h

theorem kept_targetOf (hi : i ∈ d.nodeToIp) : d.Kept (targetOf i) := by
  unfold Kept
  rw [run_targetOf hi]
  rfl

/-- An id is looked up only if it is a node's. -/
def Reachable (d : KVDistributor) (i : NodeId) : Prop := 0 ≤ i → i ∈ d.nodeToIp

theorem kept_readFromNode (hi : d.Reachable i) : d.Kept (readFromNode i key) := by
  unfold readFromNode
  split
  · exact kept_pure _
  · rename_i hneg
    exact (kept_targetOf (hi (not_lt.mp hneg))).bind fun _ => (kept_request _ _).bind fun _ =>
      kept_pure _

theorem kept_writeToNode (hi : d.Reachable i) (value : Bytes) (op : RemoteOp) :
    d.Kept (writeToNode i key value op) := by
  unfold writeToNode
  split
  · exact kept_pure _
  · rename_i hneg
    exact (kept_targetOf (hi (not_lt.mp hneg))).bind fun _ => (kept_request _ _).bind fun _ =>
      kept_pure _

theorem kept_deleteOnNode (hi : d.Reachable i) : d.Kept (deleteOnNode i key) := by
  unfold deleteOnNode
  split
  · exact kept_pure _
  · rename_i hneg
    exact (kept_targetOf (hi (not_lt.mp hneg))).bind fun _ => (kept_request _ _).bind fun _ =>
      kept_pure _

theorem kept_onReplicas {write : NodeId → Call Unit} (hp : d.Kept (write (d.primary key)))
    (hb : d.Kept (write (d.buddy key))) : d.Kept (onReplicas key write) := by
  unfold onReplicas
  refine kept_getThe (hp.bind fun _ => ?_)
  split
  · exact kept_pure _
  · exact hb

theorem kept_get (hp : d.Reachable (d.primary key)) (hb : d.Reachable (d.buddy key)) :
    d.Kept (get key) := by
  unfold get
  refine kept_getThe ((kept_readFromNode hp).bind fun found => ?_)
  cases found with
  | some value => exact kept_pure _
  | none =>
      dsimp only
      split
      · exact kept_pure _
      · refine (kept_readFromNode hb).bind fun found => ?_
        cases found with
        | some value => exact (kept_writeToNode hp value .insert).bind fun _ => kept_pure _
        | none => exact kept_pure _

theorem kept_perform (op : Op) (hp : d.Reachable (d.primary op.key))
    (hb : d.Reachable (d.buddy op.key)) : d.Kept op.perform := by
  cases op with
  | insert key value =>
      exact (kept_onReplicas (kept_writeToNode hp value .insert)
        (kept_writeToNode hb value .insert)).bind fun _ => kept_pure _
  | update key value =>
      exact (kept_onReplicas (kept_writeToNode hp value .update)
        (kept_writeToNode hb value .update)).bind fun _ => kept_pure _
  | deleteKey key =>
      have hdelete : d.Kept (onReplicas key fun i => deleteOnNode i key) :=
        kept_onReplicas (kept_deleteOnNode hp) (kept_deleteOnNode hb)
      exact hdelete.bind fun _ => kept_pure _
  | get key => exact (kept_get hp hb).bind fun _ => kept_pure _

/-! ### One membership -/

/-- The three copies of the membership agree. -/
structure Settled (d : KVDistributor) : Prop where
  ring : d.RingOfMap
  count : d.countOfNode = d.nodeToIp.keys.length

theorem settled_ofConfig (iteration : Iteration) (endpoints : List Endpoint)
    (localIp : Endpoint) : (ofConfig iteration endpoints localIp).Settled where
  ring := ringOfMap_ofConfig iteration endpoints localIp
  count := rfl

theorem settled_rebuildRing (m : NodeMap) (V : Int) (d : KVDistributor) :
    (d.rebuildRing m V).Settled where
  ring := ringOfMap_rebuildRing m V d
  count := rfl

/-- The replicas of a key are nodes of the map, unless the ring is empty. -/
theorem RingOfMap.replicas_mem (h : d.RingOfMap) (hring : d.hashRing.ring ≠ []) (key : Key) :
    d.primary key ∈ d.nodeToIp ∧ d.buddy key ∈ d.nodeToIp := by
  obtain ⟨t, ht⟩ := List.exists_mem_of_ne_nil _ hring
  obtain ⟨hV, hmem⟩ := (onRing_iff h).mp ⟨t, ht, rfl⟩
  obtain ⟨r, hr⟩ := h
  unfold primary buddy
  rw [hr]
  exact ⟨ConsistentHashRing.primary_mem hV hmem key, ConsistentHashRing.buddy_mem hV hmem key⟩

theorem RingOfMap.reachable (h : d.RingOfMap) (key : Key) :
    d.Reachable (d.primary key) ∧ d.Reachable (d.buddy key) := by
  by_cases hring : d.hashRing.ring = []
  · have hp := primary_of_empty hring key
    have hb := buddy_of_empty hring key
    constructor
    · intro hnonneg
      rw [hp] at hnonneg
      exact absurd hnonneg (by decide)
    · intro hnonneg
      rw [hb] at hnonneg
      exact absurd hnonneg (by decide)
  · obtain ⟨hp, hb⟩ := h.replicas_mem hring key
    exact ⟨fun _ => hp, fun _ => hb⟩

/-- **A call leaves the distributor as it is.** -/
theorem RingOfMap.carryOut_snd (h : d.RingOfMap) (op : Op)
    (answer : List Request → Request → Reply) : (d.carryOut op answer).1.2 = d :=
  (kept_perform op (h.reachable op.key).1 (h.reachable op.key).2).run _ _

theorem Settled.step (h : d.Settled) (e : Event) : (d.step e).Settled := by
  cases e with
  | rebuildRing m V => exact settled_rebuildRing m V d
  | fetchMembership members =>
      show (d.fetchMembershipFromServer members).2.Settled
      obtain ⟨hsame, -⟩ | ⟨ms, -, -, htaken⟩ := KvmClient.fetchMembership_cases members d
      · rw [hsame]
        exact h
      · rw [htaken]
        exact settled_rebuildRing _ _ d
  | call op answer =>
      show (d.carryOut op answer).1.2.Settled
      rw [h.ring.carryOut_snd op answer]
      exact h

theorem Settled.run (h : d.Settled) (es : List Event) : (run KVDistributor.step d es).Settled :=
  run_keeps (fun _ e h => h.step e) h es

/-! ### Node ids -/

/-- The ids that come in are those of nodes. -/
def Assigned : Event → Prop
  | .rebuildRing nodeEndpoints _ => ∀ i ∈ nodeEndpoints, 0 ≤ i
  | .fetchMembership none => True
  | .fetchMembership (some members) => ∀ i ∈ liveMap members, 0 ≤ i
  | .call _ _ => True

theorem nonneg_ofConfig {iteration : Iteration} {endpoints : List Endpoint} {localIp : Endpoint}
    (hi : i ∈ (ofConfig iteration endpoints localIp).nodeToIp) : 0 ≤ i := by
  obtain ⟨endpoint, hlookup⟩ := Option.isSome_iff_exists.mp (AList.lookup_isSome.mpr hi)
  obtain ⟨k, hk, -⟩ := lookup_ofConfig hlookup
  rw [hk]
  exact Int.natCast_nonneg k

theorem nonneg_step (h : d.RingOfMap) (hids : ∀ i ∈ d.nodeToIp, 0 ≤ i) {e : Event}
    (he : Assigned e) : ∀ i ∈ (d.step e).nodeToIp, 0 ≤ i := by
  cases e with
  | rebuildRing m V => exact he
  | fetchMembership members =>
      show ∀ i ∈ (d.fetchMembershipFromServer members).2.nodeToIp, 0 ≤ i
      obtain ⟨hsame, -⟩ | ⟨ms, rfl, -, htaken⟩ := KvmClient.fetchMembership_cases members d
      · rw [hsame]
        exact hids
      · rw [htaken]
        exact he
  | call op answer =>
      show ∀ i ∈ (d.carryOut op answer).1.2.nodeToIp, 0 ≤ i
      rw [h.carryOut_snd op answer]
      exact hids

/-- What holds after every run in which the ids that come in are those of nodes. -/
theorem settled_along {iteration : Iteration} {endpoints : List Endpoint} {localIp : Endpoint}
    {es : List Event}
    (hids : Along step (fun _ => Assigned) (ofConfig iteration endpoints localIp) es) :
    (run step (ofConfig iteration endpoints localIp) es).Settled ∧
      ∀ i ∈ (run step (ofConfig iteration endpoints localIp) es).nodeToIp, 0 ≤ i :=
  hids.invariant (I := fun d => d.Settled ∧ ∀ i ∈ d.nodeToIp, 0 ≤ i)
    ⟨settled_ofConfig iteration endpoints localIp, fun _ => nonneg_ofConfig⟩
    fun _ e hI he => ⟨hI.1.step e, nonneg_step hI.1.ring hI.2 he⟩

/-! ### The requests of a call -/

theorem requests_of_empty (hring : d.hashRing.ring = []) (op : Op)
    (answer : List Request → Request → Reply) : (d.carryOut op answer).2 = [] := by
  unfold carryOut
  rw [run_of_empty hring]
  rfl

theorem requests_write {op : Op} {w : StoreOp} (hw : op.storeOp = some w)
    (hp : d.Known (d.primary op.key)) (hb : d.Known (d.buddy op.key))
    (answer : List Request → Request → Reply) : (d.carryOut op answer).2 =
      d.requestTo (d.primary op.key) w ::
        if d.buddy op.key = d.primary op.key then [] else [d.requestTo (d.buddy op.key) w] := by
  unfold carryOut
  rw [run_write hw hp hb]
  unfold writeProgram
  by_cases hne : d.buddy op.key = d.primary op.key
  · rw [if_pos hne, if_pos hne]
    rfl
  · rw [if_neg hne, if_neg hne]
    rfl

/-- A write back, if there is one. -/
def WritesBack (d : KVDistributor) (key : Key) (inserts : List Request) : Prop :=
  inserts = [] ∨ ∃ value, inserts = [d.requestTo (d.primary key) (.insert key value)]

theorem requests_get (hp : d.Known (d.primary key)) (hb : d.Known (d.buddy key))
    (answer : List Request → Request → Reply) :
    ∃ reads inserts, (d.carryOut (.get key) answer).2 = reads ++ inserts ∧
      reads <+: [d.requestTo (d.primary key) (.find key), d.requestTo (d.buddy key) (.find key)] ∧
      d.WritesBack key inserts := by
  unfold carryOut
  rw [run_get hp hb]
  unfold getProgram
  unfold Prog.run
  dsimp only [Prog.record]
  cases found (answer [] (d.requestTo (d.primary key) (.find key))) with
  | some value =>
      exact ⟨[d.requestTo (d.primary key) (.find key)], [], rfl, ⟨[_], rfl⟩, Or.inl rfl⟩
  | none =>
      dsimp only
      by_cases hne : d.buddy key = d.primary key
      · rw [if_pos hne]
        exact ⟨[d.requestTo (d.primary key) (.find key)], [], rfl, ⟨[_], rfl⟩, Or.inl rfl⟩
      · rw [if_neg hne]
        unfold Prog.run
        dsimp only [Prog.record]
        cases found (answer _ (d.requestTo (d.buddy key) (.find key))) with
        | some value =>
            exact ⟨_, [d.requestTo (d.primary key) (.insert key value)], rfl, List.prefix_refl _,
              Or.inr ⟨value, rfl⟩⟩
        | none => exact ⟨_, [], rfl, List.prefix_refl _, Or.inl rfl⟩

/-- A request to a server is to the endpoint that the map has for a replica of the key. -/
theorem lookup_of_requestTo {i : NodeId} {op : StoreOp} {endpoint : Endpoint} (hi : i ∈ d.nodeToIp)
    (h : (d.requestTo i op).target = .remote endpoint) :
    d.nodeToIp.lookup i = some endpoint ∧ d.isLocalNode i = false := by
  unfold requestTo target at h
  dsimp only at h
  by_cases hlocal : d.isLocalNode i = true
  · rw [if_pos hlocal] at h
    cases h
  · rw [if_neg hlocal] at h
    obtain ⟨endpoint', hlookup⟩ := Option.isSome_iff_exists.mp (AList.lookup_isSome.mpr hi)
    rw [hlookup, Option.getD_some] at h
    cases h
    exact ⟨hlookup, Bool.eq_false_iff.mpr hlocal⟩

/-- Every request of a call is to the primary or to the buddy. -/
theorem requests_to_replicas (hp : ∀ key, d.Known (d.primary key))
    (hb : ∀ key, d.Known (d.buddy key)) {op : Op} {answer : List Request → Request → Reply}
    {r : Request} (hr : r ∈ (d.carryOut op answer).2) :
    ∃ w, r = d.requestTo (d.primary op.key) w ∨ r = d.requestTo (d.buddy op.key) w := by
  cases hw : op.storeOp with
  | some w =>
      rw [requests_write hw (hp op.key) (hb op.key)] at hr
      rcases List.mem_cons.mp hr with rfl | hr
      · exact ⟨w, Or.inl rfl⟩
      · split at hr
        · cases hr
        · exact ⟨w, Or.inr (List.mem_singleton.mp hr)⟩
  | none =>
      obtain ⟨key, rfl⟩ := Op.eq_get_of_storeOp hw
      obtain ⟨reads, inserts, heq, hreads, hinserts⟩ := requests_get (hp key) (hb key) answer
      rw [heq] at hr
      rcases List.mem_append.mp hr with hread | hinsert
      · rcases List.mem_pair.mp (hreads.subset hread) with rfl | rfl
        · exact ⟨_, Or.inl rfl⟩
        · exact ⟨_, Or.inr rfl⟩
      · rcases hinserts with rfl | ⟨value, rfl⟩
        · cases hinsert
        · exact ⟨_, Or.inl (List.mem_singleton.mp hinsert)⟩

/-- **Every request goes to a registered replica, once.**  After any run of rebuilds,
refreshes and calls the number of nodes is that of the map, the ring is over the nodes of the
map, and a call changes nothing.  A write contacts the primary, and the buddy if it is another
node; a `get` reads at most these two and inserts at most once, at the primary; with an empty
ring nobody is contacted.  A server is contacted at the endpoint the map has for it. -/
theorem requests_registered (iteration : Iteration) (endpoints : List Endpoint)
    (localIp : Endpoint) (es : List Event)
    (hids : Along step (fun _ => Assigned) (ofConfig iteration endpoints localIp) es)
    (d : KVDistributor) (hd : d = run step (ofConfig iteration endpoints localIp) es) :
    d.countOfNode = d.nodeToIp.keys.length ∧
    (∀ t ∈ d.hashRing.ring, t.nodeId ∈ d.nodeToIp) ∧
    ∀ (op : Op) (answer : List Request → Request → Reply),
      (d.carryOut op answer).1.2 = d ∧
      (d.hashRing.ring = [] → (d.carryOut op answer).2 = []) ∧
      (d.hashRing.ring ≠ [] →
        (∀ w, op.storeOp = some w → (d.carryOut op answer).2 =
          d.requestTo (d.primary op.key) w ::
            if d.buddy op.key = d.primary op.key then []
            else [d.requestTo (d.buddy op.key) w]) ∧
        ∀ key, op = .get key → ∃ reads inserts, (d.carryOut op answer).2 = reads ++ inserts ∧
          reads <+: [d.requestTo (d.primary key) (.find key),
            d.requestTo (d.buddy key) (.find key)] ∧
          d.WritesBack key inserts) ∧
      ∀ r ∈ (d.carryOut op answer).2, ∀ endpoint, r.target = .remote endpoint →
        ∃ i, (i = d.primary op.key ∨ i = d.buddy op.key) ∧ d.isLocalNode i = false ∧
          d.nodeToIp.lookup i = some endpoint := by
  obtain ⟨hsettled, hnonneg⟩ := settled_along hids
  rw [← hd] at hsettled hnonneg
  have hknown : d.hashRing.ring ≠ [] →
      (∀ key, d.Known (d.primary key)) ∧ ∀ key, d.Known (d.buddy key) := by
    intro hring
    constructor
    · intro key
      have hmem := (hsettled.ring.replicas_mem hring key).1
      exact ⟨hnonneg _ hmem, hmem⟩
    · intro key
      have hmem := (hsettled.ring.replicas_mem hring key).2
      exact ⟨hnonneg _ hmem, hmem⟩
  refine ⟨hsettled.count, fun t ht => ((onRing_iff hsettled.ring).mp ⟨t, ht, rfl⟩).2,
    fun op answer => ⟨hsettled.ring.carryOut_snd op answer,
      fun hring => requests_of_empty hring op answer, fun hring => ?_, ?_⟩⟩
  · obtain ⟨hp, hb⟩ := hknown hring
    refine ⟨fun w hw => requests_write hw (hp op.key) (hb op.key) answer, fun key hkey => ?_⟩
    rw [hkey]
    exact requests_get (hp key) (hb key) answer
  · intro r hr endpoint hremote
    by_cases hring : d.hashRing.ring = []
    · rw [requests_of_empty hring] at hr
      cases hr
    · obtain ⟨hp, hb⟩ := hknown hring
      obtain ⟨w, rfl | rfl⟩ := requests_to_replicas hp hb hr
      · obtain ⟨hlookup, hother⟩ := lookup_of_requestTo (hp op.key).mem hremote
        exact ⟨_, Or.inl rfl, hother, hlookup⟩
      · obtain ⟨hlookup, hother⟩ := lookup_of_requestTo (hb op.key).mem hremote
        exact ⟨_, Or.inr rfl, hother, hlookup⟩

theorem oneZero_assigned : ∀ i ∈ ConsistentHashRing.oneZero, 0 ≤ i := by
  have hkeys : ∀ i ∈ ConsistentHashRing.oneZero.keys, 0 ≤ i := by decide
  exact fun i hi => hkeys i (AList.mem_keys.mp hi)

/-- A client of neither of two servers, once it has taken over other endpoints for them, with
three tokens for each, and written a key. -/
def settledClient : KVDistributor :=
  run step (ofConfig .plain [str "h:5000", str "h:5001"] (str "l:1"))
    [.rebuildRing ConsistentHashRing.oneZero 3, .call (.insert 5 [7]) fun _ _ => .ack]

/-- It updates the key at both servers. -/
theorem requests_registered_two : (settledClient.carryOut (.update 5 [8]) fun _ _ => .ack).2 =
    [{ target := .remote (str "d:1"), op := .update 5 [8] },
      { target := .remote (str "c:1"), op := .update 5 [8] }] := by
  have hring : settledClient.hashRing.ring ≠ [] := by decide +kernel
  obtain ⟨-, -, hcalls⟩ := requests_registered .plain [str "h:5000", str "h:5001"] (str "l:1")
    [.rebuildRing ConsistentHashRing.oneZero 3, .call (.insert 5 [7]) fun _ _ => .ack]
    ⟨oneZero_assigned, trivial, trivial⟩ settledClient rfl
  obtain ⟨-, -, hrequests, -⟩ := hcalls (.update 5 [8]) fun _ _ => .ack
  rw [(hrequests hring).1 _ rfl]
  decide +kernel

end DistKV.KVDistributor
