/-
When the store that a client takes for its own is that of its node.

Three things have to agree: the tag of the segment that the client is attached to, which it
takes from the first endpoint of its configuration, the id of its own node, which it takes
from its local address, and the endpoint that the map has for this id, which every refresh
replaces.  The first two never change.  So the store is right as long as the configuration,
and then each map that is taken over, give the own node an endpoint with the tag's port.
-/
import DistKV.Refresh
import DistKV.Lib.Run
import DistKV.Proofs.Decimal
import DistKV.Proofs.Distributor
import DistKV.Proofs.Gossip
import DistKV.Proofs.Ring
import DistKV.Proofs.Start

namespace DistKV

open Machine

/-! ### The tag of an endpoint -/

theorem nodeTag_append {x ds : Bytes} (hds : 58 ∉ ds) : nodeTag (x ++ 58 :: ds) = ds := by
  have hmem : (58 : UInt8) ∈ x ++ 58 :: ds := by simp
  have hport : ∀ b ∈ ds.reverse, decide (b ≠ 58) = true := by
    intro b hb
    refine decide_eq_true fun heq => hds ?_
    rw [← heq]
    exact List.mem_reverse.mp hb
  unfold nodeTag
  rw [if_pos hmem, List.reverse_append, List.reverse_cons, List.append_assoc,
    List.takeWhile_append_of_pos hport, List.singleton_append, List.takeWhile_cons_of_neg (by simp),
    List.append_nil, List.reverse_reverse]

/-- The text of a number has neither a colon nor a slash in it. -/
theorem not_mem_toStdString {n : Int} {b : UInt8} (hb : isDigit b = false) (hminus : b ≠ 45) :
    b ∉ toStdString n := by
  have hdigits : b ∉ digits n.natAbs := by
    intro hmem
    rw [isDigit_of_mem_digits hmem] at hb
    cases hb
  unfold toStdString
  dsimp only
  split
  · intro hmem
    rcases List.mem_append.mp hmem with hsign | hdigit
    · exact hminus (List.mem_singleton.mp hsign)
    · exact hdigits hdigit
  · exact hdigits

theorem afterScheme_eq_none {s : Endpoint} (hs : 47 ∉ s) : afterScheme s = none := by
  induction s with
  | nil => rfl
  | cons c rest ih =>
      unfold afterScheme
      rw [if_neg]
      · exact ih fun hmem => hs (List.mem_cons_of_mem c hmem)
      · intro hprefix
        have hsub := (List.isPrefixOf_iff_prefix.mp hprefix).subset
        exact hs (hsub (show (47 : UInt8) ∈ str "://" by decide))

/-- What is left of an address behind its scheme ends like the address. -/
theorem afterScheme_append {ds : Bytes} (hds : 47 ∉ ds) (x : Bytes) :
    afterScheme (x ++ 58 :: ds) = none ∨
      ∃ y, afterScheme (x ++ 58 :: ds) = some (y ++ 58 :: ds) := by
  have hds' : 47 ∉ (58 :: ds : Bytes) := by
    intro hmem
    rcases List.mem_cons.mp hmem with heq | hmem
    · revert heq
      decide
    · exact hds hmem
  induction x with
  | nil => exact Or.inl (afterScheme_eq_none hds')
  | cons c x ih =>
      rw [List.cons_append]
      unfold afterScheme
      split
      · rename_i hprefix
        -- the two slashes are before the colon
        rcases x with _ | ⟨a, _ | ⟨b, x⟩⟩
        · simp [str, List.isPrefixOf] at hprefix
        · simp [str, List.isPrefixOf] at hprefix
        · exact Or.inr ⟨x, rfl⟩
      · exact ih

/-- The tag of the endpoint that a server is known by is the tag of its own segment. -/
theorem nodeTag_serverAddress (protocol localIp : Bytes) (port : Int) :
    nodeTag (stripScheme (serverAddress protocol localIp port)) = serverTag port := by
  have hcolon : 58 ∉ toStdString port := not_mem_toStdString (by decide) (by decide)
  have hslash : 47 ∉ toStdString port := not_mem_toStdString (by decide) (by decide)
  have haddress : serverAddress protocol localIp port =
      (protocol ++ str "://" ++ localIp) ++ 58 :: toStdString port :=
    List.append_assoc _ (str ":") _
  unfold stripScheme serverTag
  rw [haddress]
  rcases afterScheme_append hslash (protocol ++ str "://" ++ localIp) with hnone | ⟨y, hy⟩
  · rw [hnone]
    exact nodeTag_append hcolon
  · rw [hy]
    exact nodeTag_append hcolon

/-! ### Maps -/

/-- What a list of members says last about the endpoint of a node that is alive. -/
theorem lookup_liveMap (members : List MemberRecord) (i : NodeId) :
    (liveMap members).lookup i =
      (GossipMembership.lastAbout i (members.filter fun r => r.status = .alive)).map fun r =>
        stripScheme r.endpoint := by
  unfold liveMap GossipMembership.lastAbout
  induction members using List.reverseRecOn with
  | nil => rfl
  | append_singleton members r ih =>
      rw [List.foldl_append, List.filter_append, List.filter_append, List.foldl_cons,
        List.foldl_nil]
      by_cases halive : r.status = .alive
      · rw [if_neg (not_not.mpr halive)]
        by_cases hid : r.nodeId = i
        · rw [hid, AList.lookup_insert]
          simp [halive, hid]
        · rw [AList.lookup_insert_ne fun h => hid h.symm, ih]
          simp [halive, hid]
      · rw [if_pos halive, ih]
        simp [halive]

namespace KVDistributor

variable {d : KVDistributor} {i : NodeId}

/-- A node of the current ring. -/
def OnRing (d : KVDistributor) (i : NodeId) : Prop := ∃ t ∈ d.hashRing.ring, t.nodeId = i

/-- The ring is over the map that endpoints are looked up in. -/
def RingOfMap (d : KVDistributor) : Prop :=
  ∃ r : ConsistentHashRing, d.hashRing = r.rebuild d.nodeToIp d.hashRing.virtualNodesPerNode

theorem onRing_iff (h : d.RingOfMap) :
    d.OnRing i ↔ 1 ≤ d.hashRing.virtualNodesPerNode ∧ i ∈ d.nodeToIp := by
  rcases h with ⟨r, hr⟩
  unfold OnRing
  by_cases hV : 1 ≤ d.hashRing.virtualNodesPerNode
  · rw [and_iff_right hV]
    constructor
    · intro hring
      rcases hring with ⟨t, ht, rfl⟩
      rw [hr, ConsistentHashRing.mem_rebuild hV] at ht
      exact ht.1
    · intro hi
      rcases ConsistentHashRing.exists_mem_nodeTokens hV i with ⟨t, ht, rfl⟩
      refine ⟨t, ?_, rfl⟩
      rw [hr, ConsistentHashRing.mem_rebuild hV]
      exact ⟨hi, ht⟩
  · refine iff_of_false ?_ fun h => hV h.1
    intro hring
    rcases hring with ⟨t, ht, -⟩
    rw [hr] at ht
    unfold ConsistentHashRing.rebuild at ht
    dsimp only at ht
    rw [if_pos (by omega)] at ht
    cases ht

/-- Whoever is at the local address, the local node is. -/
theorem lookup_getLocalNodeId_of_lookup {iteration : Iteration} {m : NodeMap} {localIp : Endpoint}
    (h : m.lookup i = some localIp) :
    m.lookup (getLocalNodeId iteration m localIp) = some localIp := by
  have hmem : (⟨i, localIp⟩ : Sigma fun _ : NodeId => Endpoint) ∈ iteration.entries m :=
    (iteration.perm m).mem_iff.mpr ((List.mem_dlookup_iff m.nodupKeys).mp h)
  unfold getLocalNodeId
  rcases hfind : (iteration.entries m).find? fun pair => pair.2 = localIp with _ | pair
  · have hnot := List.find?_eq_none.mp hfind _ hmem
    exact absurd (decide_eq_true rfl) hnot
  · have hlocal := List.find?_some hfind
    rw [decide_eq_true_iff] at hlocal
    rw [hfind, ← hlocal]
    exact List.mem_dlookup m.nodupKeys
      ((iteration.perm m).mem_iff.mp (List.mem_of_find?_eq_some hfind))

theorem lookup_ofConfig_natCast (iteration : Iteration) (endpoints : List Endpoint)
    (localIp : Endpoint) (k : Nat) :
    (ofConfig iteration endpoints localIp).nodeToIp.lookup (k : NodeId) = endpoints[k]? := by
  have hzip := dlookup_zipIdx endpoints 0 k
  rw [Nat.zero_add] at hzip
  exact (AList.lookup_to_alist _).trans hzip

theorem ringOfMap_rebuildRing (m : NodeMap) (V : Int) (d : KVDistributor) :
    (d.rebuildRing m V).RingOfMap := ⟨d.hashRing, rfl⟩

theorem ringOfMap_ofConfig (iteration : Iteration) (endpoints : List Endpoint)
    (localIp : Endpoint) : (ofConfig iteration endpoints localIp).RingOfMap := ⟨{}, rfl⟩

end KVDistributor

/-! ### Configurations -/

theorem getElem?_of_mapM {α β : Type} {f : α → Option β} {l : List α} {l' : List β}
    (h : l.mapM f = some l') (k : Nat) : l'[k]? = l[k]?.bind f := by
  induction l generalizing l' k with
  | nil =>
      cases h
      rfl
  | cons a l ih =>
      rw [List.mapM_cons] at h
      rcases hfa : f a with _ | b
      · rw [hfa] at h
        cases h
      · rcases hl : l.mapM f with _ | bs
        · rw [hfa, hl] at h
          cases h
        · rw [hfa, hl] at h
          cases h
          cases k with
          | zero => exact hfa.symm
          | succ k => exact ih hl k

namespace Config

/-- The own node, if there is one, has the port of the first endpoint. -/
def Agrees (config : Config) : Prop :=
  ∀ firstEp, config.getEndpoint 0 = some firstEp →
    (∃ i : Nat, (i : Int) < config.countOfNode ∧ config.getEndpoint i = some config.localIp) →
    nodeTag config.localIp = nodeTag firstEp

theorem getElem?_endpoints {config : Config} {endpoints : List Endpoint}
    (h : config.endpoints = some endpoints) (k : Nat) (endpoint : Endpoint) :
    endpoints[k]? = some endpoint ↔
      (k : Int) < config.countOfNode ∧ config.getEndpoint k = some endpoint := by
  rw [getElem?_of_mapM h]
  by_cases hk : k < config.countOfNode.toNat
  · rw [List.getElem?_range hk, Option.bind_some]
    exact (and_iff_right (by omega)).symm
  · rw [List.getElem?_eq_none (by rw [List.length_range]; omega), Option.bind_none]
    refine iff_of_false (by simp) fun h => hk ?_
    omega

end Config

/-! ### The client -/

namespace KvmClient

variable {c : KvmClient}

/-- Requests for every node of the ring go to the endpoint that the map has for it, and the
segment that is used instead of the network has that endpoint's tag. -/
def Right (c : KvmClient) : Prop :=
  ∀ i, c.dist.OnRing i → ∃ endpoint, c.dist.nodeToIp.lookup i = some endpoint ∧
    (KVDistributor.targetOf i).run c.dist =
      .done (if c.dist.isLocalNode i then .attached else .remote endpoint, c.dist) ∧
    (c.dist.isLocalNode i = true → DistKV.nodeTag endpoint = c.nodeTag)

theorem right_iff (h : c.dist.RingOfMap) : c.Right ↔
    (1 ≤ c.dist.hashRing.virtualNodesPerNode → ∀ endpoint,
      c.dist.nodeToIp.lookup c.dist.localNodeId = some endpoint →
        DistKV.nodeTag endpoint = c.nodeTag) := by
  constructor
  · intro hright hV endpoint hlookup
    have hmem : c.dist.localNodeId ∈ c.dist.nodeToIp :=
      AList.lookup_isSome.mp (by rw [hlookup]; rfl)
    rcases hright _ ((KVDistributor.onRing_iff h).mpr ⟨hV, hmem⟩) with ⟨e, he, -, htag⟩
    rw [hlookup] at he
    cases he
    exact htag (decide_eq_true rfl)
  · intro hagree i hi
    obtain ⟨hV, hmem⟩ := (KVDistributor.onRing_iff h).mp hi
    obtain ⟨endpoint, hlookup⟩ := Option.isSome_iff_exists.mp (AList.lookup_isSome.mpr hmem)
    refine ⟨endpoint, hlookup, ?_, fun hlocal => ?_⟩
    · rw [KVDistributor.run_targetOf hmem]
      unfold KVDistributor.target
      rw [hlookup]
      rfl
    · have hid : i = c.dist.localNodeId := of_decide_eq_true hlocal
      exact hagree hV endpoint (hid ▸ hlookup)

/-- A map that is taken over gives the own node an endpoint with the tag's port. -/
def Agrees (c : KvmClient) : Update → Prop
  | .rebuildRing nodeEndpoints virtualNodesPerNode =>
      1 ≤ virtualNodesPerNode → ∀ endpoint,
        nodeEndpoints.lookup c.dist.localNodeId = some endpoint →
          DistKV.nodeTag endpoint = c.nodeTag
  | .fetchMembership none => True
  | .fetchMembership (some members) =>
      ¬ (liveMap members).entries.Perm c.dist.nodeToIp.entries →
        ∀ r, GossipMembership.lastAbout c.dist.localNodeId
          (members.filter fun r => r.status = .alive) = some r →
          DistKV.nodeTag (stripScheme r.endpoint) = c.nodeTag

/-- A refresh takes the map over, or changes nothing. -/
theorem fetchMembership_cases (members : Option (List MemberRecord)) (d : KVDistributor) :
    (d.fetchMembershipFromServer members).2 = d ∧
      (∀ ms, members = some ms →
        (liveMap ms).keys = [] ∨ (liveMap ms).entries.Perm d.nodeToIp.entries) ∨
    ∃ ms, members = some ms ∧ ¬ (liveMap ms).entries.Perm d.nodeToIp.entries ∧
      (d.fetchMembershipFromServer members).2 =
        d.rebuildRing (liveMap ms) KVDistributor.defaultVirtualNodes := by
  rcases members with _ | ms
  · exact Or.inl ⟨rfl, fun ms h => by cases h⟩
  · unfold KVDistributor.fetchMembershipFromServer
    dsimp only
    by_cases hempty : (liveMap ms).keys = []
    · rw [if_pos hempty]
      exact Or.inl ⟨rfl, fun ms' h => by cases h; exact Or.inl hempty⟩
    · rw [if_neg hempty]
      by_cases hsame : (liveMap ms).entries.Perm d.nodeToIp.entries
      · rw [if_pos hsame]
        exact Or.inl ⟨rfl, fun ms' h => by cases h; exact Or.inr hsame⟩
      · rw [if_neg hsame]
        exact Or.inr ⟨ms, rfl, hsame, rfl⟩

theorem ringOfMap_step (h : c.dist.RingOfMap) (u : Update) : (c.step u).dist.RingOfMap := by
  rcases u with ⟨m, V⟩ | ⟨members⟩
  · exact KVDistributor.ringOfMap_rebuildRing m V c.dist
  · obtain ⟨hsame, -⟩ | ⟨ms, -, -, htaken⟩ := fetchMembership_cases members c.dist
    · show ((c.dist.fetchMembershipFromServer members).2).RingOfMap
      rw [hsame]
      exact h
    · show ((c.dist.fetchMembershipFromServer members).2).RingOfMap
      rw [htaken]
      exact KVDistributor.ringOfMap_rebuildRing _ _ _

theorem ringOfMap_run (h : c.dist.RingOfMap) (us : List Update) :
    (run step c us).dist.RingOfMap :=
  run_keeps (P := fun c : KvmClient => c.dist.RingOfMap) (fun _ u h => ringOfMap_step h u) h us

/-- One update. -/
theorem right_step_iff (h : c.dist.RingOfMap) (hright : c.Right) (u : Update) :
    (c.step u).Right ↔ c.Agrees u := by
  rw [right_iff (ringOfMap_step h u)]
  rcases u with ⟨m, V⟩ | ⟨members⟩
  · exact Iff.rfl
  · obtain ⟨hsame, hkept⟩ | ⟨ms, rfl, htaken, hrebuilt⟩ := fetchMembership_cases members c.dist
    · have hstep : c.step (.fetchMembership members) = c := by
        show { c with dist := (c.dist.fetchMembershipFromServer members).2 } = c
        rw [hsame]
      rw [hstep]
      refine iff_of_true ((right_iff h).mp hright) ?_
      rcases members with _ | ms
      · trivial
      · intro htaken r hlast
        rcases hkept ms rfl with hempty | hperm
        · have hlookup := lookup_liveMap ms c.dist.localNodeId
          rw [hlast, Option.map_some, AList.lookup_eq_none.mpr] at hlookup
          · cases hlookup
          · rw [AList.mem_keys, hempty]
            exact List.not_mem_nil
        · exact absurd hperm htaken
    · have hstep : c.step (.fetchMembership (some ms)) =
          { c with dist := c.dist.rebuildRing (liveMap ms) KVDistributor.defaultVirtualNodes } := by
        show { c with dist := (c.dist.fetchMembershipFromServer (some ms)).2 } = _
        rw [hrebuilt]
      rw [hstep]
      show ((1 : Int) ≤ 2 → ∀ endpoint, (liveMap ms).lookup c.dist.localNodeId = some endpoint →
        DistKV.nodeTag endpoint = c.nodeTag) ↔ (¬ _ → _)
      rw [forall_prop_of_true (by omega), forall_prop_of_true htaken, lookup_liveMap]
      constructor
      · intro hall r hlast
        exact hall _ (by rw [hlast, Option.map_some])
      · intro hall endpoint hlookup
        rcases Option.map_eq_some_iff.mp hlookup with ⟨r, hlast, rfl⟩
        exact hall r hlast

/-- The start. -/
theorem launched {iteration : KVDistributor.Iteration} {config : Config}
    (h : launch iteration config = some c) :
    ∃ firstEp endpoints, config.getEndpoint 0 = some firstEp ∧
      config.endpoints = some endpoints ∧ c.nodeTag = DistKV.nodeTag firstEp ∧
      c.dist = KVDistributor.ofConfig iteration endpoints config.localIp := by
  unfold launch at h
  rcases hfirst : config.getEndpoint 0 with _ | firstEp
  · rw [hfirst] at h
    cases h
  · rcases hendpoints : config.endpoints with _ | endpoints
    · rw [hfirst, hendpoints] at h
      cases h
    · rw [hfirst, hendpoints] at h
      cases h
      exact ⟨firstEp, endpoints, rfl, rfl, rfl, rfl⟩

theorem right_launch_iff {iteration : KVDistributor.Iteration} {config : Config}
    (h : launch iteration config = some c) : c.Right ↔ config.Agrees := by
  obtain ⟨firstEp, endpoints, hfirst, hendpoints, htag, hdist⟩ := launched h
  have hring : c.dist.RingOfMap := by
    rw [hdist]
    exact KVDistributor.ringOfMap_ofConfig iteration endpoints config.localIp
  rw [right_iff hring, htag, hdist]
  constructor
  · intro hall firstEp' hfirst' hown
    rw [hfirst] at hfirst'
    cases hfirst'
    rcases hown with ⟨k, hk, hget⟩
    have hmem : endpoints[k]? = some config.localIp :=
      (Config.getElem?_endpoints hendpoints k _).mpr ⟨hk, hget⟩
    exact hall (show (1 : Int) ≤ 2 by omega) _
      (KVDistributor.lookup_getLocalNodeId_of_lookup
        ((KVDistributor.lookup_ofConfig_natCast iteration endpoints config.localIp k).trans hmem))
  · intro hagree _ endpoint hlookup
    obtain ⟨k, hk, hget⟩ := KVDistributor.lookup_ofConfig hlookup
    have hnonneg : 0 ≤ (KVDistributor.ofConfig iteration endpoints config.localIp).localNodeId := by
      rw [hk]
      exact Int.natCast_nonneg k
    have hsame : endpoint = config.localIp :=
      Option.some.inj (hlookup.symm.trans (KVDistributor.lookup_getLocalNodeId hnonneg))
    rw [hsame] at hget ⊢
    exact hagree firstEp hfirst ⟨k, (Config.getElem?_endpoints hendpoints k _).mp hget⟩

/-- **When the store that a client takes for its own is that of its node.**  If several nodes are
at the local address, whichever the client comes upon first. -/
theorem local_store_right_iff (iteration : KVDistributor.Iteration) (config : Config)
    (c : KvmClient) (h : launch iteration config = some c) (us : List Update) :
    (∀ pre, pre <+: us → (run step c pre).Right) ↔ config.Agrees ∧ Along step Agrees c us := by
  have hring : c.dist.RingOfMap := by
    obtain ⟨-, endpoints, -, -, -, hdist⟩ := launched h
    rw [hdist]
    exact KVDistributor.ringOfMap_ofConfig iteration endpoints config.localIp
  rw [← right_launch_iff h]
  constructor
  · intro hright
    refine ⟨hright [] List.nil_prefix, along_iff.mpr fun pre u hpre => ?_⟩
    have hlast := hright (pre ++ [u]) hpre
    rw [run_snoc] at hlast
    exact (right_step_iff (ringOfMap_run hring pre)
      (hright pre ((List.prefix_append pre [u]).trans hpre)) u).mp hlast
  · intro hagree pre hpre
    have hboth := (hagree.2.initial hpre).invariant (I := fun c => c.dist.RingOfMap ∧ c.Right)
      ⟨hring, hagree.1⟩ fun c u hI hu =>
        ⟨ringOfMap_step hI.1 u, (right_step_iff hI.1 hI.2 u).mpr hu⟩
    exact hboth.2

/-- A client on the host of servers 0 and 1 of a configuration. -/
def besideServers (localIp : Endpoint) : Config where
  countOfNode := 2
  ipAddresses := fun i =>
    if i = 0 then some (str "h:5000") else if i = 1 then some (str "h:5001") else none
  localIp := localIp

/-- The client that it makes. -/
def clientBeside (localIp : Endpoint) : KvmClient where
  nodeTag := str "5000"
  dist := KVDistributor.ofConfig .plain [str "h:5000", str "h:5001"] localIp

/-- Server 0 as it makes itself known. -/
def known0 : MemberRecord where
  nodeId := 0
  endpoint := serverAddress (str "ofi+tcp") (str "h") 5000
  status := .alive
  heartbeatCounter := 1
  generation := 1

theorem local_store_right_iff_beside :
    (∀ pre, pre <+: [Update.fetchMembership (some [known0])] →
      (run step (clientBeside (str "h:5000")) pre).Right) ↔
    (besideServers (str "h:5000")).Agrees ∧ Along step Agrees (clientBeside (str "h:5000"))
      [Update.fetchMembership (some [known0])] :=
  local_store_right_iff .plain (besideServers (str "h:5000")) (clientBeside (str "h:5000")) rfl
    [Update.fetchMembership (some [known0])]

/-- The client's own node is the second one, and it is attached to the segment of the first. -/
theorem other_segment_attached : ¬ ∀ (iteration : KVDistributor.Iteration) (config : Config)
    (c : KvmClient) (us : List Update),
    launch iteration config = some c → (run step c us).Right := by
  intro h
  have hlaunch : launch .plain (besideServers (str "h:5001")) =
      some (clientBeside (str "h:5001")) := rfl
  have hright := h .plain (besideServers (str "h:5001")) (clientBeside (str "h:5001")) [] hlaunch
  have hagree := (right_launch_iff hlaunch).mp hright
  have htag := hagree (str "h:5000") rfl ⟨1, by decide, rfl⟩
  revert htag
  decide

end KvmClient

end DistKV
