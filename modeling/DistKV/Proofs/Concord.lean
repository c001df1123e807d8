/-
Whoever knows the same nodes agrees about every key.

A client's ring is always the ring over its map, with the default number of tokens for each
node, and so is the ring of a server over the map that its subscribers heard of last.  How a
party has come to its map, and in what order, leaves no trace in where it sends a key.
-/
import DistKV.Startup
import DistKV.Proofs.Destinations
import DistKV.Proofs.KeyRanges

namespace DistKV

open Machine ConsistentHashRing

/-- A key whose hash is in a published range has the replicas that are published. -/
theorem ConsistentHashRing.replicas_of_assignment {r : ConsistentHashRing} (hr : r.Sorted)
    {a : KeyRangeAssignment} (ha : a ∈ r.getKeyRangeAssignments) {key : Key}
    (hhas : a.range.Has (hashKey key)) :
    r.getPrimaryNode key = a.primaryNodeId ∧ r.getBuddyNode key = a.buddyNodeId := by
  obtain ⟨i, hi, hmem, hprimary, hbuddy⟩ := mem_getKeyRangeAssignments.mp ha
  have hne : r.ring ≠ [] := List.length_pos_iff.mp (by omega)
  have hfind := findToken_of_has hr hi hmem hhas
  rw [getPrimaryNode_eq hne, getBuddyNode_eq_tokenBuddy hne, hfind, hprimary, hbuddy]
  exact ⟨rfl, rfl⟩

open KVDistributor (defaultVirtualNodes)

theorem serverRing_eq {g : GossipMembership} {live : NodeMap} {rest : List NodeMap}
    (h : g.delivered = live :: rest) :
    serverRing g = (serverRing { g with delivered := rest }).rebuild live defaultVirtualNodes := by
  unfold serverRing
  rw [h]
  rfl

namespace System

variable {κ : Type} [DecidableEq κ] [Fintype κ] {config : NodeId → GossipConfig}
  {setting : κ → Setting} {s : System κ}

/-- Every client has the default number of tokens for each node. -/
def Default (s : System κ) : Prop :=
  ∀ i, (s.clients.client i).dist.hashRing.virtualNodesPerNode = defaultVirtualNodes

theorem virtualNodes_fetch {d : KVDistributor} (members : Option (List MemberRecord))
    (h : d.hashRing.virtualNodesPerNode = defaultVirtualNodes) :
    (d.fetchMembershipFromServer members).2.hashRing.virtualNodesPerNode =
      defaultVirtualNodes := by
  obtain ⟨hsame, -⟩ | ⟨ms, -, -, htaken⟩ := KvmClient.fetchMembership_cases members d
  · rw [hsame]
    exact h
  · rw [htaken]
    rfl

theorem Default.step (h : s.Default) (horderly : s.Orderly) (e : SystemEvent κ) :
    (s.step config setting e).Default := by
  have hact := act_step config setting s e
  generalize s.step config setting e = after at hact
  cases hact with
  | turn t =>
      intro i
      rw [horderly.dist_step t i]
      exact h i
  | fetchMembership i members rest hthread hfree =>
      intro j
      by_cases hj : j = i
      · subst hj
        simpa [setDist] using virtualNodes_fetch (some members) (h j)
      · simpa [setDist, hj] using h j
  | _ => exact h

/-- In every run a client's ring is the ring over its map. -/
theorem ring_of_run (config : NodeId → GossipConfig) (setting : κ → Setting) (cluster : Cluster)
    (es : List (SystemEvent κ)) (i : κ) :
    ∃ r : ConsistentHashRing,
      ((run (step config setting) (start setting cluster) es).clients.client i).dist.hashRing =
        r.rebuild ((run (step config setting) (start setting cluster) es).clients.client
          i).dist.nodeToIp defaultVirtualNodes := by
  have hkept : ∀ (s : System κ) (e : SystemEvent κ), s.Orderly ∧ s.Default →
      (s.step config setting e).Orderly ∧ (s.step config setting e).Default :=
    fun _ e h => ⟨h.1.step e, h.2.step h.1 e⟩
  have hrun := run_keeps hkept ⟨orderly_start setting cluster, fun _ => rfl⟩ es
  obtain ⟨r, hr⟩ := hrun.1.ring i
  rw [hrun.2 i] at hr
  exact ⟨r, hr⟩

/-- **Whoever knows the same nodes agrees about every key.**  Two clients whose maps have the
same nodes take the same node for the primary of a key, and the same for its buddy; and if the
subscribers of a server last heard of those nodes, that is what the server has printed. -/
theorem same_nodes_agree (config : NodeId → GossipConfig) (setting : κ → Setting)
    (cluster : Cluster) (es : List (SystemEvent κ)) (i : κ) :
    (∀ j, (∀ n, n ∈ ((run (step config setting) (start setting cluster) es).clients.client
          i).dist.nodeToIp ↔
        n ∈ ((run (step config setting) (start setting cluster) es).clients.client
          j).dist.nodeToIp) →
      ∀ key, ((run (step config setting) (start setting cluster) es).clients.client i).dist.primary
            key =
          ((run (step config setting) (start setting cluster) es).clients.client j).dist.primary
            key ∧
        ((run (step config setting) (start setting cluster) es).clients.client i).dist.buddy key =
          ((run (step config setting) (start setting cluster) es).clients.client j).dist.buddy
            key) ∧
    ∀ j m live rest, (run (step config setting) (start setting cluster) es).network.member j =
        some m → m.membership.delivered = live :: rest →
      (∀ n, n ∈ ((run (step config setting) (start setting cluster) es).clients.client
          i).dist.nodeToIp ↔ n ∈ live) →
      ∀ a ∈ (serverRing m.membership).getKeyRangeAssignments, ∀ key,
        a.range.Has (hashKey key) →
        ((run (step config setting) (start setting cluster) es).clients.client i).dist.primary
            key = a.primaryNodeId ∧
          ((run (step config setting) (start setting cluster) es).clients.client i).dist.buddy
            key = a.buddyNodeId := by
  have hV : 1 ≤ defaultVirtualNodes := by decide
  obtain ⟨r, hr⟩ := ring_of_run config setting cluster es i
  unfold KVDistributor.primary KVDistributor.buddy
  constructor
  · intro j hsame key
    obtain ⟨r', hr'⟩ := ring_of_run config setting cluster es j
    rw [hr, hr']
    exact routes_alike hV hsame key
  · intro j m live rest _ hdelivered hsame a ha key hhas
    rw [serverRing_eq hdelivered] at ha
    obtain ⟨hprimary, hbuddy⟩ := replicas_of_assignment (rebuild_pairwise _ _ _) ha hhas
    rw [hr, ← hprimary, ← hbuddy]
    exact routes_alike hV hsame key

/-- One client is configured with server 0 alone, and one with two nodes, the second of them
somewhere else than server 1. -/
def elsewhere (c : Bool) : Setting where
  protocol := str "tcp"
  endpoints := if c then [str "a"] else [str "c", str "d"]
  localIp := []
  attached := []

/-- Server 0 has heard of server 1, and the first client of both. -/
def toldElsewhere : System Bool :=
  run (step twoAddresses elsewhere) (start elsewhere fun _ => Server.fresh) toldOfBoth

/-- Key 2 is in the range below the token at 337030292. -/
theorem same_nodes_agree_two :
    (toldElsewhere.clients.client true).dist.primary 2 =
        (toldElsewhere.clients.client false).dist.primary 2 ∧
      (toldElsewhere.clients.client true).dist.primary 2 = 1 ∧
      (toldElsewhere.clients.client true).dist.buddy 2 = 0 := by
  have hkeys : (toldElsewhere.clients.client true).dist.nodeToIp.keys =
      (toldElsewhere.clients.client false).dist.nodeToIp.keys := by decide +kernel
  have htold : (toldElsewhere.clients.client true).dist.nodeToIp.keys = [0, 1] := by
    decide +kernel
  have hheard : (toldElsewhere.network.member 0).map (fun m =>
      m.membership.delivered.map AList.keys) = some [[1, 0]] := by decide +kernel
  have hprinted : (toldElsewhere.network.member 0).map (fun m =>
      decide ({ range := { start := 0, stop := 337030292 }, primaryNodeId := 1, buddyNodeId := 0 } ∈
        (serverRing m.membership).getKeyRangeAssignments)) = some true := by decide +kernel
  rcases Option.map_eq_some_iff.mp hheard with ⟨m, hm, hdelivered⟩
  obtain ⟨live, rest, hlatest, hlive, -⟩ := List.map_eq_cons_iff.mp hdelivered
  rw [hm] at hprinted
  obtain ⟨hclients, hserver⟩ :=
    same_nodes_agree twoAddresses elsewhere (fun _ => Server.fresh) toldOfBoth true
  refine ⟨(hclients false (fun n => ?_) 2).1, hserver 0 m live rest hm hlatest (fun n => ?_) _
    (of_decide_eq_true (Option.some.inj hprinted)) 2 ⟨by decide, by decide +kernel⟩⟩
  · rw [AList.mem_keys, AList.mem_keys]
    exact iff_of_eq (congrArg (n ∈ ·) hkeys)
  · show n ∈ (toldElsewhere.clients.client true).dist.nodeToIp ↔ n ∈ live
    rw [AList.mem_keys, AList.mem_keys, htold, hlive]
    simp [or_comm]

end System

end DistKV
