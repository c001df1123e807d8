/-
When a refresh ends in the routing of the server.

A refresh that takes a new map over rebuilds the ring with the default number of tokens a
node, as the server does.  One that finds the map it has already leaves the ring alone, and
that ring may have been built with another number of tokens.  What counts then is which nodes
come first clockwise from each key with the one number of tokens and with the other.
-/
import DistKV.Proofs.Calls

namespace DistKV

open Succession Machine

namespace ConsistentHashRing

variable {r r' : ConsistentHashRing} {m : NodeMap} {V V' : Int}

/-! ### Two numbers of tokens -/

/-- With `V` tokens a node and with `V'`, the same node comes first clockwise from every key,
and the same other node comes next. -/
def SameOrder (V V' : Int) (ids : Set NodeId) : Prop := ∀ key : Key,
  (∀ p, Leads (clockwise (hashKey key)) Token.nodeId (tokensOf V ids) p ↔
    Leads (clockwise (hashKey key)) Token.nodeId (tokensOf V' ids) p) ∧
  ∀ p b, Leads (clockwise (hashKey key)) Token.nodeId (tokensOf V ids) p →
    (Follows (clockwise (hashKey key)) Token.nodeId (tokensOf V ids) p b ↔
      Follows (clockwise (hashKey key)) Token.nodeId (tokensOf V' ids) p b)

/-- Two rings that send every key to the same nodes. -/
def RoutesAs (r r' : ConsistentHashRing) : Prop := ∀ key : Key,
  r.getPrimaryNode key = r'.getPrimaryNode key ∧ r.getBuddyNode key = r'.getBuddyNode key

theorem routesAs_iff_sameOrder (hV : 1 ≤ V) (hV' : 1 ≤ V') {i : NodeId} (hi : i ∈ m) :
    (r.rebuild m V).RoutesAs (r'.rebuild m V') ↔ SameOrder V V' {i | i ∈ m} := by
  constructor
  · intro hroutes key
    obtain ⟨hprimary, hbuddy⟩ := hroutes key
    refine ⟨fun p => ?_, fun p b hleads => ?_⟩
    · rw [leads_iff_primary (r := r) hV hi, leads_iff_primary (r := r') hV' hi, hprimary]
    · rw [leads_iff_primary (r := r) hV hi] at hleads
      subst hleads
      by_cases hother : ∃ j ∈ m, j ≠ (r.rebuild m V).getPrimaryNode key
      · obtain ⟨j, hj, hne⟩ := hother
        rw [follows_iff_buddy hV hj hne, hprimary,
          follows_iff_buddy hV' hj (hprimary ▸ hne), hbuddy]
      · have hnobody : ∀ W, ¬ Follows (clockwise (hashKey key)) Token.nodeId
            (tokensOf W {i | i ∈ m}) ((r.rebuild m V).getPrimaryNode key) b := by
          intro W hfollows
          obtain ⟨t, ht, hid⟩ := Leads.owns hfollows
          exact hother ⟨t.nodeId, ht.1.1, ht.2⟩
        exact iff_of_false (hnobody V) (hnobody V')
  · intro hsame key
    obtain ⟨hleads, hfollows⟩ := hsame key
    have hprimary : (r.rebuild m V).getPrimaryNode key = (r'.rebuild m V').getPrimaryNode key := by
      rw [← leads_iff_primary hV hi, hleads, leads_iff_primary hV' hi]
    refine ⟨hprimary, ?_⟩
    by_cases hother : ∃ j ∈ m, j ≠ (r.rebuild m V).getPrimaryNode key
    · obtain ⟨j, hj, hne⟩ := hother
      rw [← follows_iff_buddy hV hj hne, hfollows _ _ (primary_leads hV hi key), hprimary,
        follows_iff_buddy hV' hj (hprimary ▸ hne)]
    · have halone : ∀ j ∈ m, j = (r.rebuild m V).getPrimaryNode key := by
        intro j hj
        by_contra hne
        exact hother ⟨j, hj, hne⟩
      rw [buddy_eq_primary hV halone, hprimary]
      exact (buddy_eq_primary hV' fun j hj => (halone j hj).trans hprimary).symm

theorem routesAs_of_alone (hV : 1 ≤ V) (hV' : 1 ≤ V') {i : NodeId} (hi : i ∈ m)
    (hall : ∀ j ∈ m, j = i) : (r.rebuild m V).RoutesAs (r'.rebuild m V') := by
  intro key
  have hprimary := hall _ (primary_mem (r := r) hV hi key)
  have hprimary' := hall _ (primary_mem (r := r') hV' hi key)
  have hbuddy := hall _ (buddy_mem (r := r) hV hi key)
  have hbuddy' := hall _ (buddy_mem (r := r') hV' hi key)
  exact ⟨hprimary.trans hprimary'.symm, hbuddy.trans hbuddy'.symm⟩

/-- A ring without tokens sends every key to `-1`. -/
theorem no_route (hV : V ≤ 0) (key : Key) :
    (r.rebuild m V).getPrimaryNode key = -1 ∧ (r.rebuild m V).getBuddyNode key = -1 := by
  unfold rebuild getPrimaryNode getBuddyNode
  dsimp only
  rw [if_pos hV]
  exact ⟨rfl, rfl⟩

/-- When `V` tokens a node send every key where the default number does. -/
def AsDefault (V : Int) (m : NodeMap) : Prop :=
  V = KVDistributor.defaultVirtualNodes ∨
    (m.keys.length = 1 ∧ (1 ≤ V ∨ -1 ∈ m)) ∨
    (1 ≤ V ∧ SameOrder V KVDistributor.defaultVirtualNodes {i | i ∈ m})

theorem routesAs_default_iff (hm : m.keys ≠ []) :
    (r.rebuild m V).RoutesAs (r'.rebuild m KVDistributor.defaultVirtualNodes) ↔
      AsDefault V m := by
  obtain ⟨i, hi⟩ := exists_mem_of_keys hm
  have hdefault : 1 ≤ KVDistributor.defaultVirtualNodes := by decide
  constructor
  · intro hroutes
    by_cases hV : 1 ≤ V
    · exact Or.inr (Or.inr ⟨hV, (routesAs_iff_sameOrder hV hdefault hi).mp hroutes⟩)
    · -- a key that goes nowhere has `-1` for its primary and for its buddy
      obtain ⟨hprimary, hbuddy⟩ := hroutes 0
      obtain ⟨hnone, hnone'⟩ := no_route (r := r) (m := m) (V := V) (by omega) 0
      rw [hnone] at hprimary
      rw [hnone', hprimary, eq_comm] at hbuddy
      refine Or.inr (Or.inl ⟨(buddy_eq_primary_iff hdefault hm 0).mp hbuddy, Or.inr ?_⟩)
      rw [hprimary]
      exact primary_mem hdefault hi 0
  · rintro (rfl | ⟨hone, hsome⟩ | ⟨hV, hsame⟩)
    · exact (routesAs_iff_sameOrder hdefault hdefault hi).mpr
        fun key => ⟨fun p => Iff.rfl, fun p b _ => Iff.rfl⟩
    · have hall : ∀ j ∈ m, j = i := by
        obtain ⟨k, hk⟩ := List.length_eq_one_iff.mp hone
        rw [AList.mem_keys, hk, List.mem_singleton] at hi
        intro j hj
        rw [AList.mem_keys, hk, List.mem_singleton] at hj
        exact hj.trans hi.symm
      by_cases hV : 1 ≤ V
      · exact routesAs_of_alone hV hdefault hi hall
      · have hnode := hsome.resolve_left hV
        intro key
        obtain ⟨hnone, hnone'⟩ := no_route (r := r) (m := m) (V := V) (by omega) key
        have hprimary := hall _ (primary_mem (r := r') hdefault hi key)
        have hbuddy := hall _ (buddy_mem (r := r') hdefault hi key)
        rw [hnone, hnone', hprimary, hbuddy]
        exact ⟨hall _ hnode, hall _ hnode⟩
    · exact (routesAs_iff_sameOrder hV hdefault hi).mpr hsame

end ConsistentHashRing

namespace KVDistributor

open ConsistentHashRing

variable {d : KVDistributor} {ms : List MemberRecord}

/-! ### Refreshes -/

theorem mem_liveMap (i : NodeId) :
    i ∈ liveMap ms ↔ ∃ r ∈ ms, r.status = .alive ∧ r.nodeId = i := by
  rw [← AList.lookup_isSome, lookup_liveMap, Option.isSome_map]
  unfold GossipMembership.lastAbout
  rw [List.getLast?_isSome]
  constructor
  · intro hne
    obtain ⟨r, hr⟩ := List.exists_mem_of_ne_nil _ hne
    rw [List.mem_filter, List.mem_filter, decide_eq_true_iff, decide_eq_true_iff] at hr
    exact ⟨r, hr.1.1, hr.1.2, hr.2⟩
  · rintro ⟨r, hmem, halive, hid⟩
    refine List.ne_nil_of_mem (a := r) ?_
    rw [List.mem_filter, List.mem_filter, decide_eq_true_iff, decide_eq_true_iff]
    exact ⟨⟨hmem, halive⟩, hid⟩

/-- The distributor has the members of `ms` that are alive, and sends every key where a server
does that has rebuilt its ring for them. -/
structure Follows (d : KVDistributor) (ms : List MemberRecord) : Prop where
  lookup : ∀ i, d.nodeToIp.lookup i =
    (GossipMembership.lastAbout i (ms.filter fun r => r.status = .alive)).map fun r =>
      stripScheme r.endpoint
  routes : ∀ (serverRing : ConsistentHashRing) (live : NodeMap),
    (∀ i, i ∈ live ↔ ∃ r ∈ ms, r.status = .alive ∧ r.nodeId = i) →
      d.hashRing.RoutesAs (serverRing.rebuild live defaultVirtualNodes)

/-- A refresh does nothing, or ends in the routing of the server. -/
def AllOrNothing (members : Option (List MemberRecord)) (d : KVDistributor) : Prop :=
  ((d.fetchMembershipFromServer members).1 = false → (d.fetchMembershipFromServer members).2 = d) ∧
  ((d.fetchMembershipFromServer members).1 = true →
    ∃ ms, members = some ms ∧ (d.fetchMembershipFromServer members).2.Follows ms)

/-- What is followed is the ring over the map of those who are alive. -/
theorem follows_iff (hlookup : ∀ i, d.nodeToIp.lookup i = (liveMap ms).lookup i) :
    d.Follows ms ↔
      d.hashRing.RoutesAs (({} : ConsistentHashRing).rebuild (liveMap ms) defaultVirtualNodes) := by
  constructor
  · intro h
    exact h.routes {} (liveMap ms) mem_liveMap
  · intro hroutes
    refine ⟨fun i => (hlookup i).trans (lookup_liveMap ms i), fun serverRing live hlive key => ?_⟩
    have hmem : ∀ i, i ∈ liveMap ms ↔ i ∈ live := fun i => (mem_liveMap i).trans (hlive i).symm
    have hdefault : 1 ≤ defaultVirtualNodes := by decide
    obtain ⟨hprimary, hbuddy⟩ := @routes_alike {} serverRing _ _ _ hdefault hmem key
    exact ⟨(hroutes key).1.trans hprimary, (hroutes key).2.trans hbuddy⟩

theorem fetch_of_no_live (h : (liveMap ms).keys = []) :
    d.fetchMembershipFromServer (some ms) = (false, d) := by
  unfold fetchMembershipFromServer
  dsimp only
  rw [if_pos h]

theorem fetch_of_same (h : (liveMap ms).keys ≠ [])
    (hsame : (liveMap ms).entries.Perm d.nodeToIp.entries) :
    d.fetchMembershipFromServer (some ms) = (true, d) := by
  unfold fetchMembershipFromServer
  dsimp only
  rw [if_neg h, if_pos hsame]

theorem fetch_of_new (h : (liveMap ms).keys ≠ [])
    (hnew : ¬ (liveMap ms).entries.Perm d.nodeToIp.entries) :
    d.fetchMembershipFromServer (some ms) =
      (true, d.rebuildRing (liveMap ms) defaultVirtualNodes) := by
  unfold fetchMembershipFromServer
  dsimp only
  rw [if_neg h, if_neg hnew]

/-- A refresh that finds the map of the distributor again: the ring is the one that is there. -/
theorem follows_of_same_iff (hring : d.RingOfMap) (h : (liveMap ms).keys ≠ [])
    (hsame : (liveMap ms).entries.Perm d.nodeToIp.entries) :
    d.Follows ms ↔ AsDefault d.hashRing.virtualNodesPerNode d.nodeToIp := by
  have hlookup : ∀ i, d.nodeToIp.lookup i = (liveMap ms).lookup i :=
    fun i => (AList.perm_lookup hsame).symm
  have hids : ∀ i, i ∈ liveMap ms ↔ i ∈ d.nodeToIp := by
    intro i
    rw [← AList.lookup_isSome, ← AList.lookup_isSome, hlookup]
  have hkeys : d.nodeToIp.keys ≠ [] := by
    obtain ⟨i, hi⟩ := exists_mem_of_keys h
    exact List.ne_nil_of_mem (AList.mem_keys.mp ((hids i).mp hi))
  obtain ⟨r, hr⟩ := hring
  rw [follows_iff hlookup, ← @routesAs_default_iff r {} _ _ hkeys, ← hr]
  -- the two maps have the same nodes
  have hdefault : 1 ≤ defaultVirtualNodes := by decide
  have halike := @routes_alike {} {} _ _ _ hdefault hids
  constructor
  · intro hroutes key
    exact ⟨(hroutes key).1.trans (halike key).1, (hroutes key).2.trans (halike key).2⟩
  · intro hroutes key
    exact ⟨(hroutes key).1.trans (halike key).1.symm, (hroutes key).2.trans (halike key).2.symm⟩

/-- **When a refresh ends in the routing of the server.**  After any run of a distributor and
for any reply, a refresh does nothing or follows the reply, exactly if a reply that gives the
map of the distributor again finds a ring that routes like one with the default number of
tokens. -/
theorem refresh_all_or_nothing_iff (iteration : Iteration) (endpoints : List Endpoint)
    (localIp : Endpoint) (es : List Event) (members : Option (List MemberRecord)) :
    (run step (ofConfig iteration endpoints localIp) es).AllOrNothing members ↔
      ∀ ms, members = some ms → (liveMap ms).keys ≠ [] →
        (liveMap ms).entries.Perm
          (run step (ofConfig iteration endpoints localIp) es).nodeToIp.entries →
        AsDefault (run step (ofConfig iteration endpoints localIp) es).hashRing.virtualNodesPerNode
          (run step (ofConfig iteration endpoints localIp) es).nodeToIp := by
  have hring := ((settled_ofConfig iteration endpoints localIp).run es).ring
  generalize run step (ofConfig iteration endpoints localIp) es = d at hring ⊢
  unfold AllOrNothing
  cases members with
  | none => exact iff_of_true ⟨fun _ => rfl, fun h => by cases h⟩ fun ms h => by cases h
  | some ms =>
      by_cases hlive : (liveMap ms).keys = []
      · rw [fetch_of_no_live hlive]
        refine iff_of_true ⟨fun _ => rfl, fun h => by cases h⟩ fun ms' h hlive' => ?_
        cases h
        exact absurd hlive hlive'
      · by_cases hsame : (liveMap ms).entries.Perm d.nodeToIp.entries
        · rw [fetch_of_same hlive hsame]
          have hfollows := follows_of_same_iff hring hlive hsame
          constructor
          · rintro ⟨-, htrue⟩ ms' h - -
            cases h
            obtain ⟨ms', h, hfollowed⟩ := htrue rfl
            cases h
            exact hfollows.mp hfollowed
          · intro hdefault
            exact ⟨fun h => (by cases h), fun _ => ⟨ms, rfl,
              hfollows.mpr (hdefault ms rfl hlive hsame)⟩⟩
        · rw [fetch_of_new hlive hsame]
          refine iff_of_true ⟨fun h => (by cases h), fun _ => ⟨ms, rfl, ?_⟩⟩
            fun ms' h _ hsame' => ?_
          · rw [follows_iff fun i => rfl]
            exact fun key => routes_alike (r := d.hashRing) (by decide) (fun i => Iff.rfl) key
          · cases h
            exact absurd hsame' hsame

/-- Nodes 0 and 1 of `zeroOne`, as a server reports them. -/
def zeroOneAlive : List MemberRecord :=
  [⟨0, str "ofi+tcp://a:1", .alive, 1, 1⟩, ⟨1, str "ofi+tcp://b:1", .alive, 1, 1⟩]

/-- A ring of four tokens a node is left as it is by a refresh that reports its nodes. -/
theorem old_ring_kept : ¬ ∀ (iteration : Iteration) (endpoints : List Endpoint)
    (localIp : Endpoint) (es : List Event) (members : Option (List MemberRecord)),
    (run step (ofConfig iteration endpoints localIp) es).AllOrNothing members := by
  intro hall
  have hdone := hall .plain [] [] [.rebuildRing zeroOne 4] (some zeroOneAlive)
  obtain ⟨ms, hms, hfollows⟩ := hdone.2 (by decide)
  cases hms
  have hroutes := hfollows.routes {} (liveMap zeroOneAlive) mem_liveMap 2
  revert hroutes
  decide

end KVDistributor

end DistKV
