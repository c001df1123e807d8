/-
Routing is the clockwise rule.

The primary and the buddy of a key are told by the set of the node ids alone: the primary
is the one node that leads the tokens of the set in clockwise order from the key's hash,
and the buddy is the one node that follows it, or the primary again where it is alone.
Neither the order in which the map lists the nodes nor their endpoints play a part, and so
two processes that know of the same ids agree on every key.
-/
import DistKV.Proofs.Ring

namespace DistKV.ConsistentHashRing

open Succession

variable {r r' : ConsistentHashRing} {m m' : NodeMap} {V : Int}

theorem exists_mem_of_keys (hm : m.keys ≠ []) : ∃ i, i ∈ m := by
  obtain ⟨i, hi⟩ := List.exists_mem_of_ne_nil _ hm
  exact ⟨i, AList.mem_keys.mpr hi⟩

theorem rebuild_eq_nil (hm : m.keys = []) : (r.rebuild m V).ring = [] := by
  unfold rebuild
  dsimp only
  split
  · rfl
  · rw [hm]
    rfl

/-- The primary is the one node that leads. -/
theorem leads_iff_primary (hV : 1 ≤ V) {i : NodeId} (hi : i ∈ m) (key : Key) (p : NodeId) :
    Leads (clockwise (hashKey key)) Token.nodeId (tokensOf V {i | i ∈ m}) p ↔
      (r.rebuild m V).getPrimaryNode key = p := by
  have hleads := primary_leads (r := r) hV hi key
  constructor
  · intro h
    exact hleads.unique nodeId_eq_of_clockwise h
  · intro h
    rw [← h]
    exact hleads

/-- The buddy is the one node that follows, if there is any. -/
theorem follows_iff_buddy (hV : 1 ≤ V) {key : Key} {i : NodeId} (hi : i ∈ m)
    (hne : i ≠ (r.rebuild m V).getPrimaryNode key) (b : NodeId) :
    Follows (clockwise (hashKey key)) Token.nodeId (tokensOf V {i | i ∈ m})
        ((r.rebuild m V).getPrimaryNode key) b ↔
      (r.rebuild m V).getBuddyNode key = b := by
  have hfollows := buddy_follows (r := r) hV hi hne
  constructor
  · intro h
    exact hfollows.unique nodeId_eq_of_clockwise h
  · intro h
    rw [← h]
    exact hfollows

theorem keys_length_eq_one {i : NodeId} (hi : i ∈ m) (hall : ∀ j ∈ m, j = i) :
    m.keys.length = 1 := by
  have hkeys : m.keys = List.replicate m.keys.length i :=
    List.eq_replicate_iff.mpr ⟨rfl, fun j hj => hall j (AList.mem_keys.mpr hj)⟩
  have hnodup : m.keys.Nodup := m.nodupKeys
  rw [hkeys, List.nodup_replicate] at hnodup
  exact le_antisymm hnodup (List.length_pos_of_mem (AList.mem_keys.mp hi))

/-- The buddy is the primary exactly in a map of one node. -/
theorem buddy_eq_primary_iff (hV : 1 ≤ V) (hm : m.keys ≠ []) (key : Key) :
    (r.rebuild m V).getBuddyNode key = (r.rebuild m V).getPrimaryNode key ↔
      m.keys.length = 1 := by
  obtain ⟨i, hi⟩ := exists_mem_of_keys hm
  have hprimary := primary_mem (r := r) hV hi key
  rw [← not_iff_not, ← ne_eq, buddy_ne_primary_iff hV]
  constructor
  · intro hother hone
    obtain ⟨j, hj, hne⟩ := hother
    obtain ⟨k, hk⟩ := List.length_eq_one_iff.mp hone
    rw [AList.mem_keys, hk, List.mem_singleton] at hj hprimary
    exact hne (hj.trans hprimary.symm)
  · intro hmany
    by_contra hnone
    refine hmany (keys_length_eq_one hprimary fun j hj => ?_)
    by_contra hne
    exact hnone ⟨j, hj, hne⟩

/-- The do-while of `getBuddyNode` ends within one round of the ring. -/
theorem buddyLoop_ends (hr : r.ring ≠ []) (key : Key) :
    r.buddyLoop (r.findToken (hashKey key)) r.ring.length (r.findToken (hashKey key)) =
      some (r.getBuddyNode key) := by
  have hpos : 0 < r.ring.length := List.length_pos_iff.mpr hr
  have hloop := buddyLoop_eq hr (hashKey key) r.ring.length 0 hpos (by omega)
  rw [Nat.add_zero, Nat.mod_eq_of_lt (findToken_lt hr _)] at hloop
  unfold getBuddyNode
  rw [if_neg (by simpa using hr)]
  dsimp only
  rw [hloop, Option.getD_some]

theorem primary_of_no_node (hm : m.keys = []) (key : Key) :
    (r.rebuild m V).getPrimaryNode key = -1 := by
  unfold getPrimaryNode
  rw [rebuild_eq_nil hm]
  rfl

theorem buddy_of_no_node (hm : m.keys = []) (key : Key) :
    (r.rebuild m V).getBuddyNode key = -1 := by
  unfold getBuddyNode
  rw [rebuild_eq_nil hm]
  rfl

/-- Two maps with the same ids send every key to the same nodes. -/
theorem routes_alike (hV : 1 ≤ V) (hsame : ∀ i, i ∈ m ↔ i ∈ m') (key : Key) :
    (r.rebuild m V).getPrimaryNode key = (r'.rebuild m' V).getPrimaryNode key ∧
      (r.rebuild m V).getBuddyNode key = (r'.rebuild m' V).getBuddyNode key := by
  have hids : {i | i ∈ m} = {i | i ∈ m'} := Set.ext hsame
  by_cases hm : m.keys = []
  · have hm' : m'.keys = [] := by
      by_contra hne
      obtain ⟨i, hi⟩ := exists_mem_of_keys hne
      have hmem : i ∈ m.keys := AList.mem_keys.mp ((hsame i).mpr hi)
      rw [hm] at hmem
      cases hmem
    exact ⟨(primary_of_no_node hm key).trans (primary_of_no_node hm' key).symm,
      (buddy_of_no_node hm key).trans (buddy_of_no_node hm' key).symm⟩
  · obtain ⟨i, hi⟩ := exists_mem_of_keys hm
    have hprimary : (r.rebuild m V).getPrimaryNode key = (r'.rebuild m' V).getPrimaryNode key := by
      rw [← leads_iff_primary hV hi, hids, leads_iff_primary hV ((hsame i).mp hi)]
    refine ⟨hprimary, ?_⟩
    by_cases hother : ∃ j ∈ m, j ≠ (r.rebuild m V).getPrimaryNode key
    · obtain ⟨j, hj, hne⟩ := hother
      rw [← follows_iff_buddy hV hj hne, hids, hprimary,
        follows_iff_buddy hV ((hsame j).mp hj) (hprimary ▸ hne)]
    · have halone : ∀ j ∈ m, j = (r.rebuild m V).getPrimaryNode key := by
        intro j hj
        by_contra hne
        exact hother ⟨j, hj, hne⟩
      rw [buddy_eq_primary hV halone, hprimary]
      refine (buddy_eq_primary hV fun j hj => ?_).symm
      rw [← hprimary]
      exact halone j ((hsame j).mpr hj)

/-- **Routing is the clockwise rule**, and depends only on the set of node ids. -/
theorem routing_is_clockwise (r : ConsistentHashRing) (m : NodeMap) (V : Int) (hV : 1 ≤ V)
    (key : Key) :
    (m.keys ≠ [] →
      (∀ p, Leads (clockwise (hashKey key)) Token.nodeId (tokensOf V {i | i ∈ m}) p ↔
        (r.rebuild m V).getPrimaryNode key = p) ∧
      (m.keys.length ≠ 1 → ∀ b,
        Follows (clockwise (hashKey key)) Token.nodeId (tokensOf V {i | i ∈ m})
          ((r.rebuild m V).getPrimaryNode key) b ↔ (r.rebuild m V).getBuddyNode key = b) ∧
      ((r.rebuild m V).getBuddyNode key = (r.rebuild m V).getPrimaryNode key ↔
        m.keys.length = 1) ∧
      (r.rebuild m V).buddyLoop ((r.rebuild m V).findToken (hashKey key))
        (r.rebuild m V).ring.length ((r.rebuild m V).findToken (hashKey key)) =
          some ((r.rebuild m V).getBuddyNode key)) ∧
    (m.keys = [] → (r.rebuild m V).getPrimaryNode key = -1 ∧
      (r.rebuild m V).getBuddyNode key = -1) ∧
    ∀ (r' : ConsistentHashRing) (m' : NodeMap), (∀ i, i ∈ m ↔ i ∈ m') →
      (r.rebuild m V).getPrimaryNode key = (r'.rebuild m' V).getPrimaryNode key ∧
        (r.rebuild m V).getBuddyNode key = (r'.rebuild m' V).getBuddyNode key := by
  refine ⟨fun hm => ?_, fun hm => ⟨primary_of_no_node hm key, buddy_of_no_node hm key⟩,
    fun r' m' hsame => routes_alike hV hsame key⟩
  obtain ⟨i, hi⟩ := exists_mem_of_keys hm
  refine ⟨leads_iff_primary hV hi key, fun hmany => ?_, buddy_eq_primary_iff hV hm key,
    buddyLoop_ends (rebuild_ne_nil hV hi) key⟩
  have hne : (r.rebuild m V).getBuddyNode key ≠ (r.rebuild m V).getPrimaryNode key :=
    fun heq => hmany ((buddy_eq_primary_iff hV hm key).mp heq)
  obtain ⟨j, hj, hother⟩ := (buddy_ne_primary_iff hV key).mp hne
  exact follows_iff_buddy hV hj hother

/-- Two nodes, listed in either order. -/
def zeroOne : NodeMap := [⟨0, str "a:1"⟩, ⟨1, str "b:1"⟩].toAList

def oneZero : NodeMap := [⟨1, str "c:1"⟩, ⟨0, str "d:1"⟩].toAList

theorem routing_is_clockwise_two :
    ((({} : ConsistentHashRing).rebuild zeroOne 2).getPrimaryNode 5 =
        (({} : ConsistentHashRing).rebuild oneZero 2).getPrimaryNode 5 ∧
      (({} : ConsistentHashRing).rebuild zeroOne 2).getBuddyNode 5 =
        (({} : ConsistentHashRing).rebuild oneZero 2).getBuddyNode 5) ∧
    ((({} : ConsistentHashRing).rebuild zeroOne 2).getBuddyNode 5 =
        (({} : ConsistentHashRing).rebuild zeroOne 2).getPrimaryNode 5 ↔
      zeroOne.keys.length = 1) := by
  obtain ⟨hclockwise, -, halike⟩ := routing_is_clockwise {} zeroOne 2 (by omega) 5
  refine ⟨halike {} oneZero fun i => ?_, (hclockwise (by decide)).2.2.1⟩
  rw [AList.mem_keys, AList.mem_keys]
  exact List.Perm.mem_iff (List.Perm.swap _ _ _)

end DistKV.ConsistentHashRing
