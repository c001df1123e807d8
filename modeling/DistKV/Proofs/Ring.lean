/-
What the ring's lookups find.

`rebuild` leaves the tokens of the mapped nodes in order of position, ties broken
by node id.  Read from where `findToken` lands, the same vector is in order of
clockwise distance from the key's hash, ties still broken by node id: that is
`fromKey_pairwise`, and it is the only place where the wrap modulo 2^32 is looked
at.  From there on everything is `Lib/Succession.lean`: the primary leads the
tokens of the map, and the buddy follows it.

The do-while of `getBuddyNode` is `buddyLoop_eq`: one round of the vector is
enough fuel, and what it returns is the first token of another node.
-/
import DistKV.Ring
import DistKV.Lib.Succession
import Mathlib.Data.Prod.Lex
import Mathlib.Data.List.Rotate
import Mathlib.Tactic

namespace DistKV.ConsistentHashRing

open Succession

/-! ### The order `rebuild` sorts into -/

/-- Position first, node id second: what `tokenLt` compares. -/
def rank (t : Token) : Lex (Nat × Int) := toLex (t.position.toNat, t.nodeId)

theorem tokenLt_iff {a b : Token} : tokenLt a b ↔ rank a < rank b := by
  simp only [tokenLt, rank, Prod.Lex.toLex_lt_toLex]
  by_cases hpos : a.position = b.position
  · simp [hpos]
  · have hnat : a.position.toNat ≠ b.position.toNat := fun hc => hpos (UInt32.toNat_inj.mp hc)
    simp [hpos, hnat, UInt32.lt_iff_toNat_lt]

theorem not_tokenLt_iff {a b : Token} : ¬ tokenLt b a ↔ rank a ≤ rank b := by
  rw [tokenLt_iff, not_lt]

theorem rank_lt_iff {a b : Token} : rank a < rank b ↔
    a.position < b.position ∨ a.position = b.position ∧ a.nodeId < b.nodeId := by
  unfold rank
  rw [Prod.Lex.toLex_lt_toLex, UInt32.lt_iff_toNat_lt, UInt32.toNat_inj]

theorem rank_injective {a b : Token} (h : rank a = rank b) : a = b := by
  unfold rank at h
  rw [toLex_inj, Prod.mk.injEq, UInt32.toNat_inj] at h
  cases a
  cases b
  rw [Token.mk.injEq]
  exact h

/-- The tokens of the nodes in `S`. -/
def tokensOf (V : Int) (S : Set NodeId) : Set Token :=
  {t | t.nodeId ∈ S ∧ t ∈ nodeTokens V t.nodeId}

theorem nodeId_of_mem_nodeTokens {V : Int} {n : NodeId} {t : Token} (h : t ∈ nodeTokens V n) :
    t.nodeId = n := by
  simp only [nodeTokens, List.mem_map] at h
  obtain ⟨v, -, rfl⟩ := h
  rfl

theorem exists_mem_nodeTokens {V : Int} (hV : 1 ≤ V) (n : NodeId) :
    ∃ t ∈ nodeTokens V n, t.nodeId = n := by
  have hpos : 0 < V.toNat := by omega
  refine ⟨_, List.mem_map.mpr ⟨0, List.mem_range.mpr hpos, rfl⟩, rfl⟩

theorem mem_rebuild {r : ConsistentHashRing} {m : NodeMap} {V : Int} (hV : 1 ≤ V) {t : Token} :
    t ∈ (r.rebuild m V).ring ↔ t ∈ tokensOf V {i | i ∈ m} := by
  have hneg : ¬ V ≤ 0 := by omega
  simp only [rebuild, if_neg hneg, List.mem_insertionSort, List.mem_flatMap, tokensOf,
    Set.mem_ofPred_eq]
  constructor
  · rintro ⟨n, hn, ht⟩
    rw [nodeId_of_mem_nodeTokens ht]
    exact ⟨hn, ht⟩
  · rintro ⟨hn, ht⟩
    exact ⟨t.nodeId, hn, ht⟩

/-- `rebuild` sorts: every ring it leaves is in order of position and node id. -/
theorem rebuild_pairwise (r : ConsistentHashRing) (m : NodeMap) (V : Int) :
    (r.rebuild m V).ring.Pairwise fun a b => rank a ≤ rank b := by
  by_cases hV : V ≤ 0
  · simp [rebuild, hV]
  · have : Std.Total fun a b : Token => ¬ tokenLt b a :=
      ⟨fun a b => by simp only [not_tokenLt_iff]; exact le_total _ _⟩
    have : IsTrans Token fun a b => ¬ tokenLt b a :=
      ⟨fun a b c hab hbc => by rw [not_tokenLt_iff] at *; exact le_trans hab hbc⟩
    simp only [rebuild, if_neg hV]
    exact (List.pairwise_insertionSort _ _).imp fun h => not_tokenLt_iff.mp h

theorem rebuild_ne_nil {r : ConsistentHashRing} {m : NodeMap} {V : Int} (hV : 1 ≤ V)
    {i : NodeId} (hi : i ∈ m) : (r.rebuild m V).ring ≠ [] := by
  obtain ⟨t, ht, hid⟩ := exists_mem_nodeTokens hV i
  have hmem : t ∈ (r.rebuild m V).ring := by
    rw [mem_rebuild hV]
    exact ⟨by rw [hid]; exact hi, by rw [hid]; exact ht⟩
  exact List.ne_nil_of_mem hmem

/-! ### The ring as it is read from a key -/

/-- Clockwise distance from `h`, ties broken by node id. -/
def clockwise (h : UInt32) (t : Token) : Lex (Nat × Int) :=
  toLex ((t.position - h).toNat, t.nodeId)

theorem nodeId_eq_of_clockwise {h : UInt32} (a b : Token) (hab : clockwise h a = clockwise h b) :
    a.nodeId = b.nodeId := congrArg (fun p => (ofLex p).2) hab

/-- On one side of `h` the clockwise order is the ring's own. -/
theorem clockwise_le_of_rank {h : UInt32} {a b : Token} (hab : rank a ≤ rank b)
    (hside : h ≤ a.position ∧ h ≤ b.position ∨ a.position < h ∧ b.position < h) :
    clockwise h a ≤ clockwise h b := by
  simp only [rank, clockwise, Prod.Lex.toLex_le_toLex, UInt32.toNat_sub, UInt32.lt_iff_toNat_lt,
    UInt32.le_iff_toNat_le] at *
  have := a.position.toNat_lt
  have := b.position.toNat_lt
  omega

/-- What lies at or past `h` comes before what lies short of it. -/
theorem clockwise_le_of_wrap {h : UInt32} {a b : Token} (ha : h ≤ a.position)
    (hb : b.position < h) : clockwise h a ≤ clockwise h b := by
  simp only [clockwise, Prod.Lex.toLex_le_toLex, UInt32.toNat_sub, UInt32.lt_iff_toNat_lt,
    UInt32.le_iff_toNat_le] at *
  have := a.position.toNat_lt
  have := b.position.toNat_lt
  omega

/-- The ring's tokens in the order a walk from `position` meets them. -/
def walkFrom (r : ConsistentHashRing) (position : UInt32) : List Token :=
  r.ring.rotate (r.findToken position)

theorem mem_walkFrom {r : ConsistentHashRing} {h : UInt32} {t : Token} :
    t ∈ r.walkFrom h ↔ t ∈ r.ring := List.mem_rotate

theorem findToken_lt {r : ConsistentHashRing} (hr : r.ring ≠ []) (h : UInt32) :
    r.findToken h < r.ring.length := by
  have hpos : 0 < r.ring.length := List.length_pos_iff.mpr hr
  have hle := @List.findIdx_le_length _ (fun t : Token => !decide (t.position < h)) r.ring
  unfold findToken
  simp only
  split <;> omega

/-- The walk is the part of the ring `lower_bound` skips, moved behind the part it keeps. -/
theorem walkFrom_eq (r : ConsistentHashRing) (h : UInt32) :
    r.walkFrom h =
      r.ring.drop (r.ring.findIdx fun t => !decide (t.position < h)) ++
        r.ring.take (r.ring.findIdx fun t => !decide (t.position < h)) := by
  have hle := @List.findIdx_le_length _ (fun t : Token => !decide (t.position < h)) r.ring
  unfold walkFrom findToken
  simp only
  split
  · rename_i hlen
    rw [hlen, List.drop_length, List.take_length, List.rotate_zero, List.nil_append]
  · exact List.rotate_eq_drop_append_take hle

/-- **A walk meets the tokens in clockwise order.** -/
theorem walkFrom_pairwise {r : ConsistentHashRing}
    (hr : r.ring.Pairwise fun a b => rank a ≤ rank b) (h : UInt32) :
    (r.walkFrom h).Pairwise fun a b => clockwise h a ≤ clockwise h b := by
  rw [walkFrom_eq]
  set it := r.ring.findIdx fun t => !decide (t.position < h) with hit
  have htake : ∀ t ∈ r.ring.take it, t.position < h := by
    intro t ht
    obtain ⟨i, hi, rfl⟩ := List.getElem_of_mem ht
    rw [List.length_take] at hi
    have := List.not_of_lt_findIdx (show i < r.ring.findIdx _ by rw [← hit]; omega)
    rw [List.getElem_take]
    simpa using this
  have hdrop : ∀ t ∈ r.ring.drop it, h ≤ t.position := by
    intro t ht
    obtain ⟨i, hi, rfl⟩ := List.getElem_of_mem ht
    rw [List.length_drop] at hi
    have hlt : it < r.ring.length := by omega
    have hfound : h ≤ (r.ring[it]).position := by
      have := @List.findIdx_getElem _ (fun t => !decide (t.position < h)) r.ring
        (by rw [← hit]; exact hlt)
      simpa using this
    rw [List.getElem_drop]
    rcases Nat.eq_zero_or_pos i with rfl | hi0
    · exact hfound
    · have hle := List.pairwise_iff_getElem.mp hr it (it + i) hlt (by omega) (by omega)
      rw [rank, rank, Prod.Lex.toLex_le_toLex] at hle
      rw [UInt32.le_iff_toNat_le] at hfound ⊢
      simp only at hle
      omega
  refine List.pairwise_append.mpr ⟨?_, ?_, ?_⟩
  · exact (hr.sublist (List.drop_sublist _ _)).imp_of_mem fun ha hb hab =>
      clockwise_le_of_rank hab (Or.inl ⟨hdrop _ ha, hdrop _ hb⟩)
  · exact (hr.sublist (List.take_sublist _ _)).imp_of_mem fun ha hb hab =>
      clockwise_le_of_rank hab (Or.inr ⟨htake _ ha, htake _ hb⟩)
  · exact fun a ha b hb => clockwise_le_of_wrap (hdrop a ha) (htake b hb)

/-! ### The two lookups are the head of the walk and its first other node -/

theorem walkFrom_getElem? {r : ConsistentHashRing} (hr : r.ring ≠ []) (h : UInt32) {j : Nat}
    (hj : j < r.ring.length) :
    (r.walkFrom h)[j]? = some (r.token ((r.findToken h + j) % r.ring.length)) := by
  have hlt : (r.findToken h + j) % r.ring.length < r.ring.length :=
    Nat.mod_lt _ (List.length_pos_iff.mpr hr)
  rw [walkFrom, List.getElem?_rotate hj, token, List.getD_eq_getElem?_getD, Nat.add_comm j,
    List.getElem?_eq_getElem hlt, Option.getD_some]

theorem walkFrom_eq_cons {r : ConsistentHashRing} (hr : r.ring ≠ []) (h : UInt32) :
    ∃ rest, r.walkFrom h = r.token (r.findToken h) :: rest := by
  have hpos : 0 < r.ring.length := List.length_pos_iff.mpr hr
  have hzero := walkFrom_getElem? hr h hpos
  rw [Nat.add_zero, Nat.mod_eq_of_lt (findToken_lt hr h)] at hzero
  rcases hw : r.walkFrom h with _ | ⟨t, rest⟩
  · rw [hw] at hzero
    simp at hzero
  · rw [hw] at hzero
    simp only [List.getElem?_cons_zero, Option.some.injEq] at hzero
    exact ⟨rest, by rw [hzero]⟩

/-- From `j` tokens into its round, the loop returns the node of the first token
still ahead that is not the start's, and the start's own when there is none. -/
theorem buddyLoop_eq {r : ConsistentHashRing} (hr : r.ring ≠ []) (h : UInt32) :
    ∀ (fuel j : Nat), 0 < fuel → j + fuel = r.ring.length →
      r.buddyLoop (r.findToken h) fuel ((r.findToken h + j) % r.ring.length) =
        some ((((r.walkFrom h).drop (j + 1)).find? fun t =>
          decide (t.nodeId ≠ (r.token (r.findToken h)).nodeId)).elim
            (r.token (r.findToken h)).nodeId Token.nodeId) := by
  intro fuel
  induction fuel with
  | zero => intro j hpos _; omega
  | succ fuel ih =>
      intro j _ hj
      have hstart := findToken_lt hr h
      have hnext : (if (r.findToken h + j) % r.ring.length + 1 = r.ring.length then 0
          else (r.findToken h + j) % r.ring.length + 1)
            = (r.findToken h + (j + 1)) % r.ring.length := by
        have hlt : (r.findToken h + j) % r.ring.length < r.ring.length := Nat.mod_lt _ (by omega)
        rw [← Nat.add_assoc, ← Nat.mod_add_mod (r.findToken h + j)]
        split
        · rename_i hend
          rw [hend, Nat.mod_self]
        · exact (Nat.mod_eq_of_lt (by omega)).symm
      rw [buddyLoop]
      simp only [hnext]
      rcases Nat.eq_or_lt_of_le (show j + 1 ≤ r.ring.length by omega) with hround | hround
      · -- The round is over: the walk is back at the start.
        have hback : (r.findToken h + (j + 1)) % r.ring.length = r.findToken h := by
          rw [hround, Nat.add_mod_right, Nat.mod_eq_of_lt hstart]
        have hnone : (r.walkFrom h).drop (j + 1) = [] :=
          List.drop_eq_nil_iff.mpr (by rw [walkFrom, List.length_rotate]; omega)
        rw [hback, hnone]
        simp
      · have hget := walkFrom_getElem? hr h hround
        have hlen : j + 1 < (r.walkFrom h).length := by
          rw [walkFrom, List.length_rotate]; exact hround
        rw [List.drop_eq_getElem_cons hlen]
        rw [List.getElem?_eq_getElem hlen, Option.some.injEq] at hget
        rw [hget, List.find?_cons]
        by_cases hid : (r.token ((r.findToken h + (j + 1)) % r.ring.length)).nodeId
            = (r.token (r.findToken h)).nodeId
        · have hne : (r.findToken h + (j + 1)) % r.ring.length ≠ r.findToken h := by
            intro hc
            have := Nat.mod_add_div (r.findToken h + (j + 1)) r.ring.length
            rw [hc] at this
            rcases Nat.eq_zero_or_pos ((r.findToken h + (j + 1)) / r.ring.length) with hz | hp
            · rw [hz] at this; omega
            · have := Nat.le_mul_of_pos_right r.ring.length hp
              omega
          simp only [hid, ne_eq, not_true_eq_false, if_false, hne, not_false_eq_true, if_true,
            decide_false]
          exact ih (j + 1) (by omega) (by omega)
        · simp [hid]

/-- The node whose token a position of the ring falls to. -/
def owner (r : ConsistentHashRing) (h : UInt32) : NodeId := (r.token (r.findToken h)).nodeId

theorem getPrimaryNode_eq {r : ConsistentHashRing} (hr : r.ring ≠ []) (key : Key) :
    r.getPrimaryNode key = (r.token (r.findToken (hashKey key))).nodeId := by
  rw [getPrimaryNode, if_neg (by simpa using hr)]

/-- **The loop of `getBuddyNode` always ends**, at the first token of another node if there
is one. -/
theorem getBuddyNode_eq {r : ConsistentHashRing} (hr : r.ring ≠ []) (key : Key) :
    r.getBuddyNode key =
      ((r.walkFrom (hashKey key)).find? fun t => decide (t.nodeId ≠ r.getPrimaryNode key)).elim
        (r.getPrimaryNode key) Token.nodeId := by
  have hpos : 0 < r.ring.length := List.length_pos_iff.mpr hr
  have hloop := buddyLoop_eq hr (hashKey key) r.ring.length 0 hpos (by omega)
  rw [Nat.add_zero, Nat.mod_eq_of_lt (findToken_lt hr _)] at hloop
  obtain ⟨rest, hwalk⟩ := walkFrom_eq_cons hr (hashKey key)
  rw [getBuddyNode, if_neg (by simpa using hr), getPrimaryNode_eq hr]
  simp only [hloop, Option.getD_some]
  rw [hwalk]
  simp

/-! ### The primary leads, the buddy follows -/

section Lookup

variable {r : ConsistentHashRing} {m : NodeMap} {V : Int}

theorem tokensOf_rebuild (hV : 1 ≤ V) (h : UInt32) :
    {t | t ∈ (r.rebuild m V).walkFrom h} = tokensOf V {i | i ∈ m} := by
  ext t
  rw [Set.mem_ofPred_eq, mem_walkFrom, mem_rebuild hV]

/-- **The owner of a position leads the tokens of the map from there.** -/
theorem owner_leads (hV : 1 ≤ V) {i : NodeId} (hi : i ∈ m) (h : UInt32) :
    Leads (clockwise h) Token.nodeId (tokensOf V {i | i ∈ m}) ((r.rebuild m V).owner h) := by
  have hr := rebuild_ne_nil (r := r) hV hi
  obtain ⟨rest, hwalk⟩ := walkFrom_eq_cons hr h
  have hsorted := walkFrom_pairwise (rebuild_pairwise r m V) h
  unfold owner
  rw [← tokensOf_rebuild (r := r) hV h]
  rw [hwalk] at hsorted ⊢
  exact leads_head hsorted

/-- **The primary of a key leads the tokens of the map.** -/
theorem primary_leads (hV : 1 ≤ V) {i : NodeId} (hi : i ∈ m) (key : Key) :
    Leads (clockwise (hashKey key)) Token.nodeId (tokensOf V {i | i ∈ m})
      ((r.rebuild m V).getPrimaryNode key) := by
  rw [getPrimaryNode_eq (rebuild_ne_nil hV hi)]
  exact owner_leads hV hi (hashKey key)

/-- **With a second node in the map, the buddy follows the primary.** -/
theorem buddy_follows (hV : 1 ≤ V) {key : Key} {i : NodeId} (hi : i ∈ m)
    (hne : i ≠ (r.rebuild m V).getPrimaryNode key) :
    Follows (clockwise (hashKey key)) Token.nodeId (tokensOf V {i | i ∈ m})
      ((r.rebuild m V).getPrimaryNode key) ((r.rebuild m V).getBuddyNode key) := by
  have hr := rebuild_ne_nil (r := r) hV hi
  have hsorted := walkFrom_pairwise (rebuild_pairwise r m V) (hashKey key)
  obtain ⟨t, ht, hid⟩ := exists_mem_nodeTokens hV i
  have hmem : t ∈ (r.rebuild m V).walkFrom (hashKey key) := by
    rw [mem_walkFrom, mem_rebuild hV]
    exact ⟨by rw [hid]; exact hi, by rw [hid]; exact ht⟩
  rw [getBuddyNode_eq hr, ← tokensOf_rebuild (r := r) hV (hashKey key)]
  cases hfind : ((r.rebuild m V).walkFrom (hashKey key)).find?
      fun t => decide (t.nodeId ≠ (r.rebuild m V).getPrimaryNode key) with
  | none =>
      have := List.find?_eq_none.mp hfind t hmem
      simp [hid, hne] at this
  | some a => exact follows_find? hsorted hfind

theorem buddy_eq_primary (hV : 1 ≤ V) {key : Key}
    (hall : ∀ i ∈ m, i = (r.rebuild m V).getPrimaryNode key) :
    (r.rebuild m V).getBuddyNode key = (r.rebuild m V).getPrimaryNode key := by
  by_cases hr : (r.rebuild m V).ring = []
  · simp [getBuddyNode, getPrimaryNode, hr]
  · rw [getBuddyNode_eq hr]
    cases hfind : ((r.rebuild m V).walkFrom (hashKey key)).find?
        fun t => decide (t.nodeId ≠ (r.rebuild m V).getPrimaryNode key) with
    | none => rfl
    | some a =>
        have hmem := List.mem_of_find?_eq_some hfind
        rw [mem_walkFrom, mem_rebuild hV] at hmem
        have := List.find?_some hfind
        simp [hall _ hmem.1] at this

theorem primary_mem (hV : 1 ≤ V) {i : NodeId} (hi : i ∈ m) (key : Key) :
    (r.rebuild m V).getPrimaryNode key ∈ m := by
  obtain ⟨t, ht, hid⟩ := Leads.owns (primary_leads (r := r) hV hi key)
  rw [← hid]
  exact ht.1

theorem buddy_mem (hV : 1 ≤ V) {i : NodeId} (hi : i ∈ m) (key : Key) :
    (r.rebuild m V).getBuddyNode key ∈ m := by
  by_cases hall : ∀ i ∈ m, i = (r.rebuild m V).getPrimaryNode key
  · rw [buddy_eq_primary hV hall]
    exact primary_mem hV hi key
  · simp only [not_forall] at hall
    obtain ⟨j, hj, hne⟩ := hall
    obtain ⟨t, ht, hid⟩ := Leads.owns (buddy_follows (r := r) hV hj hne)
    rw [← hid]
    exact ht.1.1

/-- The buddy is another node exactly when there is another node. -/
theorem buddy_ne_primary_iff (hV : 1 ≤ V) (key : Key) :
    (r.rebuild m V).getBuddyNode key ≠ (r.rebuild m V).getPrimaryNode key ↔
      ∃ i ∈ m, i ≠ (r.rebuild m V).getPrimaryNode key := by
  constructor
  · intro hne
    by_contra hall
    simp only [not_exists, not_and, not_not] at hall
    exact hne (buddy_eq_primary hV hall)
  · rintro ⟨i, hi, hne⟩
    exact Follows.ne (buddy_follows hV hi hne)

end Lookup

end DistKV.ConsistentHashRing
