/-
The published ranges against the routing.

A token is looked up by exactly the hashes behind its predecessor, up to its own position
(`findToken_eq_iff`), and its published ranges hold exactly these hashes but the last one
of the ring, unless all tokens of a longer ring are at one position
(`exists_tokenRanges_iff`).  So what is published is right and no hash is published twice.
What is missing are the hash `UINT32_MAX`, which no half-open range has room for, and the
whole ring where every token is at the same position.
-/
import DistKV.KeyRanges
import DistKV.Proofs.Routing

namespace DistKV

/-- A hash that is in the range. -/
def KeyRange.Has (range : KeyRange) (h : UInt32) : Prop := range.start ≤ h ∧ h < range.stop

/-- Two ranges with no hash in common. -/
def KeyRange.Apart (a b : KeyRange) : Prop := ∀ h, ¬ (a.Has h ∧ b.Has h)

namespace ConsistentHashRing

open Succession

variable {r : ConsistentHashRing} {h : UInt32} {i j : Nat}

/-! ### The share of a token -/

/-- The ring is in the order that `rebuild` leaves it in. -/
abbrev Sorted (r : ConsistentHashRing) : Prop := r.ring.Pairwise fun a b => rank a ≤ rank b

theorem token_eq (hi : i < r.ring.length) : r.token i = r.ring[i] := by
  unfold token
  rw [List.getD_eq_getElem?_getD, List.getElem?_eq_getElem hi, Option.getD_some]

theorem position_le (hr : r.Sorted) (hij : i ≤ j) (hj : j < r.ring.length) :
    (r.token i).position ≤ (r.token j).position := by
  rcases Nat.eq_or_lt_of_le hij with rfl | hlt
  · exact UInt32.le_refl _
  · have hle := List.pairwise_iff_getElem.mp hr i j (hlt.trans hj) hj hlt
    rw [rank, rank, Prod.Lex.toLex_le_toLex] at hle
    rw [token_eq (hlt.trans hj), token_eq hj, UInt32.le_iff_toNat_le]
    exact hle.elim Nat.le_of_lt fun heq => heq.1.le

/-- The token before the one at `i`, around the ring. -/
def previous (r : ConsistentHashRing) (i : Nat) : Token :=
  r.token ((i + r.ring.length - 1) % r.ring.length)

theorem previous_zero (hr : r.ring ≠ []) : r.previous 0 = r.token (r.ring.length - 1) := by
  have hpos : 0 < r.ring.length := List.length_pos_iff.mpr hr
  unfold previous
  rw [Nat.zero_add, Nat.mod_eq_of_lt (by omega)]

theorem previous_succ (hi : i + 1 < r.ring.length) : r.previous (i + 1) = r.token i := by
  unfold previous
  rw [show i + 1 + r.ring.length - 1 = i + r.ring.length by omega, Nat.add_mod_right,
    Nat.mod_eq_of_lt (by omega)]

/-- **The share of a token**: what lies behind its predecessor up to its own position, and for
the first one also what lies past the last one. -/
theorem findToken_eq_iff (hr : r.Sorted) (hi : i < r.ring.length) : r.findToken h = i ↔
    if i = 0 then h ≤ (r.token i).position ∨ (r.previous i).position < h
    else h ≤ (r.token i).position ∧ (r.previous i).position < h := by
  have hne : r.ring ≠ [] := List.length_pos_iff.mp (by omega)
  have hlast : (∀ x ∈ r.ring, (!decide (x.position < h)) = false) ↔
      (r.token (r.ring.length - 1)).position < h := by
    constructor
    · intro hall
      have hmem := hall (r.token (r.ring.length - 1)) (by
        rw [token_eq (by omega)]
        exact List.getElem_mem _)
      simpa using hmem
    · intro hlt x hx
      obtain ⟨k, hk, rfl⟩ := List.getElem_of_mem hx
      have hle := position_le hr (show k ≤ r.ring.length - 1 by omega) (by omega)
      rw [token_eq hk] at hle
      simpa using UInt32.lt_of_le_of_lt hle hlt
  unfold findToken
  dsimp only
  by_cases hend : (r.ring.findIdx fun t => !decide (t.position < h)) = r.ring.length
  · have hpast := hlast.mp (List.findIdx_eq_length.mp hend)
    rw [if_pos hend]
    by_cases hzero : i = 0
    · rw [if_pos hzero, hzero, previous_zero hne]
      exact iff_of_true rfl (Or.inr hpast)
    · rw [if_neg hzero]
      refine iff_of_false (fun heq => hzero heq.symm) fun hshare => ?_
      have hle := position_le hr (show i ≤ r.ring.length - 1 by omega) (by omega)
      exact UInt32.not_lt.mpr hshare.1 (UInt32.lt_of_le_of_lt hle hpast)
  · have hnot : ¬ (r.token (r.ring.length - 1)).position < h := fun hlt =>
      hend (List.findIdx_eq_length.mpr (hlast.mpr hlt))
    rw [if_neg hend, List.findIdx_eq hi, ← token_eq hi]
    simp only [Bool.not_eq_true', decide_eq_false_iff_not, Bool.not_eq_false', decide_eq_true_eq,
      UInt32.not_lt]
    rcases i with _ | i
    · rw [if_pos rfl, previous_zero hne, or_iff_left hnot]
      exact and_iff_left fun k hk => absurd hk (Nat.not_lt_zero k)
    · rw [if_neg (Nat.succ_ne_zero i), previous_succ hi]
      refine and_congr_right fun _ => ?_
      constructor
      · intro hall
        rw [token_eq (by omega)]
        exact hall i (Nat.lt_succ_self i)
      · intro hlt k hk
        have hle := position_le hr (show k ≤ i by omega) (by omega)
        rw [token_eq (show k < r.ring.length by omega)] at hle
        exact UInt32.lt_of_le_of_lt hle hlt

/-! ### What is published for a token -/

theorem toNat_add_one (p : UInt32) : (p + 1).toNat = (p.toNat + 1) % 2 ^ 32 := by
  rw [UInt32.toNat_add]
  rfl

/-- The ranges of a token hold its share without the last hash there is; a token that shares
its position with its predecessor has a range only where it is its own predecessor. -/
theorem exists_tokenRanges_iff : (∃ range ∈ r.tokenRanges i, range.Has h) ↔
    h ≠ uint32Max ∧
      if (r.previous i).position < (r.token i).position then
        h ≤ (r.token i).position ∧ (r.previous i).position < h
      else if (r.token i).position < (r.previous i).position then
        h ≤ (r.token i).position ∨ (r.previous i).position < h
      else r.ring.length = 1 := by
  have hprev : (r.token ((i + r.ring.length - 1) % r.ring.length)).position =
    (r.previous i).position := rfl
  unfold tokenRanges
  dsimp only
  rw [hprev]
  clear hprev
  generalize (r.previous i).position = p
  generalize (r.token i).position = c
  have hp := p.toNat_lt
  have hc := c.toNat_lt
  have hh := h.toNat_lt
  have hmax : uint32Max.toNat = 4294967295 := rfl
  have hzero : (0 : UInt32).toNat = 0 := rfl
  have hstart := toNat_add_one p
  have hstop := toNat_add_one c
  split_ifs <;>
    simp only [List.mem_cons, List.not_mem_nil, or_false, exists_eq_or_imp, exists_eq_left,
      KeyRange.Has, UInt32.lt_iff_toNat_lt, UInt32.le_iff_toNat_le, gt_iff_lt, ne_eq,
      ← UInt32.toNat_inj, false_and, exists_false, false_iff] at * <;>
    omega

theorem tokenRanges_apart (r : ConsistentHashRing) (i : Nat) :
    (r.tokenRanges i).Pairwise KeyRange.Apart := by
  unfold tokenRanges
  dsimp only
  split_ifs with hlt hgt hpos hone
  · exact List.pairwise_singleton _ _
  · refine List.pairwise_pair.mpr fun h hboth => ?_
    exact UInt32.not_lt.mpr hboth.1.1 (UInt32.lt_trans hboth.2.2 hgt)
  · exact List.pairwise_singleton _ _
  · exact List.pairwise_singleton _ _
  · exact List.Pairwise.nil

/-- **What is published for a token is looked up at it.** -/
theorem findToken_of_has (hr : r.Sorted) (hi : i < r.ring.length) {range : KeyRange}
    (hmem : range ∈ r.tokenRanges i) (hhas : range.Has h) : r.findToken h = i := by
  have hne : r.ring ≠ [] := List.length_pos_iff.mp (by omega)
  obtain ⟨-, hshare⟩ := exists_tokenRanges_iff.mp ⟨range, hmem, hhas⟩
  rw [findToken_eq_iff hr hi]
  rcases i with _ | i
  · rw [if_pos rfl]
    split_ifs at hshare
    · exact Or.inl hshare.1
    · exact hshare
    · -- the only token is looked up by everything
      have hself : r.previous 0 = r.token 0 := by
        rw [previous_zero hne, hshare]
      rw [hself, ← UInt32.not_lt]
      exact (em _).symm
  · have hle : (r.previous (i + 1)).position ≤ (r.token (i + 1)).position := by
      rw [previous_succ hi]
      exact position_le hr (Nat.le_succ i) hi
    rw [if_neg (Nat.succ_ne_zero i)]
    split_ifs at hshare with hlt hgt
    · exact hshare
    · exact absurd hgt (UInt32.not_lt.mpr hle)
    · omega

/-- **What is missing**: a hash is published for the token it looks up, unless it is the last
one there is, or every token of a ring of several is at the same position. -/
theorem exists_range_iff (hr : r.Sorted) (hne : r.ring ≠ []) (h : UInt32) :
    (∃ range ∈ r.tokenRanges (r.findToken h), range.Has h) ↔
      h ≠ uint32Max ∧ (r.ring.length = 1 ∨
        (r.token 0).position ≠ (r.token (r.ring.length - 1)).position) := by
  have hlt := findToken_lt hne h
  have hshare := (findToken_eq_iff (h := h) hr hlt).mp rfl
  rw [exists_tokenRanges_iff]
  refine and_congr_right fun _ => ?_
  rcases hi : r.findToken h with _ | i
  · rw [hi, if_pos rfl] at hshare
    have hle : (r.token 0).position ≤ (r.previous 0).position := by
      rw [previous_zero hne]
      exact position_le hr (Nat.zero_le _) (Nat.sub_lt (List.length_pos_iff.mpr hne) one_pos)
    rw [if_neg (UInt32.not_lt.mpr hle), ← previous_zero hne]
    split_ifs with hgt
    · exact iff_of_true hshare (Or.inr (UInt32.ne_of_lt hgt))
    · have heq := UInt32.le_antisymm hle (UInt32.not_lt.mp hgt)
      exact (or_iff_left (not_not.mpr heq)).symm
  · rw [hi] at hlt hshare
    rw [if_neg (Nat.succ_ne_zero i)] at hshare
    have hbetween := UInt32.lt_of_lt_of_le hshare.2 hshare.1
    rw [if_pos hbetween]
    refine iff_of_true hshare (Or.inr (UInt32.ne_of_lt ?_))
    rw [previous_succ hlt] at hbetween
    have hfirst := position_le hr (Nat.zero_le i) (Nat.lt_of_succ_lt hlt)
    have hlast := position_le hr (show i + 1 ≤ r.ring.length - 1 by omega) (by omega)
    exact UInt32.lt_of_le_of_lt hfirst (UInt32.lt_of_lt_of_le hbetween hlast)

/-! ### The listings -/

theorem mem_getKeyRangeAssignments {a : KeyRangeAssignment} : a ∈ r.getKeyRangeAssignments ↔
    ∃ i < r.ring.length, a.range ∈ r.tokenRanges i ∧ a.primaryNodeId = (r.token i).nodeId ∧
      a.buddyNodeId = r.tokenBuddy i := by
  unfold getKeyRangeAssignments
  simp only [List.mem_flatMap, List.mem_range, List.mem_map]
  constructor
  · rintro ⟨i, hi, range, hrange, rfl⟩
    exact ⟨i, hi, hrange, rfl, rfl⟩
  · rintro ⟨i, hi, hrange, hprimary, hbuddy⟩
    refine ⟨i, hi, a.range, hrange, ?_⟩
    rw [← hprimary, ← hbuddy]

theorem lookup_pushRange (nodeId id : NodeId) (ranges : List KeyRange) (result : RangeMap) :
    ((ranges.foldl (pushRange nodeId) result).lookup id).getD [] =
      (result.lookup id).getD [] ++ if nodeId = id then ranges else [] := by
  induction ranges generalizing result with
  | nil =>
      split
      · exact (List.append_nil _).symm
      · exact (List.append_nil _).symm
  | cons range ranges ih =>
      rw [List.foldl_cons, ih]
      unfold pushRange
      by_cases hid : nodeId = id
      · rw [if_pos hid, if_pos hid, hid, AList.lookup_insert, Option.getD_some, List.append_assoc,
          List.singleton_append]
      · rw [if_neg hid, if_neg hid, AList.lookup_insert_ne fun heq => hid heq.symm]

/-- The ranges under a node are those of its tokens, one after the other. -/
theorem lookup_getKeyRanges (r : ConsistentHashRing) (id : NodeId) :
    (r.getKeyRanges.lookup id).getD [] =
      (List.range r.ring.length).flatMap fun i =>
        if (r.token i).nodeId = id then r.tokenRanges i else [] := by
  unfold getKeyRanges
  have hfold : ∀ (is : List Nat) (result : RangeMap),
      ((is.foldl (fun result i => (r.tokenRanges i).foldl (pushRange (r.token i).nodeId) result)
        result).lookup id).getD [] =
      (result.lookup id).getD [] ++ is.flatMap fun i =>
        if (r.token i).nodeId = id then r.tokenRanges i else [] := by
    intro is
    induction is with
    | nil =>
        intro result
        exact (List.append_nil _).symm
    | cons i is ih =>
        intro result
        rw [List.foldl_cons, ih, lookup_pushRange, List.flatMap_cons, List.append_assoc]
  exact hfold _ ∅

theorem mem_getKeyRanges {id : NodeId} {range : KeyRange} :
    range ∈ (r.getKeyRanges.lookup id).getD [] ↔
      ∃ i < r.ring.length, (r.token i).nodeId = id ∧ range ∈ r.tokenRanges i := by
  rw [lookup_getKeyRanges]
  simp only [List.mem_flatMap, List.mem_range]
  refine exists_congr fun i => and_congr_right fun _ => ?_
  split
  · rename_i hid
    exact (and_iff_right hid).symm
  · rename_i hid
    exact iff_of_false List.not_mem_nil fun h => hid h.1

theorem mem_listed_iff {id : NodeId} {ranges : List KeyRange} {range : KeyRange}
    (hlookup : r.getKeyRanges.lookup id = some ranges) :
    range ∈ ranges ↔ ∃ i < r.ring.length, (r.token i).nodeId = id ∧ range ∈ r.tokenRanges i := by
  rw [← mem_getKeyRanges, hlookup, Option.getD_some]

/-- No two ranges of a node's tokens meet, whichever tokens are left out. -/
theorem flatMap_apart (hr : r.Sorted) (p : Nat → Prop) [DecidablePred p] :
    ((List.range r.ring.length).flatMap fun i => if p i then r.tokenRanges i else []).Pairwise
      KeyRange.Apart := by
  have hsub : ∀ i range, range ∈ (if p i then r.tokenRanges i else []) →
      range ∈ r.tokenRanges i := by
    intro i range hmem
    split at hmem
    · exact hmem
    · cases hmem
  refine List.pairwise_flatMap.mpr ⟨fun i _ => ?_, ?_⟩
  · split
    · exact r.tokenRanges_apart i
    · exact List.Pairwise.nil
  · refine List.nodup_range.imp_of_mem fun {i j} hi hj hne a ha b hb h hboth => hne ?_
    rw [← findToken_of_has hr (List.mem_range.mp hi) (hsub i a ha) hboth.1,
      findToken_of_has hr (List.mem_range.mp hj) (hsub j b hb) hboth.2]

theorem assignments_apart (hr : r.Sorted) :
    r.getKeyRangeAssignments.Pairwise fun a b => a.range.Apart b.range := by
  have hall := flatMap_apart hr fun _ => True
  simp only [if_true] at hall
  have hranges : r.getKeyRangeAssignments.map KeyRangeAssignment.range =
      (List.range r.ring.length).flatMap r.tokenRanges := by
    unfold getKeyRangeAssignments
    rw [List.map_flatMap]
    refine congrArg (fun f => (List.range r.ring.length).flatMap f) (funext fun i => ?_)
    rw [List.map_map]
    exact List.map_id _
  rw [← hranges] at hall
  exact List.pairwise_map.mp hall

theorem keyRanges_apart (hr : r.Sorted) :
    (r.getKeyRanges.entries.flatMap Sigma.snd).Pairwise KeyRange.Apart := by
  have hentry : ∀ entry ∈ r.getKeyRanges.entries,
      r.getKeyRanges.lookup entry.1 = some entry.2 := fun entry hmem =>
    AList.mem_lookup_iff.mpr hmem
  refine List.pairwise_flatMap.mpr ⟨fun entry hmem => ?_, ?_⟩
  · have hranges := r.lookup_getKeyRanges entry.1
    rw [hentry entry hmem, Option.getD_some] at hranges
    rw [hranges]
    exact flatMap_apart hr fun i => (r.token i).nodeId = entry.1
  · have hkeys : r.getKeyRanges.entries.Pairwise fun a b => a.1 ≠ b.1 :=
      List.pairwise_map.mp r.getKeyRanges.nodupKeys
    refine hkeys.imp_of_mem fun {e e'} he he' hne a ha b hb h hboth => hne ?_
    obtain ⟨i, hi, hid, hmem⟩ := (mem_listed_iff (hentry e he)).mp ha
    obtain ⟨j, hj, hjd, hmem'⟩ := (mem_listed_iff (hentry e' he')).mp hb
    rw [← hid, ← hjd, ← findToken_of_has hr hi hmem hboth.1,
      ← findToken_of_has hr hj hmem' hboth.2]

/-! ### Against the routing -/

/-- The two searches for a buddy find the same token. -/
theorem getBuddyNode_eq_tokenBuddy (hr : r.ring ≠ []) (key : Key) :
    r.getBuddyNode key = r.tokenBuddy (r.findToken (hashKey key)) := by
  have hpos : 0 < r.ring.length := List.length_pos_iff.mpr hr
  have hlt := findToken_lt hr (hashKey key)
  have hwalk : r.walkFrom (hashKey key) = (List.range r.ring.length).map fun j =>
      r.token ((r.findToken (hashKey key) + j) % r.ring.length) := by
    refine List.ext_getElem? fun j => ?_
    rw [List.getElem?_map]
    by_cases hj : j < r.ring.length
    · rw [walkFrom_getElem? hr _ hj, List.getElem?_range hj, Option.map_some]
    · rw [List.getElem?_eq_none (by rw [walkFrom, List.length_rotate]; omega),
        List.getElem?_eq_none (by rw [List.length_range]; omega), Option.map_none]
  have hrange : List.range r.ring.length = 0 :: List.range' 1 (r.ring.length - 1) := by
    rw [List.range_eq_range']
    exact List.range'_eq_cons_iff.mpr ⟨rfl, hpos, rfl⟩
  have hself : (r.findToken (hashKey key) + 0) % r.ring.length = r.findToken (hashKey key) := by
    rw [Nat.add_zero, Nat.mod_eq_of_lt hlt]
  rw [getBuddyNode_eq hr, getPrimaryNode_eq hr, hwalk, List.find?_map, hrange,
    List.find?_cons_of_neg]
  · unfold tokenBuddy
    dsimp only [Function.comp_def]
    split
    · rename_i hfind
      rw [hfind]
      rfl
    · rename_i hfind
      rw [hfind]
      rfl
  · rw [Function.comp_apply, hself]
    simp

/-- **What is published never contradicts the routing**, and no hash is published twice. -/
theorem published_ranges_route (r : ConsistentHashRing) (m : NodeMap) (V : Int) :
    (∀ a ∈ (r.rebuild m V).getKeyRangeAssignments, ∀ key, a.range.Has (hashKey key) →
      (r.rebuild m V).getPrimaryNode key = a.primaryNodeId ∧
        (r.rebuild m V).getBuddyNode key = a.buddyNodeId) ∧
    (∀ id ranges, (r.rebuild m V).getKeyRanges.lookup id = some ranges → ∀ range ∈ ranges,
      ∀ key, range.Has (hashKey key) → (r.rebuild m V).getPrimaryNode key = id) ∧
    ((r.rebuild m V).getKeyRangeAssignments.Pairwise fun a b => a.range.Apart b.range) ∧
    ((r.rebuild m V).getKeyRanges.entries.flatMap Sigma.snd).Pairwise KeyRange.Apart := by
  have hr : (r.rebuild m V).Sorted := rebuild_pairwise r m V
  refine ⟨fun a ha key hhas => ?_, fun id ranges hlookup range hrange key hhas => ?_,
    assignments_apart hr, keyRanges_apart hr⟩
  · obtain ⟨i, hi, hmem, hprimary, hbuddy⟩ := mem_getKeyRangeAssignments.mp ha
    have hne : (r.rebuild m V).ring ≠ [] := List.length_pos_iff.mp (by omega)
    have hfind := findToken_of_has hr hi hmem hhas
    rw [getPrimaryNode_eq hne, getBuddyNode_eq_tokenBuddy hne, hfind, hprimary, hbuddy]
    exact ⟨rfl, rfl⟩
  · obtain ⟨i, hi, hid, hmem⟩ := (mem_listed_iff hlookup).mp hrange
    have hne : (r.rebuild m V).ring ≠ [] := List.length_pos_iff.mp (by omega)
    rw [getPrimaryNode_eq hne, findToken_of_has hr hi hmem hhas, hid]

/-- A range that holds the hash is published under the node that the hash belongs to. -/
def Published (r : ConsistentHashRing) (h : UInt32) : Prop :=
  ∃ ranges, r.getKeyRanges.lookup (r.owner h) = some ranges ∧ ∃ range ∈ ranges, range.Has h

theorem published_iff (hr : r.Sorted) (hne : r.ring ≠ []) : r.Published h ↔
    h ≠ uint32Max ∧ (r.ring.length = 1 ∨
      (r.token 0).position ≠ (r.token (r.ring.length - 1)).position) := by
  rw [← exists_range_iff hr hne]
  constructor
  · rintro ⟨ranges, hlookup, range, hrange, hhas⟩
    obtain ⟨i, hi, -, hmem⟩ := (mem_listed_iff hlookup).mp hrange
    rw [findToken_of_has hr hi hmem hhas]
    exact ⟨range, hmem, hhas⟩
  · rintro ⟨range, hrange, hhas⟩
    have hmem : range ∈ (r.getKeyRanges.lookup (r.owner h)).getD [] :=
      mem_getKeyRanges.mpr ⟨_, findToken_lt hne h, rfl, hrange⟩
    rcases hlookup : r.getKeyRanges.lookup (r.owner h) with _ | ranges
    · rw [hlookup] at hmem
      cases hmem
    · rw [hlookup] at hmem
      exact ⟨ranges, hlookup, range, hmem, hhas⟩

/-! ### What the positions of a ring are -/

section Positions

variable {m : NodeMap} {V : Int}

/-- Where token `v` of a node is. -/
def tokenPosition (V : Int) (n : NodeId) (v : Nat) : UInt32 :=
  UInt32.ofNat ((hashNodeId n).toNat + v * interval V)

theorem mem_nodeTokens {n : NodeId} {t : Token} : t ∈ nodeTokens V n ↔
    ∃ v < V.toNat, { position := tokenPosition V n v, nodeId := n } = t := by
  unfold nodeTokens
  simp only [List.mem_map, List.mem_range]
  rfl

theorem mem_ring {n : NodeId} (hV : 1 ≤ V) (hn : n ∈ m) {v : Nat} (hv : v < V.toNat) :
    { position := tokenPosition V n v, nodeId := n } ∈ (r.rebuild m V).ring :=
  (mem_rebuild hV).mpr ⟨hn, mem_nodeTokens.mpr ⟨v, hv, rfl⟩⟩

/-- The first token of a node is at its hash. -/
theorem tokenPosition_zero (V : Int) (n : NodeId) : tokenPosition V n 0 = hashNodeId n := by
  unfold tokenPosition
  rw [Nat.zero_mul, Nat.add_zero, UInt32.ofNat_toNat]

/-- The next one is somewhere else. -/
theorem tokenPosition_one_ne (hV : 2 ≤ V) (n : NodeId) :
    tokenPosition V n 1 ≠ tokenPosition V n 0 := by
  have hpos : 1 ≤ interval V := Nat.le_max_left _ _
  have hle : interval V ≤ 2 ^ 31 :=
    max_le (by omega) ((Nat.div_le_div_left (show 2 ≤ V.toNat by omega) (by omega)).trans
      (by omega))
  have hlt := (hashNodeId n).toNat_lt
  rw [tokenPosition_zero]
  unfold tokenPosition
  intro heq
  have hnat := congrArg UInt32.toNat heq
  rw [UInt32.toNat_ofNat'] at hnat
  omega

theorem first_ne_last_iff (hr : r.Sorted) (hne : r.ring ≠ []) :
    (r.token 0).position ≠ (r.token (r.ring.length - 1)).position ↔
      ∃ t ∈ r.ring, ∃ t' ∈ r.ring, t.position ≠ t'.position := by
  have hpos : 0 < r.ring.length := List.length_pos_iff.mpr hne
  constructor
  · intro hends
    refine ⟨r.token 0, ?_, r.token (r.ring.length - 1), ?_, hends⟩
    · rw [token_eq hpos]
      exact List.getElem_mem _
    · rw [token_eq (by omega)]
      exact List.getElem_mem _
  · rintro ⟨t, ht, t', ht', hne⟩ heq
    have hsame : ∀ x ∈ r.ring, x.position = (r.token 0).position := by
      intro x hx
      obtain ⟨k, hk, rfl⟩ := List.getElem_of_mem hx
      have hfirst := position_le hr (Nat.zero_le k) hk
      have hlast := position_le hr (show k ≤ r.ring.length - 1 by omega) (by omega)
      rw [← heq] at hlast
      rw [← token_eq hk]
      exact UInt32.le_antisymm hlast hfirst
    exact hne ((hsame t ht).trans (hsame t' ht').symm)

/-- There are tokens at different positions where nodes have several or hash differently. -/
theorem positions_differ_iff (hV : 1 ≤ V) (hm : m.keys ≠ []) :
    (∃ t ∈ (r.rebuild m V).ring, ∃ t' ∈ (r.rebuild m V).ring, t.position ≠ t'.position) ↔
      2 ≤ V ∨ ∃ i ∈ m, ∃ j ∈ m, hashNodeId i ≠ hashNodeId j := by
  have hfirst : 0 < V.toNat := by omega
  constructor
  · rintro ⟨t, hmem, t', hmem', hne⟩
    obtain ⟨hi, ht⟩ := (mem_rebuild hV).mp hmem
    obtain ⟨hj, ht'⟩ := (mem_rebuild hV).mp hmem'
    by_cases hmany : 2 ≤ V
    · exact Or.inl hmany
    · have hbase : ∀ {x : Token}, x ∈ nodeTokens V x.nodeId →
          x.position = hashNodeId x.nodeId := by
        intro x hx
        obtain ⟨v, hv, heq⟩ := mem_nodeTokens.mp hx
        rw [← tokenPosition_zero V, ← show v = 0 by omega, ← heq]
      refine Or.inr ⟨t.nodeId, hi, t'.nodeId, hj, ?_⟩
      rw [← hbase ht, ← hbase ht']
      exact hne
  · rintro (hmany | ⟨i, hi, j, hj, hne⟩)
    · obtain ⟨i, hi⟩ := exists_mem_of_keys hm
      exact ⟨_, mem_ring hV hi (show 1 < V.toNat by omega), _, mem_ring hV hi hfirst,
        tokenPosition_one_ne hmany i⟩
    · refine ⟨_, mem_ring hV hi hfirst, _, mem_ring hV hj hfirst, ?_⟩
      dsimp only
      rw [tokenPosition_zero, tokenPosition_zero]
      exact hne

/-- A ring of one token is over one node. -/
theorem keys_length_of_ring (hV : 1 ≤ V) (hm : m.keys ≠ [])
    (hone : (r.rebuild m V).ring.length = 1) : m.keys.length = 1 := by
  obtain ⟨t, ht⟩ := List.length_eq_one_iff.mp hone
  have hid : ∀ i ∈ m, i = t.nodeId := by
    intro i hi
    have hmem := mem_ring (r := r) hV hi (show 0 < V.toNat by omega)
    rw [ht, List.mem_singleton] at hmem
    exact congrArg Token.nodeId hmem
  obtain ⟨i, hi⟩ := exists_mem_of_keys hm
  refine keys_length_eq_one hi fun j hj => ?_
  rw [hid j hj, hid i hi]

theorem ring_length_of_keys (hone : m.keys.length = 1) :
    (r.rebuild m 1).ring.length = 1 := by
  obtain ⟨i, hi⟩ := List.length_eq_one_iff.mp hone
  unfold rebuild
  dsimp only
  rw [if_neg (by omega), List.length_insertionSort, hi]
  rfl

/-- **The published ranges cover the ring** except for its last hash, and not at all where
several nodes have one token each and all of them at the same position. -/
theorem ranges_cover_iff (r : ConsistentHashRing) (m : NodeMap) (V : Int) (hV : 1 ≤ V)
    (hm : m.keys ≠ []) (h : UInt32) :
    (r.rebuild m V).Published h ↔ h ≠ uint32Max ∧
      (m.keys.length = 1 ∨ 2 ≤ V ∨ ∃ i ∈ m, ∃ j ∈ m, hashNodeId i ≠ hashNodeId j) := by
  have hr : (r.rebuild m V).Sorted := rebuild_pairwise r m V
  obtain ⟨i, hi⟩ := exists_mem_of_keys hm
  have hne : (r.rebuild m V).ring ≠ [] := rebuild_ne_nil hV hi
  rw [published_iff hr hne, first_ne_last_iff hr hne, positions_differ_iff hV hm]
  refine and_congr_right fun _ => ?_
  constructor
  · exact Or.imp_left (keys_length_of_ring hV hm)
  · intro hcover
    by_cases hmany : 2 ≤ V
    · exact Or.inr (Or.inl hmany)
    · refine hcover.imp_left fun hone => ?_
      rw [show V = 1 by omega]
      exact ring_length_of_keys hone

theorem ranges_cover_iff_two : (({} : ConsistentHashRing).rebuild zeroOne 2).Published 7 ↔
    (7 : UInt32) ≠ uint32Max ∧ (zeroOne.keys.length = 1 ∨ (2 : Int) ≤ 2 ∨
      ∃ i ∈ zeroOne, ∃ j ∈ zeroOne, hashNodeId i ≠ hashNodeId j) :=
  ranges_cover_iff {} zeroOne 2 (by decide) (by decide) 7

/-- The last hash is in no range. -/
theorem last_hash_unpublished : ¬ ∀ (r : ConsistentHashRing) (m : NodeMap) (V : Int) (h : UInt32),
    1 ≤ V → m.keys ≠ [] → (r.rebuild m V).Published h := by
  intro hall
  have hlast := hall {} zeroOne 2 uint32Max (by decide) (by decide)
  obtain ⟨i, hi⟩ := exists_mem_of_keys (show zeroOne.keys ≠ [] by decide)
  have hne : (({} : ConsistentHashRing).rebuild zeroOne 2).ring ≠ [] :=
    rebuild_ne_nil (by decide) hi
  exact ((published_iff (rebuild_pairwise _ _ _) hne).mp hlast).1 rfl

end Positions

end ConsistentHashRing

end DistKV
