/-
When a node owns nothing.

Where several tokens are at one position, the one of the smallest node id is found there
and the others never are.  So a node owns a part of the ring exactly if one of its tokens is
at a position that no smaller id has a token at.  As the tokens of a node are evenly spaced,
two nodes can meet at all of them at once.
-/
import DistKV.Proofs.KeyRanges

namespace DistKV.ConsistentHashRing

open Succession

variable {r : ConsistentHashRing} {m : NodeMap} {V : Int} {h : UInt32} {i : NodeId}

theorem leads_iff_owner (hV : 1 ≤ V) (hi : i ∈ m) (h : UInt32) (n : NodeId) :
    Leads (clockwise h) Token.nodeId (tokensOf V {i | i ∈ m}) n ↔
      (r.rebuild m V).owner h = n := by
  have howner := owner_leads (r := r) hV hi h
  constructor
  · intro hleads
    exact howner.unique nodeId_eq_of_clockwise hleads
  · intro heq
    rw [← heq]
    exact howner

/-- Nothing is nearer to a position than what is at it. -/
theorem clockwise_le_iff {t u : Token} : clockwise t.position t ≤ clockwise t.position u ↔
    (u.position = t.position → t.nodeId ≤ u.nodeId) := by
  have hself : (t.position - t.position).toNat = 0 := by
    rw [UInt32.sub_self]
    rfl
  have hzero : (u.position - t.position).toNat = 0 ↔ u.position = t.position := by
    rw [← UInt32.toNat_inj, UInt32.toNat_sub]
    have := t.position.toNat_lt
    have := u.position.toNat_lt
    omega
  unfold clockwise
  rw [Prod.Lex.toLex_le_toLex, hself]
  dsimp only
  rw [Nat.pos_iff_ne_zero, eq_comm, ne_eq, hzero]
  by_cases hsame : u.position = t.position
  · simp [hsame]
  · simp [hsame]

/-- A token that is found at its own position. -/
def Unshadowed (m : NodeMap) (V : Int) (t : Token) : Prop :=
  ∀ j ∈ m, j < t.nodeId → ∀ u ∈ nodeTokens V j, u.position ≠ t.position

/-- A node owns a part of the ring if it has a token that is found. -/
theorem exists_owner_iff (hV : 1 ≤ V) (hi : i ∈ m) :
    (∃ h, (r.rebuild m V).owner h = i) ↔ ∃ t ∈ nodeTokens V i, Unshadowed m V t := by
  simp only [← leads_iff_owner (r := r) hV hi]
  constructor
  · rintro ⟨h, t, ht, rfl, hleast⟩
    refine ⟨t, ht.2, fun j hj hlt u hu heq => ?_⟩
    have hid := nodeId_of_mem_nodeTokens hu
    rw [← hid] at hu hj hlt
    have hle := hleast u ⟨hj, hu⟩
    unfold clockwise at hle
    rw [heq, Prod.Lex.toLex_le_toLex] at hle
    simp only [lt_irrefl, true_and, false_or] at hle
    exact absurd hlt (not_lt.mpr hle)
  · rintro ⟨t, ht, hfound⟩
    have hid := nodeId_of_mem_nodeTokens ht
    rw [← hid] at ht hi
    refine ⟨t.position, t, ⟨hi, ht⟩, hid, fun u hu => clockwise_le_iff.mpr fun hsame => ?_⟩
    by_contra hlt
    exact hfound u.nodeId hu.1 (not_le.mp hlt) u hu.2 hsame

/-- **No node is starved** exactly if each has a token at a position of its own, or shares one
only with larger ids. -/
theorem no_node_starves_iff (r : ConsistentHashRing) (m : NodeMap) (V : Int) (hV : 1 ≤ V) :
    (∀ i ∈ m, ∃ h, (r.rebuild m V).owner h = i) ↔
      ∀ i ∈ m, ∃ v < V.toNat, ∀ j ∈ m, j < i → ∀ w < V.toNat,
        tokenPosition V j w ≠ tokenPosition V i v := by
  refine forall₂_congr fun i hi => ?_
  rw [exists_owner_iff hV hi]
  unfold Unshadowed
  constructor
  · rintro ⟨t, ht, hfound⟩
    obtain ⟨v, hv, rfl⟩ := mem_nodeTokens.mp ht
    exact ⟨v, hv, fun j hj hlt w hw => hfound j hj hlt _ (mem_nodeTokens.mpr ⟨w, hw, rfl⟩)⟩
  · rintro ⟨v, hv, hfound⟩
    refine ⟨_, mem_nodeTokens.mpr ⟨v, hv, rfl⟩, fun j hj hlt u hu => ?_⟩
    obtain ⟨w, hw, rfl⟩ := mem_nodeTokens.mp hu
    exact hfound j hj hlt w hw

theorem no_node_starves_iff_two :
    (∀ i ∈ zeroOne, ∃ h, (({} : ConsistentHashRing).rebuild zeroOne 2).owner h = i) ↔
      ∀ i ∈ zeroOne, ∃ v < (2 : Int).toNat, ∀ j ∈ zeroOne, j < i → ∀ w < (2 : Int).toNat,
        tokenPosition 2 j w ≠ tokenPosition 2 i v :=
  no_node_starves_iff {} zeroOne 2 (by decide)

/-- Two nodes whose hashes differ by half of the ring. -/
def opposite : NodeMap := [⟨7701, str "a:1"⟩, ⟨43627, str "b:1"⟩].toAList

/-- With the two tokens that every node has by default, the second one owns nothing. -/
theorem opposite_node_starves : ¬ ∀ (r : ConsistentHashRing) (m : NodeMap) (V : Int), 1 ≤ V →
    V * m.keys.length ≤ 2 ^ 32 → ∀ i ∈ m, ∃ h, (r.rebuild m V).owner h = i := by
  intro hall
  have hmem : (43627 : NodeId) ∈ opposite := by decide
  have howns := hall {} opposite 2 (by decide) (by decide) 43627 hmem
  rw [exists_owner_iff (by decide) hmem] at howns
  obtain ⟨t, ht, hfound⟩ := howns
  have hshadow : ∀ t ∈ nodeTokens 2 43627, ∃ u ∈ nodeTokens 2 7701, u.position = t.position := by
    decide
  obtain ⟨u, hu, heq⟩ := hshadow t ht
  have hid := nodeId_of_mem_nodeTokens ht
  exact hfound 7701 (by decide) (by rw [hid]; decide) u hu heq

end DistKV.ConsistentHashRing
