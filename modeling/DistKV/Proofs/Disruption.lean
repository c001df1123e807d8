/-
What adding or removing one node does to routing.

Two rings are compared, one over a map and one over the same map with one node
more, in either direction.  Taking the extra node's tokens out of the larger ring
gives the tokens of the smaller one, so the statements are
`Succession.Leads.without` and `Succession.Follows.without` read through
`primary_leads` and `buddy_follows`.
-/
import DistKV.Proofs.Ring

namespace DistKV.ConsistentHashRing

open Succession

/-- `m'` maps the nodes of `m` and one more. -/
structure Joins (n : NodeId) (m m' : NodeMap) : Prop where
  fresh : n ∉ m
  mem : ∀ i, i ∈ m' ↔ i = n ∨ i ∈ m

/-- Adding an entry to the map is a join. -/
theorem joins_insert {n : NodeId} {m : NodeMap} (hn : n ∉ m) (endpoint : Endpoint) :
    Joins n m (m.insert n endpoint) := ⟨hn, fun _ => AList.mem_insert m⟩

theorem Joins.mem_of_mem {n : NodeId} {m m' : NodeMap} (h : Joins n m m') {i : NodeId}
    (hi : i ∈ m) : i ∈ m' := (h.mem i).mpr (Or.inr hi)

theorem Joins.mem_self {n : NodeId} {m m' : NodeMap} (h : Joins n m m') : n ∈ m' :=
  (h.mem n).mpr (Or.inl rfl)

theorem Joins.mem_of_ne {n : NodeId} {m m' : NodeMap} (h : Joins n m m') {i : NodeId}
    (hi : i ∈ m') (hne : i ≠ n) : i ∈ m := ((h.mem i).mp hi).resolve_left hne

theorem Joins.tokensOf {n : NodeId} {m m' : NodeMap} (h : Joins n m m') (V : Int) :
    Succession.without Token.nodeId n (tokensOf V {i | i ∈ m'}) = tokensOf V {i | i ∈ m} := by
  ext t
  constructor
  · rintro ⟨⟨hmem, ht⟩, hne⟩
    exact ⟨h.mem_of_ne hmem hne, ht⟩
  · rintro ⟨hmem, ht⟩
    refine ⟨⟨h.mem_of_mem hmem, ht⟩, fun hc => h.fresh ?_⟩
    rw [← hc]
    exact hmem

section Compare

variable {n : NodeId} {m m' : NodeMap} {V : Int} {r r' : ConsistentHashRing}

/-- The primary changes hands only to or from the extra node. -/
theorem primary_of_join (h : Joins n m m') (hV : 1 ≤ V) {key : Key}
    (hne : (r'.rebuild m' V).getPrimaryNode key ≠ n) :
    (r'.rebuild m' V).getPrimaryNode key = (r.rebuild m V).getPrimaryNode key := by
  have hlead := primary_leads (r := r') hV h.mem_self key
  have hsmall := Leads.without hlead hne
  rw [h.tokensOf V] at hsmall
  have hmem : (r'.rebuild m' V).getPrimaryNode key ∈ m :=
    h.mem_of_ne (primary_mem hV h.mem_self key) hne
  exact Leads.unique nodeId_eq_of_clockwise hsmall (primary_leads hV hmem key)

/-- Where the extra node is the primary, its buddy is the primary of the smaller ring. -/
theorem buddy_of_join_primary (h : Joins n m m') (hV : 1 ≤ V) {key : Key} {i : NodeId}
    (hi : i ∈ m) (hp : (r'.rebuild m' V).getPrimaryNode key = n) :
    (r'.rebuild m' V).getBuddyNode key = (r.rebuild m V).getPrimaryNode key := by
  have hne : i ≠ (r'.rebuild m' V).getPrimaryNode key := by
    rw [hp]
    rintro rfl
    exact h.fresh hi
  have hfollow := buddy_follows hV (h.mem_of_mem hi) hne
  rw [hp, Follows, h.tokensOf V] at hfollow
  exact Leads.unique nodeId_eq_of_clockwise hfollow (primary_leads hV hi key)

/-- Where the extra node is neither primary nor buddy, the buddy stays. -/
theorem buddy_of_join (h : Joins n m m') (hV : 1 ≤ V) {key : Key} {i : NodeId} (hi : i ∈ m)
    (hi' : i ≠ (r'.rebuild m' V).getPrimaryNode key)
    (hp : (r'.rebuild m' V).getPrimaryNode key ≠ n)
    (hb : (r'.rebuild m' V).getBuddyNode key ≠ n) :
    (r'.rebuild m' V).getBuddyNode key = (r.rebuild m V).getBuddyNode key := by
  have hfollow := Follows.without (buddy_follows (r := r') hV (h.mem_of_mem hi) hi') hb
  have hprim := primary_of_join (r := r) h hV hp
  rw [h.tokensOf V, hprim] at hfollow
  rw [hprim] at hi'
  exact Follows.unique nodeId_eq_of_clockwise hfollow (buddy_follows hV hi hi')

/-- A buddy changes hands only to the extra node, as long as the primary does not. -/
theorem buddy_of_join_cases (h : Joins n m m') (hV : 1 ≤ V) {key : Key} {i : NodeId}
    (hi : i ∈ m) (hp : (r'.rebuild m' V).getPrimaryNode key ≠ n) :
    (r'.rebuild m' V).getBuddyNode key = n ∨
      (r'.rebuild m' V).getBuddyNode key = (r.rebuild m V).getBuddyNode key := by
  by_cases hb : (r'.rebuild m' V).getBuddyNode key = n
  · exact Or.inl hb
  by_cases hall : ∃ j ∈ m, j ≠ (r'.rebuild m' V).getPrimaryNode key
  · obtain ⟨j, hj, hne⟩ := hall
    exact Or.inr (buddy_of_join h hV hj hne hp hb)
  · -- the primary is the only old node, and the extra one is its buddy
    simp only [not_exists, not_and, not_not] at hall
    have hne := (buddy_ne_primary_iff (r := r') hV key).mpr ⟨n, h.mem_self, fun hn => hp hn.symm⟩
    have hmem := h.mem_of_ne (buddy_mem (r := r') hV (h.mem_of_mem hi) key) hb
    exact absurd (hall _ hmem) hne

end Compare

theorem exists_mem_ne {m : NodeMap} (hm : 2 ≤ m.keys.length) (p : NodeId) : ∃ i ∈ m, i ≠ p := by
  by_contra hall
  simp only [not_exists, not_and, not_not] at hall
  have hsub : m.keys ⊆ [p] := fun i hi => by simpa using hall i hi
  have := (m.keys_nodup.subperm hsub).length_le
  simp at this
  omega

/-- **Minimal disruption and replica succession.**  Against the ring over `m`, the
ring with `n` added (a) keeps every primary it does not give to `n`, (b) where it
does, has the old primary as buddy, and (c) keeps every other buddy it does not
give to `n`. -/
theorem join_moves_only_to_new (n : NodeId) (m m' : NodeMap) (h : Joins n m m') (V : Int)
    (hV : 1 ≤ V) (r r' : ConsistentHashRing) (key : Key) :
    ((r'.rebuild m' V).getPrimaryNode key = n ∨
      (r'.rebuild m' V).getPrimaryNode key = (r.rebuild m V).getPrimaryNode key) ∧
    ((r'.rebuild m' V).getPrimaryNode key = n → m.keys ≠ [] →
      (r'.rebuild m' V).getBuddyNode key = (r.rebuild m V).getPrimaryNode key) ∧
    ((r'.rebuild m' V).getPrimaryNode key ≠ n → 2 ≤ m.keys.length →
      (r'.rebuild m' V).getBuddyNode key = n ∨
        (r'.rebuild m' V).getBuddyNode key = (r.rebuild m V).getBuddyNode key) := by
  refine ⟨?_, ?_, ?_⟩
  · by_cases hp : (r'.rebuild m' V).getPrimaryNode key = n
    · exact Or.inl hp
    · exact Or.inr (primary_of_join h hV hp)
  · intro hp hm
    obtain ⟨i, hi⟩ := List.exists_mem_of_ne_nil _ hm
    exact buddy_of_join_primary h hV hi hp
  · intro hp hm
    by_cases hb : (r'.rebuild m' V).getBuddyNode key = n
    · exact Or.inl hb
    · obtain ⟨i, hi, hne⟩ := exists_mem_ne hm ((r'.rebuild m' V).getPrimaryNode key)
      exact Or.inr (buddy_of_join h hV hi hne hp hb)

def twoNodes : NodeMap := ((∅ : NodeMap).insert 1 (str "b:8080")).insert 0 (str "a:8080")

def threeNodes : NodeMap := twoNodes.insert 2 (str "c:8080")

def ringOfTwo : ConsistentHashRing := rebuild {} twoNodes 2

def ringOfThree : ConsistentHashRing := rebuild {} threeNodes 2

theorem join_moves_only_to_new_third :
    (ringOfThree.getPrimaryNode 7 = 2 ∨
      ringOfThree.getPrimaryNode 7 = ringOfTwo.getPrimaryNode 7) ∧
    (ringOfThree.getPrimaryNode 7 = 2 → twoNodes.keys ≠ [] →
      ringOfThree.getBuddyNode 7 = ringOfTwo.getPrimaryNode 7) ∧
    (ringOfThree.getPrimaryNode 7 ≠ 2 → 2 ≤ twoNodes.keys.length →
      ringOfThree.getBuddyNode 7 = 2 ∨
        ringOfThree.getBuddyNode 7 = ringOfTwo.getBuddyNode 7) :=
  join_moves_only_to_new 2 twoNodes threeNodes (joins_insert (by decide) _) 2 (by decide) {} {} 7

end DistKV.ConsistentHashRing
