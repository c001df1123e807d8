/-
How `rebuild` lays out a ring.

The tokens of a node are evenly spaced.  With `V` of them the space from one to the next is
`2^32 / V`, so all of them together go around the circle at most once, and cutting positions
back to 32 bits neither makes two of them meet nor brings two of them nearer than that.  A
ring has each of these tokens once, so its order, which `rebuild_pairwise` leaves open to
equals, is strict.
-/
import DistKV.Proofs.KeyRanges

namespace DistKV.ConsistentHashRing

variable {r : ConsistentHashRing} {m : NodeMap} {V : Int} {i : NodeId}

/-! ### Evenly spaced positions -/

/-- Two positions that are at least `gap` apart, either way around the circle. -/
def FarApart (gap : Nat) (p q : UInt32) : Prop := gap ≤ (p - q).toNat ∧ gap ≤ (q - p).toNat

theorem FarApart.symm {gap : Nat} {p q : UInt32} (h : FarApart gap p q) : FarApart gap q p :=
  ⟨h.2, h.1⟩

theorem FarApart.ne {gap : Nat} {p q : UInt32} (h : FarApart gap p q) (hgap : 1 ≤ gap) :
    p ≠ q := by
  rintro rfl
  have hzero : (p - p).toNat = 0 := by
    rw [UInt32.sub_self]
    rfl
  have hle := h.1
  omega

/-- The way on from a position and the way back to it are once around the circle. -/
theorem farApart_of_toNat {gap : Nat} {p q : UInt32} (hp : gap ≤ (p - q).toNat)
    (hq : (p - q).toNat + gap ≤ 2 ^ 32) (hgap : 1 ≤ gap) : FarApart gap p q := by
  refine ⟨hp, ?_⟩
  rw [UInt32.toNat_sub] at hp hq ⊢
  have := p.toNat_lt
  have := q.toNat_lt
  omega

/-- From one place to a later one it is as many spaces as there are between them. -/
theorem spaced_sub (base d : Nat) {v w : Nat} (hvw : v ≤ w) :
    UInt32.ofNat (base + w * d) - UInt32.ofNat (base + v * d) = UInt32.ofNat ((w - v) * d) := by
  have hsum : base + w * d = (w - v) * d + (base + v * d) := by
    have hmul : (w - v) * d + v * d = w * d := by
      rw [← Nat.add_mul, Nat.sub_add_cancel hvw]
    omega
  rw [hsum, UInt32.ofNat_add, UInt32.add_sub_cancel]

/-- Places that go around the circle at most once are a space apart. -/
theorem spaced_farApart {base d n v w : Nat} (hd : 1 ≤ d) (hround : n * d ≤ 2 ^ 32) (hw : w < n)
    (hvw : v < w) :
    FarApart d (UInt32.ofNat (base + w * d)) (UInt32.ofNat (base + v * d)) := by
  have hone : d ≤ (w - v) * d := Nat.le_mul_of_pos_left d (Nat.sub_pos_of_lt hvw)
  have hlast : (w - v) * d + d ≤ 2 ^ 32 := by
    have hmul : (w - v + 1) * d ≤ n * d := Nat.mul_le_mul_right d (by omega)
    rw [Nat.add_mul, Nat.one_mul] at hmul
    exact hmul.trans hround
  have hdist : (UInt32.ofNat (base + w * d) - UInt32.ofNat (base + v * d)).toNat =
      (w - v) * d := by
    have hlt : (w - v) * d < 2 ^ 32 := by omega
    rw [spaced_sub base d hvw.le, UInt32.toNat_ofNat_of_lt' hlt]
  exact farApart_of_toNat (hdist ▸ hone) (hdist ▸ hlast) hd

/-- With an `int` of tokens, the interval is the ring space over their number, and the tokens
of a node go around the ring once. -/
theorem interval_eq (hV : 1 ≤ V) (hmax : V ≤ 2 ^ 32) :
    interval V = 2 ^ 32 / V.toNat ∧ 1 ≤ interval V ∧ V.toNat * interval V ≤ 2 ^ 32 := by
  have hone : 1 ≤ 2 ^ 32 / V.toNat := (Nat.one_le_div_iff (by omega)).mpr (by omega)
  have heq : interval V = 2 ^ 32 / V.toNat := max_eq_right hone
  rw [heq]
  exact ⟨rfl, hone, Nat.mul_div_le _ _⟩

theorem tokenPosition_farApart (hV : 1 ≤ V) (hmax : V ≤ 2 ^ 32) {v w : Nat} (hv : v < V.toNat)
    (hw : w < V.toNat) (hne : v ≠ w) :
    FarApart (2 ^ 32 / V.toNat) (tokenPosition V i v) (tokenPosition V i w) := by
  obtain ⟨heq, hone, hround⟩ := interval_eq hV hmax
  rw [← heq]
  rcases Nat.lt_or_gt_of_ne hne with hlt | hgt
  · exact (spaced_farApart hone hround hw hlt).symm
  · exact spaced_farApart hone hround hv hgt

/-! ### The tokens of a node -/

theorem nodeTokens_nodup (hV : 1 ≤ V) (hmax : V ≤ 2 ^ 32) (i : NodeId) :
    (nodeTokens V i).Nodup := by
  obtain ⟨heq, hone, -⟩ := interval_eq hV hmax
  refine List.nodup_range.map_on fun v hv w hw hsame => ?_
  by_contra hne
  have hfar := tokenPosition_farApart (i := i) hV hmax (List.mem_range.mp hv)
    (List.mem_range.mp hw) hne
  exact hfar.ne (heq ▸ hone) (congrArg Token.position hsame)

theorem nodeTokens_farApart (hV : 1 ≤ V) (hmax : V ≤ 2 ^ 32) {a b : Token}
    (ha : a ∈ nodeTokens V i) (hb : b ∈ nodeTokens V i) (hne : a ≠ b) :
    FarApart (2 ^ 32 / V.toNat) a.position b.position := by
  obtain ⟨v, hv, rfl⟩ := mem_nodeTokens.mp ha
  obtain ⟨w, hw, rfl⟩ := mem_nodeTokens.mp hb
  refine tokenPosition_farApart hV hmax hv hw fun hsame => hne ?_
  rw [hsame]

theorem length_nodeTokens (V : Int) (i : NodeId) : (nodeTokens V i).length = V.toNat := by
  unfold nodeTokens
  rw [List.length_map, List.length_range]

/-! ### The ring -/

/-- No token is in a ring twice. -/
theorem rebuild_nodup (hV : 1 ≤ V) (hmax : V ≤ 2 ^ 32) : (r.rebuild m V).ring.Nodup := by
  have hneg : ¬ V ≤ 0 := by omega
  unfold rebuild
  dsimp only
  rw [if_neg hneg]
  refine (List.perm_insertionSort _ _).nodup_iff.mpr (List.nodup_flatMap.mpr
    ⟨fun i _ => nodeTokens_nodup hV hmax i, m.keys_nodup.imp fun hne t ht ht' => hne ?_⟩)
  rw [← nodeId_of_mem_nodeTokens ht, ← nodeId_of_mem_nodeTokens ht']

/-- The tokens that a ring has of a mapped node. -/
theorem mem_filter_ring (hV : 1 ≤ V) (hi : i ∈ m) {t : Token} :
    t ∈ (r.rebuild m V).ring.filter (·.nodeId = i) ↔ t ∈ nodeTokens V i := by
  rw [List.mem_filter, decide_eq_true_iff, mem_rebuild hV]
  constructor
  · rintro ⟨⟨-, ht⟩, hid⟩
    rw [← hid]
    exact ht
  · intro ht
    have hid := nodeId_of_mem_nodeTokens ht
    refine ⟨⟨?_, ?_⟩, hid⟩
    · rw [hid]
      exact hi
    · rw [hid]
      exact ht

/-- What every ring is that is laid out for the nodes of a map with `V` tokens each. -/
structure Laid (m : NodeMap) (V : Int) (ring : List Token) : Prop where
  increasing : ring.Pairwise fun a b =>
    a.position < b.position ∨ a.position = b.position ∧ a.nodeId < b.nodeId
  mapped : ∀ t ∈ ring, t.nodeId ∈ m
  count : ∀ i ∈ m, (ring.filter (·.nodeId = i)).length = V.toNat
  spaced : ∀ i ∈ m, (ring.filter (·.nodeId = i)).Pairwise fun a b =>
    a.position ≠ b.position ∧ FarApart (2 ^ 32 / V.toNat) a.position b.position

theorem rebuild_laid (hV : 1 ≤ V) (hmax : V ≤ 2 ^ 32) : Laid m V (r.rebuild m V).ring where
  increasing := by
    have hnodup : (r.rebuild m V).ring.Nodup := rebuild_nodup hV hmax
    refine ((rebuild_pairwise r m V).and hnodup).imp fun h => ?_
    exact rank_lt_iff.mp (h.1.lt_of_ne fun heq => h.2 (rank_injective heq))
  mapped := fun t ht => ((mem_rebuild hV).mp ht).1
  count := by
    intro i hi
    have hperm := (List.perm_ext_iff_of_nodup ((rebuild_nodup hV hmax).filter _)
      (nodeTokens_nodup hV hmax i)).mpr fun t => mem_filter_ring (r := r) hV hi
    rw [hperm.length_eq, length_nodeTokens]
  spaced := by
    intro i hi
    obtain ⟨heq, hone, -⟩ := interval_eq hV hmax
    refine ((rebuild_nodup hV hmax).filter _).pairwise_of_forall_ne fun a ha b hb hne => ?_
    have hfar := nodeTokens_farApart hV hmax ((mem_filter_ring hV hi).mp ha)
      ((mem_filter_ring hV hi).mp hb) hne
    exact ⟨hfar.ne (heq ▸ hone), hfar⟩

/-- **What `rebuild` leaves.**  Whatever was in the ring before, it is empty if there are to be
no tokens or no nodes; and else it is in strict order of position and node id, and has `V`
tokens of each node of the map, at least `2^32 / V` apart on the circle, and no others.  An
`int` is less than `2^32`. -/
theorem rebuild_represents (r : ConsistentHashRing) (m : NodeMap) (V : Int)
    (hmax : V ≤ 2 ^ 32) :
    (V ≤ 0 ∨ m.keys = [] → (r.rebuild m V).ring = []) ∧
      (¬ (V ≤ 0 ∨ m.keys = []) → Laid m V (r.rebuild m V).ring) := by
  constructor
  · intro hnone
    unfold rebuild
    dsimp only
    by_cases hV : V ≤ 0
    · rw [if_pos hV]
    · rw [if_neg hV, hnone.resolve_left hV]
      rfl
  · intro hsome
    have hV : 1 ≤ V := by
      by_contra hlt
      exact hsome (Or.inl (by omega))
    exact rebuild_laid hV hmax

theorem rebuild_represents_two :
    Laid zeroOne 2 (({} : ConsistentHashRing).rebuild zeroOne 2).ring :=
  (rebuild_represents {} zeroOne 2 (by decide)).2 (by decide)

end DistKV.ConsistentHashRing
