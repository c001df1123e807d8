/-
Adding nodes.

A node that joins starts out empty, and the keys it takes over are copied to it when
they are next read.  Until then a key is at the old primary, which the ring makes the
new primary's buddy.  One join is covered by that.  A second one, before a read has
moved the key, makes the first newcomer the buddy, or the primary, and then no replica
has the key: a join keeps a key readable when it leaves the key's replicas alone, or
when it finds the key at its primary, and not otherwise.
-/
import DistKV.Proofs.Failover

namespace DistKV

open Replica Machine

namespace Session

variable {D : Deployment} {V : Int} {s : Session} {c : Conditions} {i n : NodeId} {key : Key}
  {value : Bytes} {m : NodeMap}

/-- A rebuild that adds node `n`, whose store is empty. -/
structure Join (D : Deployment) (s : Session) (n : NodeId) (m : NodeMap) : Prop where
  locates : D.Locates m
  joins : ConsistentHashRing.Joins n s.dist.nodeToIp m
  empty : ∀ key, s.column D key n = none

/-- A `get` that all goes well with, or a join. -/
def GetOrJoin (D : Deployment) (s : Session) : Event → Prop
  | .call (.get _) c => c.Ample ∧ c.Delivered
  | .call _ _ => False
  | .rebuild m => ∃ n, s.Join D n m

/-- Such an event is one or the other. -/
theorem GetOrJoin.eq {e : Event} (he : s.GetOrJoin D e) :
    (∃ key c, e = .call (.get key) c) ∨ ∃ n m, e = .rebuild m ∧ s.Join D n m := by
  cases e with
  | rebuild m =>
      obtain ⟨n, hjoin⟩ := he
      exact Or.inr ⟨n, m, rfl, hjoin⟩
  | call op c =>
      cases op with
      | get key => exact Or.inl ⟨key, c, rfl⟩
      | _ => exact he.elim

/-- A join that leaves the replicas of a key alone, or finds the key at its primary. -/
def Covered (D : Deployment) (V : Int) (key : Key) (value : Bytes) (s : Session) :
    Event → Prop
  | .call _ _ => True
  | .rebuild m =>
      ((s.rebuild m V).dist.primary key = s.dist.primary key ∧
        (s.rebuild m V).dist.buddy key = s.dist.buddy key) ∨
      s.column D key (s.dist.primary key) = some value

/-- A replica of the key holds the value. -/
def Held (D : Deployment) (key : Key) (value : Bytes) (s : Session) : Prop :=
  s.column D key (s.dist.primary key) = some value ∨
    s.column D key (s.dist.buddy key) = some value

/-- What holds in every session of a run of gets and joins: it is in order, it has a
node, and the key has no second value. -/
structure Migrating (D : Deployment) (V : Int) (key : Key) (value : Bytes) (s : Session) :
    Prop extends s.InOrder D V where
  node : ∃ i, i ∈ s.dist.nodeToIp
  only : Only value (s.column D key)

theorem Migrating.placed (hs : s.Migrating D V key value) (hV : 1 ≤ V) (key' : Key) :
    s.Placed key' := by
  obtain ⟨i, hi⟩ := hs.node
  exact hs.toWired.placed hV hi key'

theorem Migrating.step (hs : s.Migrating D V key value) (hV : 1 ≤ V) {e : Event}
    (he : s.GetOrJoin D e) : (s.step V e).Migrating D V key value := by
  obtain ⟨key', c, rfl⟩ | ⟨n, m, rfl, hjoin⟩ := he.eq
  · have hplaced := hs.placed hV key'
    refine ⟨hs.toInOrder.exec (isProper_get key') hplaced, ?_, ?_⟩
    · show ∃ i, i ∈ (s.exec c (.get key')).2.dist.nodeToIp
      rw [hs.toInOrder.dist_get hplaced]
      exact hs.node
    · show Only value ((s.exec c (.get key')).2.column D key)
      rw [hs.toInOrder.column_get hplaced key]
      split
      · rename_i hk
        rw [← hk]
        exact hs.only.fetch
      · exact hs.only
  · exact ⟨hs.toInOrder.rebuild hjoin.locates, ⟨n, hjoin.joins.mem_self⟩, hs.only⟩

/-! ### What a join does to the replicas of a key -/

/-- The primary stays, or is the newcomer, and then the old primary is its buddy. -/
theorem Join.primary (h : s.Join D n m) (hs : s.Wired D V) (hV : 1 ≤ V)
    (hi : i ∈ s.dist.nodeToIp) (key : Key) :
    (s.rebuild m V).dist.primary key = s.dist.primary key ∨
      (s.rebuild m V).dist.primary key = n ∧
        (s.rebuild m V).dist.buddy key = s.dist.primary key := by
  obtain ⟨ring, hring⟩ := hs.ring
  unfold KVDistributor.primary KVDistributor.buddy
  rw [hring]
  by_cases hp : (s.rebuild m V).dist.hashRing.getPrimaryNode key = n
  · exact Or.inr ⟨hp, @ConsistentHashRing.buddy_of_join_primary n s.dist.nodeToIp m V ring
      s.dist.hashRing h.joins hV key i hi hp⟩
  · exact Or.inl (@ConsistentHashRing.primary_of_join n s.dist.nodeToIp m V ring
      s.dist.hashRing h.joins hV key hp)

/-- Under a primary that stays, the buddy stays or is the newcomer. -/
theorem Join.buddy (h : s.Join D n m) (hs : s.Wired D V) (hV : 1 ≤ V)
    (hi : i ∈ s.dist.nodeToIp) (hp : (s.rebuild m V).dist.primary key ≠ n) :
    (s.rebuild m V).dist.buddy key = n ∨
      (s.rebuild m V).dist.buddy key = s.dist.buddy key := by
  obtain ⟨ring, hring⟩ := hs.ring
  unfold KVDistributor.buddy
  rw [hring]
  exact @ConsistentHashRing.buddy_of_join_cases n s.dist.nodeToIp m V ring s.dist.hashRing
    h.joins hV key i hi hp

/-- While a replica holds the key, `get` returns it. -/
theorem Held.get (h : s.Held D key value) (hs : s.Migrating D V key value) (hV : 1 ≤ V)
    (hd : c.Delivered) : (s.exec c (.get key)).1 = some value := by
  rw [hs.toInOrder.result_get (hs.placed hV key),
    hs.only.fetch_of_held (hd.answers _) (hd.answers _) h]
  rfl

/-- No `get` takes the key from a replica, and no join does that is covered. -/
theorem Held.step (h : s.Held D key value) (hs : s.Migrating D V key value) (hV : 1 ≤ V)
    {e : Event} (he : s.GetOrJoin D e) (hc : s.Covered D V key value e) :
    (s.step V e).Held D key value := by
  obtain ⟨key', c, rfl⟩ | ⟨n, m, rfl, hjoin⟩ := he.eq
  · have hplaced := hs.placed hV key'
    show Held D key value (s.exec c (.get key')).2
    unfold Held
    rw [hs.toInOrder.dist_get hplaced, hs.toInOrder.column_get hplaced key]
    by_cases hk : key = key'
    · rw [if_pos hk, ← hk]
      exact h.imp fetch_keeps fetch_keeps
    · rw [if_neg hk]
      exact h
  · show s.column D key ((s.rebuild m V).dist.primary key) = some value ∨
      s.column D key ((s.rebuild m V).dist.buddy key) = some value
    obtain ⟨hp, hb⟩ | hprimary := hc
    · rw [hp, hb]
      exact h
    · obtain ⟨i, hi⟩ := hs.node
      obtain hp | ⟨-, hb⟩ := hjoin.primary hs.toWired hV hi key
      · rw [hp]
        exact Or.inl hprimary
      · rw [hb]
        exact Or.inr hprimary

/-- After a join that is not covered no replica has the key, and `get` says so. -/
theorem get_of_not_covered (hs : s.Migrating D V key value) (hV : 1 ≤ V) {e : Event}
    (he : s.GetOrJoin D e) (hc : ¬ s.Covered D V key value e) :
    ((s.step V e).exec c (.get key)).1 = some rpcFailed := by
  have hs' := hs.step hV he
  obtain ⟨key', c', rfl⟩ | ⟨n, m, rfl, hjoin⟩ := he.eq
  · exact absurd trivial hc
  · obtain ⟨hmoved, hlost⟩ := not_or.mp hc
    obtain ⟨i, hi⟩ := hs.node
    have hold : s.column D key (s.dist.primary key) = none := (hs.only _).resolve_right hlost
    -- the replicas after the join are the newcomer and the old primary, and neither has it
    have hnew : s.column D key ((s.rebuild m V).dist.primary key) = none ∧
        s.column D key ((s.rebuild m V).dist.buddy key) = none := by
      obtain hp | ⟨hp, hb⟩ := hjoin.primary hs.toWired hV hi key
      · rw [hp]
        refine ⟨hold, ?_⟩
        have hn : (s.rebuild m V).dist.primary key ≠ n := by
          rw [hp]
          rintro rfl
          exact hjoin.joins.fresh (hs.placed hV key).primary
        obtain hb | hb := hjoin.buddy hs.toWired hV hi hn
        · rw [hb]
          exact hjoin.empty key
        · exact absurd ⟨hp, hb⟩ hmoved
      · rw [hp, hb]
        exact ⟨hjoin.empty key, hold⟩
    have hmiss : fetch (readable c (s.rebuild m V) key) (writable c D (s.rebuild m V) key)
        ((s.rebuild m V).dist.primary key) ((s.rebuild m V).dist.buddy key)
        ((s.rebuild m V).column D key) = (none, (s.rebuild m V).column D key) :=
      fetch_of_neither (look_eq_none hnew.1) (Or.inr (look_eq_none hnew.2))
    refine (hs'.toInOrder.result_get (hs'.placed hV key)).trans ?_
    exact congrArg (fun x => some (Option.getD x.1 rpcFailed)) hmiss

/-- After its insert the key is at its replicas and nowhere else. -/
theorem migrating_of_insert (hs : s.InOrder D V) (hV : 1 ≤ V) (hi : i ∈ s.dist.nodeToIp)
    (hvalue : Proper value) (hfresh : ∀ i, s.column D key i = none) (hc : c.Ample)
    (hd : c.Delivered) :
    (s.exec c (.insert key value)).2.Migrating D V key value ∧
      (s.exec c (.insert key value)).2.Held D key value := by
  have hplaced : s.Placed (Op.insert key value).key := hs.toWired.placed hV hi key
  have hdist : (s.exec c (.insert key value)).2.dist = s.dist := hs.dist_exec hplaced
  have hcol := hs.column_write (c := c) (hvalue.insert key) rfl hplaced key
  rw [if_pos (show key = (Op.insert key value).key from rfl)] at hcol
  refine ⟨⟨hs.exec (hvalue.insert key) hplaced, ⟨i, hdist ▸ hi⟩, fun j => ?_⟩, Or.inl ?_⟩
  · rw [hcol]
    obtain h | h := replicate_apply (i := j)
    · rw [h]
      exact Or.inl (hfresh j)
    · rw [h, hfresh j]
      exact Or.inr rfl
  · rw [hdist, hcol]
    refine replicate_primary.trans ?_
    rw [if_pos ((serves_of_smooth hc hd _ _).reached hs.toWired rfl), hfresh]
    rfl

/-- **Adding nodes.**  A key inserted once stays readable through gets and joins, in every
session passed through, if and only if every join is covered; unless its value is the
very text of a failure. -/
theorem adding_nodes_keeps_iff (D : Deployment) (V : Int) (hV : 1 ≤ V) (s : Session)
    (hs : s.InOrder D V) (hnode : s.dist.nodeToIp.keys ≠ []) (key : Key) (value : Bytes)
    (hvalue : Proper value) (hfresh : ∀ i, s.column D key i = none) (c : Conditions)
    (hc : c.Ample ∧ c.Delivered) (es : List Event)
    (hes : Along (step V) (GetOrJoin D) (s.exec c (.insert key value)).2 es) :
    (∀ pre, pre <+: es → ∀ c' : Conditions, c'.Ample → c'.Delivered →
      ((run (step V) (s.exec c (.insert key value)).2 pre).exec c' (.get key)).1 =
        some value) ↔
    value = rpcFailed ∨
      Along (step V) (Covered D V key value) (s.exec c (.insert key value)).2 es := by
  obtain ⟨i, hi⟩ := List.exists_mem_of_ne_nil _ hnode
  obtain ⟨hmig, hheld⟩ :=
    migrating_of_insert hs hV (AList.mem_keys.mpr hi) hvalue hfresh hc.1 hc.2
  generalize (s.exec c (.insert key value)).2 = t at hmig hheld hes ⊢
  have hmig' : ∀ pre, pre <+: es → (run (step V) t pre).Migrating D V key value :=
    fun pre hpre => (hes.initial hpre).invariant hmig fun s e hs he => hs.step hV he
  constructor
  · intro hget
    by_cases hv : value = rpcFailed
    · exact Or.inl hv
    · refine Or.inr (along_iff.mpr fun pre e hpre => ?_)
      by_contra hnot
      have hpre' := (List.prefix_append pre [e]).trans hpre
      have hlost := get_of_not_covered (c := c) (hmig' pre hpre') hV (along_iff.mp hes pre e hpre)
        hnot
      rw [← @run_snoc _ _ (step V) t pre e, hget _ hpre c hc.1 hc.2] at hlost
      exact hv (Option.some.inj hlost)
  · rintro (hv | hcov) pre hpre c' - hd
    · have hpm := hmig' pre hpre
      rw [hpm.toInOrder.result_get (hpm.placed hV key)]
      obtain h | h := hpm.only.fetch_fst
      · rw [h, hv]
        rfl
      · rw [h]
        rfl
    · have hheld' : (run (step V) t pre).Migrating D V key value ∧
          (run (step V) t pre).Held D key value :=
        ((hes.and hcov).initial hpre).invariant
          (I := fun t => t.Migrating D V key value ∧ t.Held D key value) ⟨hmig, hheld⟩
          fun s e hs he => ⟨hs.1.step hV he.1, hs.2.step hs.1 hV he.1 he.2⟩
      exact hheld'.2.get hheld'.1 hV hd

/-- Key 2 at node 0, the only one. -/
def stored : Session := ((start .byLength 2 [0]).exec .fine (.insert 2 (str "v"))).2

/-- Two nodes join, one after the other. -/
def twoJoins : List Event :=
  [.rebuild (Deployment.byLength.mapOf [1, 0]), .rebuild (Deployment.byLength.mapOf [2, 1, 0])]

theorem twoJoins_along : Along (step 2) (GetOrJoin .byLength) stored twoJoins := by
  have hproper : Proper (str "v") := ⟨by decide, by decide⟩
  have hempty : ∀ n : NodeId, n ∉ [0] → ∀ key, stored.column .byLength key n = none := by
    intro n hn key
    refine ((start_inOrder (by decide)).column_of_not_mem (hproper.insert 2)
      (start_placed (by decide) List.mem_cons_self (by decide) 2) ?_ key).trans
      (start_column key n)
    exact fun h => hn (Deployment.mem_mapOf.mp h)
  refine ⟨⟨1, Deployment.locates_mapOf (by decide), ?_, hempty 1 (by decide)⟩,
    ⟨2, Deployment.locates_mapOf (by decide), ?_, hempty 2 (by decide)⟩, trivial⟩
  · exact @Deployment.joins_mapOf .byLength [0] 1 [1, 0] (by decide) (by simp)
  · exact @Deployment.joins_mapOf .byLength [1, 0] 2 [2, 1, 0] (by decide) (by simp)

theorem adding_nodes_keeps_iff_two :
    (∀ pre, pre <+: twoJoins → ∀ c' : Conditions, c'.Ample → c'.Delivered →
      ((run (step 2) stored pre).exec c' (.get 2)).1 = some (str "v")) ↔
    str "v" = rpcFailed ∨ Along (step 2) (Covered .byLength 2 2 (str "v")) stored twoJoins :=
  adding_nodes_keeps_iff .byLength 2 (by decide) (start .byLength 2 [0])
    (start_inOrder (by decide)) (by decide) 2 (str "v") ⟨by decide, by decide⟩
    (start_column 2) .fine ⟨Conditions.fine_ample, Conditions.fine_delivered⟩ twoJoins
    twoJoins_along

/-- Each of the two becomes the primary of key 2, and the key is out of reach. -/
theorem two_joins_hide : ¬ ∀ (D : Deployment) (V : Int) (s : Session) (key : Key)
    (value : Bytes) (c : Conditions) (es : List Event) (c' : Conditions), 1 ≤ V →
    s.InOrder D V → s.dist.nodeToIp.keys ≠ [] → Proper value →
    (∀ i, s.column D key i = none) → c.Ample ∧ c.Delivered →
    Along (step V) (GetOrJoin D) (s.exec c (.insert key value)).2 es →
    c'.Ample → c'.Delivered →
    ((run (step V) (s.exec c (.insert key value)).2 es).exec c' (.get key)).1 =
      some value := by
  intro h
  have hget := h .byLength 2 (start .byLength 2 [0]) 2 (str "v") .fine twoJoins .fine
    (by decide) (start_inOrder (by decide)) (by decide) ⟨by decide, by decide⟩
    (start_column 2) ⟨Conditions.fine_ample, Conditions.fine_delivered⟩ twoJoins_along
    Conditions.fine_ample Conditions.fine_delivered
  revert hget
  decide +kernel

end Session

end DistKV
