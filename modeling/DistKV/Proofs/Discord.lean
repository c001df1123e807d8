/-
Replicas that contradict each other.

Primary and buddy of a key may differ in that one of them lacks it, as after a join, but
they should not hold two values.  Joins see to that: a newcomer is empty.  So do reads,
updates and deletes, whatever the values are.  An insert of a key that a client has
inserted before is refused where the key is and taken where it is not, and after a join
these are the two replicas of one key.  Along a run the replicas concur exactly if every
insert finds the key at both, at neither, or at one with the value it brings itself.
-/
import DistKV.Proofs.LazyMigration

namespace DistKV

open Replica Machine

namespace Session

variable {D : Deployment} {V : Int} {s : Session} {c : Conditions} {n : NodeId} {m : NodeMap}

/-- A call that is delivered and finds the memory it needs, or a join. -/
def CallOrJoin (D : Deployment) (s : Session) : Event → Prop
  | .call _ c => c.Ample ∧ c.Delivered
  | .rebuild m => ∃ n, s.Join D n m

/-- An insert of a key that just one of its replicas has brings the value held there. -/
def InsertFits (D : Deployment) (s : Session) : Event → Prop
  | .call (.insert key value) _ =>
      Fits (cStr value) (s.dist.primary key) (s.dist.buddy key) (s.column D key)
  | _ => True

/-- No key has two values at its replicas. -/
def Concurs (D : Deployment) (s : Session) : Prop :=
  ∀ key, Concur (s.dist.primary key) (s.dist.buddy key) (s.column D key)

/-- Over an empty ring the two replicas are one place. -/
theorem concurs_of_empty (h : s.dist.hashRing.ring = []) : s.Concurs D := by
  intro key
  rw [KVDistributor.primary_of_empty h, KVDistributor.buddy_of_empty h]
  exact concur_self _ _

/-- What a write does to replicas that concur. -/
theorem concurs_write_iff (hs : s.Wired D V) (h : s.Concurs D) {op : Op} {w : StoreOp}
    (hw : op.storeOp = some w) {a : Write Bytes} (ha : w.write = some a)
    (hkey : s.Placed op.key) (hc : c.Ample) (hd : c.Delivered) :
    (s.exec c op).2.Concurs D ↔ ∀ v, a = .insert v →
      Fits v (s.dist.primary op.key) (s.dist.buddy op.key) (s.column D op.key) := by
  have htakes : ∀ i, takes c D s.dist s.cluster w i = true :=
    fun i => (serves_of_smooth hc hd s.dist i).takes hs w
  have hiff := concur_replicate_iff (w := a) (h op.key) (htakes _) (htakes _)
  unfold Concurs
  rw [hs.dist_exec hkey]
  constructor
  · intro hafter
    have hkeyAfter := hafter op.key
    rw [exec_write hs hw ha hkey, if_pos rfl] at hkeyAfter
    exact hiff.mp hkeyAfter
  · intro hfits key
    rw [exec_write hs hw ha hkey]
    by_cases hk : key = op.key
    · rw [if_pos hk, hk]
      exact hiff.mpr hfits
    · rw [if_neg hk]
      exact h key

/-- A `get` leaves replicas that concur in accord. -/
theorem Concurs.get (h : s.Concurs D) (hs : s.Wired D V) {key : Key} (hkey : s.Placed key) :
    (s.exec c (.get key)).2.Concurs D := by
  intro key'
  have hget : s.Placed (Op.get key).key := hkey
  rw [hs.dist_exec hget]
  obtain hsame | ⟨value, hb, hput⟩ := column_get_any (c := c) hs hkey
  · rw [hsame key']
    exact h key'
  · rw [hput key']
    by_cases hk : key' = key
    · rw [if_pos hk, hk]
      exact (h key).put hb
    · rw [if_neg hk]
      exact h key'

/-- A call turns replicas against each other if and only if it is an insert that does not
fit. -/
theorem concurs_exec_iff (hs : s.Wired D V) (h : s.Concurs D) (hc : c.Ample)
    (hd : c.Delivered) (op : Op) :
    (s.exec c op).2.Concurs D ↔ s.InsertFits D (.call op c) := by
  obtain hplaced | hempty := hs.placed_or_empty
  · rcases op with ⟨key, value⟩ | ⟨key, newValue⟩ | ⟨key⟩ | ⟨key⟩
    · rw [concurs_write_iff hs h rfl rfl (hplaced _) hc hd]
      constructor
      · intro hfits
        exact hfits _ rfl
      · intro hfits v hv
        rw [← Write.insert.inj hv]
        exact hfits
    · rw [concurs_write_iff hs h rfl rfl (hplaced _) hc hd]
      refine iff_of_true ?_ trivial
      intro v hv
      cases hv
    · rw [concurs_write_iff hs h rfl rfl (hplaced _) hc hd]
      refine iff_of_true ?_ trivial
      intro v hv
      cases hv
    · exact iff_of_true (h.get hs (hplaced key)) trivial
  · rw [exec_of_empty hempty]
    refine iff_of_true h ?_
    rcases op with ⟨key, value⟩ | ⟨key, newValue⟩ | ⟨key⟩ | ⟨key⟩
    · show Fits _ (s.dist.primary key) (s.dist.buddy key) _
      rw [KVDistributor.primary_of_empty hempty, KVDistributor.buddy_of_empty hempty]
      intro x hx
      rcases hx with ⟨hsome, hnone⟩ | ⟨hnone, hsome⟩
      · exact absurd (hnone.symm.trans hsome) (by simp)
      · exact absurd (hnone.symm.trans hsome) (by simp)
    · trivial
    · trivial
    · trivial

/-- A join brings no second value to the replicas of a key, since the newcomer is empty. -/
theorem Concurs.join (h : s.Concurs D) (hs : s.Wired D V) (hjoin : s.Join D n m) :
    (s.rebuild m V).Concurs D := by
  intro key
  show Concur _ _ (s.column D key)
  by_cases hV : 1 ≤ V
  · by_cases hnode : ∃ i, i ∈ s.dist.nodeToIp
    · obtain ⟨i, hi⟩ := hnode
      by_cases hp : (s.rebuild m V).dist.primary key = n
      · rw [hp]
        exact concur_of_none (Or.inl (hjoin.empty key))
      · obtain hb | hb := hjoin.buddy hs hV hi hp
        · rw [hb]
          exact concur_of_none (Or.inr (hjoin.empty key))
        · obtain hprimary | ⟨hn, -⟩ := hjoin.primary hs hV hi key
          · rw [hprimary, hb]
            exact h key
          · exact absurd hn hp
    · -- the first node there is is both replicas of every key
      have hp : (s.rebuild m V).dist.primary key ∈ m :=
        (hs.rebuild hjoin.locates).primary_mem hV hjoin.joins.mem_self key
      have hn : (s.rebuild m V).dist.primary key = n := by
        by_contra hne
        exact hnode ⟨_, hjoin.joins.mem_of_ne hp hne⟩
      rw [hn]
      exact concur_of_none (Or.inl (hjoin.empty key))
  · have hring : (s.rebuild m V).dist.hashRing.ring = [] := if_pos (by omega)
    exact concurs_of_empty (D := D) hring key

theorem Wired.step (hs : s.Wired D V) {e : Event} (he : s.CallOrJoin D e) :
    (s.step V e).Wired D V := by
  rcases e with ⟨op, c⟩ | m
  · obtain hplaced | hempty := hs.placed_or_empty
    · exact hs.exec (hplaced op.key)
    · show (s.exec c op).2.Wired D V
      rw [exec_of_empty hempty]
      exact hs
  · obtain ⟨n, hjoin⟩ := he
    exact hs.rebuild hjoin.locates

theorem concurs_step_iff (hs : s.Wired D V) (h : s.Concurs D) {e : Event}
    (he : s.CallOrJoin D e) : (s.step V e).Concurs D ↔ s.InsertFits D e := by
  rcases e with ⟨op, c⟩ | m
  · obtain ⟨hc, hd⟩ := he
    exact concurs_exec_iff hs h hc hd op
  · obtain ⟨n, hjoin⟩ := he
    exact iff_of_true (h.join hs hjoin) trivial

/-- **Replicas concur.**  Nodes join with empty stores, and every call is delivered.  In
every session passed through, no key has two values at its replicas, if and only if every
insert finds the key at both, at neither, or at one with the very value it brings. -/
theorem replicas_concur_iff (D : Deployment) (V : Int) (s : Session) (hs : s.Wired D V)
    (hempty : s.Empty D) (es : List Event) (hes : Along (step V) (CallOrJoin D) s es) :
    (∀ pre, pre <+: es → ∀ (key : Key) (x y : Bytes),
      (run (step V) s pre).column D key ((run (step V) s pre).dist.primary key) = some x →
      (run (step V) s pre).column D key ((run (step V) s pre).dist.buddy key) = some y →
        x = y) ↔
    Along (step V) (InsertFits D) s es := by
  have hstart : s.Concurs D := fun key => concur_of_none (Or.inl (hempty key _))
  constructor
  · intro h
    refine along_iff.mpr fun pre e hpre => ?_
    have hwired : (run (step V) s pre).Wired D V :=
      (hes.initial ((List.prefix_append pre [e]).trans hpre)).invariant hs
        fun _ _ ht he => ht.step he
    have hbefore : (run (step V) s pre).Concurs D :=
      fun key => h pre ((List.prefix_append pre [e]).trans hpre) key
    have hafter : (run (step V) s (pre ++ [e])).Concurs D := fun key => h _ hpre key
    rw [run_snoc] at hafter
    exact (concurs_step_iff hwired hbefore (along_iff.mp hes pre e hpre)).mp hafter
  · intro hfits pre hpre
    have hboth : (run (step V) s pre).Wired D V ∧ (run (step V) s pre).Concurs D :=
      ((hes.and hfits).initial hpre).invariant (I := fun t => t.Wired D V ∧ t.Concurs D)
        ⟨hs, hstart⟩ fun _ _ ht he =>
          ⟨ht.1.step he.1, (concurs_step_iff ht.1 ht.2 he.1).mpr he.2⟩
    exact hboth.2

/-- Node 1 takes key 2 over from node 0, and the key is inserted once more. -/
def insertedTwice : List Event :=
  [.call (.insert 2 (str "v")) .fine, .rebuild (Deployment.byLength.mapOf [1, 0]),
   .call (.insert 2 (str "w")) .fine]

theorem insertedTwice_along :
    Along (step 2) (CallOrJoin .byLength) (start .byLength 2 [0]) insertedTwice := by
  have hfine : Conditions.fine.Ample ∧ Conditions.fine.Delivered :=
    ⟨Conditions.fine_ample, Conditions.fine_delivered⟩
  have hproper : Proper (str "v") := ⟨by decide, by decide⟩
  refine ⟨hfine, ⟨1, Deployment.locates_mapOf (by decide), ?_, ?_⟩, hfine, trivial⟩
  · exact @Deployment.joins_mapOf .byLength [0] 1 [1, 0] (by decide) (by simp)
  · intro key
    refine ((start_inOrder (by decide)).column_of_not_mem (hproper.insert 2)
      (start_placed (by decide) List.mem_cons_self (by decide) 2) ?_ key).trans
      (start_column key 1)
    intro h
    exact absurd (Deployment.mem_mapOf.mp h) (by decide)

theorem replicas_concur_iff_one :
    (∀ pre, pre <+: insertedTwice → ∀ (key : Key) (x y : Bytes),
      (run (step 2) (start .byLength 2 [0]) pre).column .byLength key
        ((run (step 2) (start .byLength 2 [0]) pre).dist.primary key) = some x →
      (run (step 2) (start .byLength 2 [0]) pre).column .byLength key
        ((run (step 2) (start .byLength 2 [0]) pre).dist.buddy key) = some y → x = y) ↔
    Along (step 2) (InsertFits .byLength) (start .byLength 2 [0]) insertedTwice :=
  replicas_concur_iff .byLength 2 (start .byLength 2 [0]) (start_wired (by decide))
    start_column insertedTwice insertedTwice_along

/-- The new primary takes the second insert, and the old one has the first. -/
theorem insert_parts_replicas : ¬ ∀ (D : Deployment) (V : Int) (s : Session)
    (es : List Event) (key : Key) (x y : Bytes), s.Wired D V → s.Empty D →
    Along (step V) (CallOrJoin D) s es →
    (run (step V) s es).column D key ((run (step V) s es).dist.primary key) = some x →
    (run (step V) s es).column D key ((run (step V) s es).dist.buddy key) = some y →
    x = y := by
  intro h
  have heq := h .byLength 2 (start .byLength 2 [0]) insertedTwice 2 (str "w") (str "v")
    (start_wired (by decide)) start_column insertedTwice_along (by decide +kernel)
    (by decide +kernel)
  exact absurd heq (by decide)

end Session

end DistKV
