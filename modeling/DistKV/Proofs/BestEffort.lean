/-
The primary decides, as long as it is not overruled.

When every request to the primaries succeeds, a primary holds what the sequential map
holds, whatever becomes of the requests to the buddies.  There is one way out: a `get`
that misses at the primary asks the buddy, and a buddy that missed a delete still has
the key.  The `get` then returns a deleted value and writes it back to the primary.
-/
import DistKV.Proofs.Failover

namespace DistKV

open Replica Machine

namespace Session

variable {D : Deployment} {V : Int} {s : Session} {c : Conditions} {i : NodeId} {key : Key}
  {ref : Key → Option Bytes}

/-- A call with proper values of which every request to the key's primary succeeds; those
to the buddy may or may not. -/
def PrimarySucceeds (s : Session) : Event → Prop
  | .call op c => op.IsProper ∧ Serves c s.dist (s.dist.primary op.key)
  | .rebuild _ => False

/-- A `get` that misses at the primary does not hear of a value at the buddy. -/
def NotOverruled (D : Deployment) (s : Session) : Event → Prop
  | .call (.get key) c =>
      s.column D key (s.dist.primary key) = none → s.dist.buddy key ≠ s.dist.primary key →
        readable c s key (s.dist.buddy key) = true → s.column D key (s.dist.buddy key) = none
  | _ => True

/-- The primaries hold what `ref` holds. -/
def Decided (D : Deployment) (s : Session) (ref : Key → Option Bytes) : Prop :=
  ∀ key, s.column D key (s.dist.primary key) = ref key

theorem NotOverruled.fetch {writes : NodeId → Bool}
    (h : s.NotOverruled D (.call (.get key) c))
    (hp : readable c s key (s.dist.primary key) = true) :
    fetch (readable c s key) writes (s.dist.primary key) (s.dist.buddy key) (s.column D key) =
      (s.column D key (s.dist.primary key), s.column D key) := by
  refine fetch_of_reads_primary hp fun hnone => ?_
  by_cases hne : s.dist.buddy key = s.dist.primary key
  · exact Or.inl hne
  · refine Or.inr ?_
    by_cases hread : readable c s key (s.dist.buddy key) = true
    · rw [look_of_reads hread]
      exact h hnone hne hread
    · exact if_neg hread

theorem Decided.exec (h : s.Decided D ref) (hs : s.InOrder D V) (hkeys : ∀ key, s.Placed key)
    {op : Op} (he : s.PrimarySucceeds (.call op c)) (hq : s.NotOverruled D (.call op c)) :
    (s.exec c op).2.Decided D (refStep ref (.call op c)) := by
  obtain ⟨hop, hserves⟩ := he
  intro key
  rw [hs.dist_exec (hkeys op.key)]
  cases hw : op.write with
  | some w =>
      rw [hs.column_write hop hw (hkeys op.key) key, refStep_write hw]
      by_cases hk : key = op.key
      · rw [if_pos hk, hk, Function.update_self, replicate_primary,
          if_pos (hserves.reached hs.toWired hw), h op.key]
      · rw [if_neg hk, Function.update_of_ne hk]
        exact h key
  | none =>
      obtain ⟨k, rfl⟩ := Op.eq_get_of_write hw
      rw [hs.column_get (hkeys k) key]
      by_cases hk : key = k
      · rw [if_pos hk, hk, hq.fetch (hserves.readable k)]
        exact h k
      · rw [if_neg hk]
        exact h key

theorem Decided.run (h : s.Decided D ref) (hs : s.InOrder D V) (hkeys : ∀ key, s.Placed key)
    {es : List Event}
    (hes : Along (step V) (fun s e => s.PrimarySucceeds e ∧ s.NotOverruled D e) s es) :
    (run (step V) s es).Decided D (run refStep ref es) ∧
      (run (step V) s es).InOrder D V ∧ (run (step V) s es).dist = s.dist := by
  refine hes.induction (P := fun es t => t.Decided D (Machine.run refStep ref es) ∧
    t.InOrder D V ∧ t.dist = s.dist) ⟨h, hs, rfl⟩ fun es e _ hP he => ?_
  obtain ⟨hdec, hord, hdist⟩ := hP
  have hplaced : ∀ key, (Machine.run (step V) s es).Placed key :=
    fun key => (hkeys key).of_dist hdist
  cases e with
  | call op c =>
      rw [run_snoc]
      refine ⟨hdec.exec hord hplaced he.1 he.2, hord.exec he.1.1 (hplaced op.key), ?_⟩
      exact (hord.dist_exec (hplaced op.key)).trans hdist
  | rebuild m => exact he.1.elim

/-- What a `get` says when it is overruled. -/
theorem result_of_overruled (hs : s.InOrder D V) (hkey : s.Placed key)
    (hnone : s.column D key (s.dist.primary key) = none)
    (hne : s.dist.buddy key ≠ s.dist.primary key)
    (hread : readable c s key (s.dist.buddy key) = true) :
    (s.exec c (.get key)).1 = some ((s.column D key (s.dist.buddy key)).getD rpcFailed) := by
  rw [hs.result_get hkey]
  have hp : look (readable c s key) (s.dist.primary key) (s.column D key) = none :=
    look_eq_none hnone
  cases hb : s.column D key (s.dist.buddy key) with
  | none => rw [fetch_of_neither hp (Or.inr (look_eq_none hb))]
  | some value => rw [fetch_of_buddy hp hne ((look_of_reads hread).trans hb)]

/-- **The primary decides.**  In a run in which requests to the primaries succeed and no
`get` is overruled by a buddy, a `get` answers as the sequential map does if and only if
it is not overruled either, or the buddy's word is the text of a failure. -/
theorem primary_decides (D : Deployment) (V : Int) (hV : 1 ≤ V) (s : Session)
    (hs : s.Wired D V) (hempty : s.Empty D) (hnode : s.dist.nodeToIp.keys ≠ [])
    (es : List Event)
    (hes : Along (step V) (fun s e => s.PrimarySucceeds e ∧ s.NotOverruled D e) s es)
    (key : Key) (c : Conditions)
    (hget : (run (step V) s es).PrimarySucceeds (.call (.get key) c)) :
    ((run (step V) s es).exec c (.get key)).1 = some ((reference es key).getD rpcFailed) ↔
      (run (step V) s es).NotOverruled D (.call (.get key) c) ∨
        (run (step V) s es).column D key ((run (step V) s es).dist.buddy key) =
          some rpcFailed := by
  obtain ⟨i, hi⟩ := List.exists_mem_of_ne_nil _ hnode
  have hplaced := hs.placed hV (AList.mem_keys.mpr hi)
  have hstart : s.Decided D fun _ => none := fun key => hempty key _
  obtain ⟨hdec, hord, hdist⟩ := hstart.run (hempty.inOrder hs) hplaced hes
  have hkey : (run (step V) s es).Placed key := (hplaced key).of_dist hdist
  have hdec' : (run (step V) s es).column D key ((run (step V) s es).dist.primary key) =
      reference es key := hdec key
  generalize run (step V) s es = t at hord hkey hget hdec' ⊢
  by_cases hq : t.NotOverruled D (.call (.get key) c)
  · refine iff_of_true ?_ (Or.inl hq)
    rw [hord.result_get hkey, hq.fetch (hget.2.readable key), hdec']
  · have hover := hq
    unfold NotOverruled at hover
    simp only [Classical.not_imp] at hover
    obtain ⟨hnone, hne, hread, hsome⟩ := hover
    rw [result_of_overruled hord hkey hnone hne hread, ← hdec', hnone]
    cases hb : t.column D key (t.dist.buddy key) with
    | none => exact absurd hb hsome
    | some value =>
        simp only [hq, false_or, Option.getD_some, Option.getD_none, Option.some.injEq]

/-- Two nodes, after an insert of key 7: with node 1 silent its primary, node 0, still serves. -/
theorem serves_after_insert :
    Serves (.silentAt .byLength 1)
      ((start .byLength 2 [0, 1]).exec .fine (.insert 7 (str "v"))).2.dist
      (((start .byLength 2 [0, 1]).exec .fine (.insert 7 (str "v"))).2.dist.primary 7) := by
  have hproper : Proper (str "v") := ⟨by decide, by decide⟩
  have hplaced : ∀ key, (start .byLength 2 [0, 1]).Placed key :=
    start_placed (by decide) List.mem_cons_self (by decide)
  have hord := (Empty.inOrder start_column (start_wired (by decide))).exec (c := .fine)
    (hproper.insert 7) (hplaced 7)
  exact Conditions.silentAt_serves hord.toWired ((hplaced 7).of_dist rfl).primary
    (by decide +kernel)

/-- An insert of key 7, and an update that does not reach its buddy, node 1. -/
def buddyMissed : List Event :=
  [.call (.insert 7 (str "v")) .fine, .call (.update 7 (str "w")) (.silentAt .byLength 1)]

theorem primary_decides_two :
    ((run (step 2) (start .byLength 2 [0, 1]) buddyMissed).exec .fine (.get 7)).1 =
      some ((reference buddyMissed 7).getD rpcFailed) := by
  have hv : Proper (str "v") := ⟨by decide, by decide⟩
  have hw : Proper (str "w") := ⟨by decide, by decide⟩
  have hserves := serves_of_smooth Conditions.fine_ample Conditions.fine_delivered
  refine (primary_decides .byLength 2 (by decide) (start .byLength 2 [0, 1])
    (start_wired (by decide)) start_column (by decide) buddyMissed
    ⟨⟨⟨hv.insert 7, hserves _ _⟩, trivial⟩, ⟨⟨hw.update 7, serves_after_insert⟩, trivial⟩, trivial⟩
    7 .fine ⟨isProper_get 7, hserves _ _⟩).mpr (Or.inl ?_)
  intro hnone
  revert hnone
  decide +kernel

/-- The delete of key 7 does not reach its buddy, node 1, and the next `get` returns what
was deleted. -/
theorem deleted_key_returns : ¬ ∀ (D : Deployment) (V : Int) (s : Session) (es : List Event)
    (key : Key) (c : Conditions), 1 ≤ V → s.Wired D V → s.Empty D → s.dist.nodeToIp.keys ≠ [] →
    Along (step V) PrimarySucceeds s es →
    (run (step V) s es).PrimarySucceeds (.call (.get key) c) →
    ((run (step V) s es).exec c (.get key)).1 = some ((reference es key).getD rpcFailed) := by
  intro h
  have hproper : Proper (str "v") := ⟨by decide, by decide⟩
  have hserves := serves_of_smooth Conditions.fine_ample Conditions.fine_delivered
  have hget := h .byLength 2 (start .byLength 2 [0, 1])
    [.call (.insert 7 (str "v")) .fine, .call (.deleteKey 7) (.silentAt .byLength 1)] 7 .fine
    (by decide) (start_wired (by decide)) start_column (by decide)
    ⟨⟨hproper.insert 7, hserves _ _⟩, ⟨isProper_deleteKey 7, serves_after_insert⟩, trivial⟩
    ⟨isProper_get 7, hserves _ _⟩
  revert hget
  decide +kernel

end Session

end DistKV
