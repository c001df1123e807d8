/-
Stale copies under a changing membership.

A node that stops being a replica of a key keeps its copy.  A later update reaches only
the replicas of its time, and so does a delete, so the copy goes out of date; and when the
ring changes, a node with an outdated copy can be a replica again.  Calls do no harm: what
the first replica to have a key holds is the value last written, and every call keeps that.
So all reads of a run are up to date exactly if no rebuild puts an outdated copy first.
-/
import DistKV.Proofs.LazyMigration

namespace DistKV

open Replica Machine

/-- The value of the latest insert or update of a key, unless a delete has come after. -/
def issuedStep (key : Key) (x : Option Bytes) : Event → Option Bytes
  | .call op _ =>
      match op.write with
      | some w => if op.key = key then w.value else x
      | none => x
  | .rebuild _ => x

def issued (key : Key) (es : List Event) : Option Bytes := run (issuedStep key) none es

/-- The keys a run inserts, with repetitions. -/
def insertedKeys (es : List Event) : List Key :=
  es.filterMap fun
    | .call (.insert key _) _ => some key
    | _ => none

namespace Session

variable {D : Deployment} {V : Int} {s : Session} {c : Conditions} {i n : NodeId} {key : Key}
  {m : NodeMap}

/-- A rebuild that removes node `n`. -/
structure Leave (D : Deployment) (s : Session) (n : NodeId) (m : NodeMap) : Prop where
  locates : D.Locates m
  leaves : ConsistentHashRing.Joins n m s.dist.nodeToIp

/-- A call that all goes well with, or a node that joins or leaves. -/
def CallOrChange (D : Deployment) (s : Session) : Event → Prop
  | .call op c => op.IsProper ∧ c.Ample ∧ c.Delivered
  | .rebuild m => ∃ n, s.Join D n m ∨ s.Leave D n m

/-- Of replicas at `p` and `b`, the first to have the key holds the value last written, or
the text of a failure, which a client cannot tell from a miss. -/
def CurrentAt (D : Deployment) (es : List Event) (s : Session) (p b : NodeId) (key : Key) :
    Prop :=
  ∀ value, first p b (s.column D key) = some value →
    value = rpcFailed ∨ issued key es = some value

/-- A rebuild that puts no outdated copy first. -/
def PutsCurrentFirst (D : Deployment) (V : Int) (es : List Event) (s : Session) (m : NodeMap) :
    Prop :=
  ∀ key, s.CurrentAt D es ((s.rebuild m V).dist.primary key) ((s.rebuild m V).dist.buddy key) key

/-- What holds after the events `es` of any run: a key that has not been inserted is
nowhere, and no key is at node `-1`, which is where an empty ring points. -/
structure Recorded (D : Deployment) (V : Int) (es : List Event) (s : Session) : Prop
    extends s.InOrder D V where
  absent : ∀ key, key ∉ insertedKeys es → ∀ i, s.column D key i = none
  nowhere : ∀ key, s.column D key (-1) = none

/-- A session in which reads are up to date. -/
structure UpToDate (D : Deployment) (V : Int) (es : List Event) (s : Session) : Prop
    extends s.Recorded D V es where
  current : ∀ key, s.CurrentAt D es (s.dist.primary key) (s.dist.buddy key) key

/-! ### One event -/

theorem issued_snoc (key : Key) (es : List Event) (e : Event) :
    issued key (es ++ [e]) = issuedStep key (issued key es) e := run_snoc none es e

theorem issuedStep_write {op : Op} {w : Write Bytes} (hw : op.write = some w) (key : Key)
    (x : Option Bytes) :
    issuedStep key x (.call op c) = if op.key = key then w.value else x := by
  simp only [issuedStep, hw]

theorem issuedStep_get (key key' : Key) (x : Option Bytes) :
    issuedStep key x (.call (.get key') c) = x := rfl

theorem insertedKeys_insert {es : List Event} {key : Key} {value : Bytes} :
    insertedKeys (es ++ [.call (.insert key value) c]) = insertedKeys es ++ [key] := by
  unfold insertedKeys
  rw [List.filterMap_append]
  rfl

theorem insertedKeys_snoc {es : List Event} {e : Event} :
    insertedKeys es ⊆ insertedKeys (es ++ [e]) := by
  unfold insertedKeys
  rw [List.filterMap_append]
  exact List.subset_append_left _ _

theorem nodup_of_initial {pre es : List Event} (h : pre <+: es) (hes : (insertedKeys es).Nodup) :
    (insertedKeys pre).Nodup := hes.sublist (h.filterMap _).sublist

variable {es : List Event}

theorem mem_insertedKeys {op : Op} {value : Bytes} (hw : op.write = some (.insert value)) :
    op.key ∈ insertedKeys (es ++ [.call op c]) := by
  obtain ⟨key, rfl⟩ := Op.eq_insert hw
  rw [insertedKeys_insert]
  exact List.mem_append_right _ (List.mem_singleton_self key)

/-- An insert of a key not inserted before finds it nowhere. -/
theorem Recorded.fresh (hs : s.Recorded D V es) {op : Op}
    (hnodup : (insertedKeys (es ++ [.call op c])).Nodup) {value : Bytes}
    (hw : op.write = some (.insert value)) : ∀ i, s.column D op.key i = none := by
  obtain ⟨key, rfl⟩ := Op.eq_insert hw
  rw [insertedKeys_insert] at hnodup
  refine hs.absent key ?_
  intro hmem
  exact (List.nodup_append.mp hnodup).2.2 key hmem key (List.mem_singleton_self key) rfl

theorem Recorded.call (hs : s.Recorded D V es) {op : Op} (hop : op.IsProper) :
    (s.exec c op).2.Recorded D V (es ++ [.call op c]) := by
  have habsent : ∀ key, key ∉ insertedKeys (es ++ [.call op c]) → ∀ i, s.column D key i = none :=
    fun key hkey => hs.absent key fun h => hkey (insertedKeys_snoc h)
  obtain hplaced | hempty := hs.toWired.placed_or_empty
  · refine ⟨hs.toInOrder.exec hop (hplaced op.key), fun key hkey => ?_, fun key => ?_⟩
    · cases hw : op.write with
      | some w =>
          intro i
          rw [hs.toInOrder.column_write hop hw (hplaced op.key) key]
          by_cases hk : key = op.key
          · rw [if_pos hk]
            refine replicate_of_empty (habsent key hkey) (fun value hinsert => hkey ?_) i
            rw [hk]
            exact mem_insertedKeys (hw.trans (congrArg some hinsert))
          · rw [if_neg hk]
            exact habsent key hkey i
      | none =>
          obtain ⟨k, rfl⟩ := Op.eq_get_of_write hw
          intro i
          rw [hs.toInOrder.column_get (hplaced k) key]
          by_cases hk : key = k
          · rw [if_pos hk, ← hk]
            exact fetch_of_empty (habsent key hkey) i
          · rw [if_neg hk]
            exact habsent key hkey i
    · rw [hs.toInOrder.column_of_not_mem hop (hplaced op.key) ?_ key]
      · exact hs.nowhere key
      · intro hmem
        exact absurd (hs.map.nonneg (-1) hmem) (by decide)
  · rw [exec_of_empty hempty]
    exact ⟨hs.toInOrder, habsent, hs.nowhere⟩

theorem Recorded.rebuild (hs : s.Recorded D V es) (hm : ∃ n, s.Join D n m ∨ s.Leave D n m) :
    (s.rebuild m V).Recorded D V (es ++ [.rebuild m]) := by
  obtain ⟨n, hjoin | hleave⟩ := hm
  · exact ⟨hs.toInOrder.rebuild hjoin.locates,
      fun key hkey => hs.absent key fun h => hkey (insertedKeys_snoc h), hs.nowhere⟩
  · exact ⟨hs.toInOrder.rebuild hleave.locates,
      fun key hkey => hs.absent key fun h => hkey (insertedKeys_snoc h), hs.nowhere⟩

theorem Recorded.step (hs : s.Recorded D V es) {e : Event} (he : s.CallOrChange D e) :
    (s.step V e).Recorded D V (es ++ [e]) := by
  cases e with
  | call op c => exact hs.call he.1
  | rebuild m => exact hs.rebuild he

/-- Over an empty ring there is no replica to be out of date. -/
theorem Recorded.current_of_empty (hs : s.Recorded D V es) (hempty : s.dist.hashRing.ring = [])
    (key : Key) : s.CurrentAt D es (s.dist.primary key) (s.dist.buddy key) key := by
  intro value hvalue
  unfold first at hvalue
  rw [KVDistributor.primary_of_empty hempty, KVDistributor.buddy_of_empty hempty,
    hs.nowhere key] at hvalue
  cases hvalue

/-- A call keeps the first copies up to date. -/
theorem UpToDate.call (hs : s.UpToDate D V es) {op : Op} (hop : op.IsProper) (hc : c.Ample)
    (hd : c.Delivered) (hnodup : (insertedKeys (es ++ [.call op c])).Nodup) :
    (s.exec c op).2.UpToDate D V (es ++ [.call op c]) := by
  have hrecorded := hs.toRecorded.call (c := c) hop
  have hserves := serves_of_smooth hc hd s.dist
  refine ⟨hrecorded, fun key => ?_⟩
  obtain hplaced | hempty := hs.toWired.placed_or_empty
  · have hcurrent := hs.current key
    unfold CurrentAt at hcurrent ⊢
    rw [hs.toInOrder.dist_exec (hplaced op.key), issued_snoc]
    cases hw : op.write with
    | some w =>
        rw [hs.toInOrder.column_write hop hw (hplaced op.key) key, issuedStep_write hw]
        by_cases hk : key = op.key
        · subst hk
          have hfresh : ∀ a, w = .insert a → first (s.dist.primary op.key) (s.dist.buddy op.key)
              (s.column D op.key) = none := by
            intro a hinsert
            exact first_of_empty (hs.toRecorded.fresh hnodup (hinsert ▸ hw))
          rw [if_pos rfl, if_pos rfl]
          intro value hvalue
          rw [first_replicate ((hserves _).reached hs.toWired hw)
            ((hserves _).reached hs.toWired hw) hfresh] at hvalue
          exact Or.inr (Write.value_of_apply hfresh hvalue)
        · rw [if_neg hk, if_neg fun h => hk h.symm]
          exact hcurrent
    | none =>
        obtain ⟨k, rfl⟩ := Op.eq_get_of_write hw
        rw [hs.toInOrder.column_get (hplaced k) key, issuedStep_get]
        by_cases hk : key = k
        · subst hk
          rw [if_pos rfl, first_fetch ((hserves _).readable key)]
          exact hcurrent
        · rw [if_neg hk]
          exact hcurrent
  · have hexec : (s.exec c op).2 = s := by rw [exec_of_empty hempty]
    refine hrecorded.current_of_empty ?_ key
    rw [hexec]
    exact hempty

/-- So does a rebuild that puts no outdated copy first. -/
theorem UpToDate.step (hs : s.UpToDate D V es) {e : Event} (he : s.CallOrChange D e)
    (hnodup : (insertedKeys (es ++ [e])).Nodup)
    (hfirst : ∀ m, e = .rebuild m → s.PutsCurrentFirst D V es m) :
    (s.step V e).UpToDate D V (es ++ [e]) := by
  cases e with
  | call op c =>
      obtain ⟨hop, hc, hd⟩ := he
      exact hs.call hop hc hd hnodup
  | rebuild m =>
      refine ⟨hs.toRecorded.step he, fun key => ?_⟩
      unfold CurrentAt
      rw [issued_snoc]
      exact hfirst m rfl key

/-- A `get` of a key with a replica returns what the first replica to have it holds. -/
theorem Recorded.get (hs : s.Recorded D V es) (hd : c.Delivered) (key : Key) :
    (s.exec c (.get key)).1 =
      some ((first (s.dist.primary key) (s.dist.buddy key) (s.column D key)).getD rpcFailed) := by
  obtain hplaced | hempty := hs.toWired.placed_or_empty
  · have hread : ∀ i, readable c s key i = true := fun _ => hd.answers _
    rw [hs.toInOrder.result_get (hplaced key), fetch_fst_eq_first (hread _) (hread _)]
  · unfold first
    rw [exec_of_empty hempty, KVDistributor.primary_of_empty hempty,
      KVDistributor.buddy_of_empty hempty, hs.nowhere key]
    rfl

/-! ### Runs -/

theorem recorded_of_run (hs : s.Recorded D V []) (hes : Along (step V) (CallOrChange D) s es) :
    (run (step V) s es).Recorded D V es :=
  hes.induction (P := fun es t => t.Recorded D V es) hs fun _ _ _ ht he => ht.step he

/-- **No stale read.**  Nodes join and leave, and keys are inserted once at most.  In every
session passed through, the value that a `get` returns is that of the latest insert or
update of the key, with no delete since, if and only if no rebuild puts an outdated copy
first. -/
theorem no_stale_read_iff (D : Deployment) (V : Int) (s : Session) (hs : s.Wired D V)
    (hempty : s.Empty D) (es : List Event) (hes : Along (step V) (CallOrChange D) s es)
    (honce : (insertedKeys es).Nodup) :
    (∀ pre, pre <+: es → ∀ (key : Key) (c : Conditions) (value : Bytes), c.Ample → c.Delivered →
      ((run (step V) s pre).exec c (.get key)).1 = some value → value ≠ rpcFailed →
        issued key pre = some value) ↔
    ∀ pre m, pre ++ [.rebuild m] <+: es → (run (step V) s pre).PutsCurrentFirst D V pre m := by
  have hstart : s.Recorded D V [] :=
    ⟨hempty.inOrder hs, fun key _ => hempty key, fun key => hempty key _⟩
  constructor
  · intro hget pre m hpre key value hvalue
    by_cases hfailed : value = rpcFailed
    · exact Or.inl hfailed
    · refine Or.inr ?_
      have hrecorded := recorded_of_run hstart (hes.initial hpre)
      have hread := hrecorded.get Conditions.fine_delivered key
      rw [run_snoc] at hread
      -- what comes first after the rebuild is what a `get` would return then
      have hissued := hget _ hpre key .fine value Conditions.fine_ample Conditions.fine_delivered
        (by rw [run_snoc, hread]; exact congrArg (fun x => some (Option.getD x rpcFailed)) hvalue)
        hfailed
      rw [issued_snoc] at hissued
      exact hissued
  · intro hfirst pre hpre key c value _ hd hget hvalue
    have hstart' : s.UpToDate D V [] := by
      refine ⟨hstart, fun key value h => ?_⟩
      rw [first_of_empty (hempty key)] at h
      cases h
    have hup : (run (step V) s pre).UpToDate D V pre := by
      refine (hes.initial hpre).induction (P := fun pre t => pre <+: es → t.UpToDate D V pre)
        (fun _ => hstart') ?_ hpre
      intro pre e _ ht he hpre
      have hpre' : pre <+: es := (List.prefix_append pre [e]).trans hpre
      refine (ht hpre').step he (nodup_of_initial hpre honce) ?_
      intro m hm
      rw [hm] at hpre
      exact hfirst pre m hpre
    rw [hup.toRecorded.get hd key] at hget
    cases hfound : first ((run (step V) s pre).dist.primary key)
        ((run (step V) s pre).dist.buddy key) ((run (step V) s pre).column D key) with
    | none =>
        rw [hfound] at hget
        exact absurd (Option.some.inj hget).symm hvalue
    | some found =>
        rw [hfound] at hget
        have heq : found = value := Option.some.inj hget
        rw [heq] at hfound
        exact (hup.current key value hfound).resolve_left hvalue

/-- Key 2 starts at nodes 1 and 0.  Node 2 becomes its primary, the update reaches only
nodes 2 and 1, and when node 1 leaves, node 0 is the buddy again. -/
def staleRun : List Event :=
  [.call (.insert 2 (str "v")) .fine,
   .rebuild (Deployment.byLength.mapOf [2, 0, 1]),
   .call (.update 2 (str "w")) .fine,
   .rebuild (Deployment.byLength.mapOf [2, 0])]

theorem staleRun_along :
    Along (step 2) (CallOrChange .byLength) (start .byLength 2 [0, 1]) staleRun := by
  have hproper : Proper (str "v") := ⟨by decide, by decide⟩
  have hproper' : Proper (str "w") := ⟨by decide, by decide⟩
  have hplaced : (start .byLength 2 [0, 1]).Placed 2 :=
    start_placed (by decide) List.mem_cons_self (by decide) 2
  have hfine : Conditions.fine.Ample ∧ Conditions.fine.Delivered :=
    ⟨Conditions.fine_ample, Conditions.fine_delivered⟩
  refine ⟨⟨hproper.insert 2, hfine⟩, ⟨2, Or.inl ⟨Deployment.locates_mapOf (by decide), ?_, ?_⟩⟩,
    ⟨hproper'.update 2, hfine⟩, ⟨1, Or.inr ⟨Deployment.locates_mapOf (by decide), ?_⟩⟩, trivial⟩
  · exact @Deployment.joins_mapOf .byLength [0, 1] 2 [2, 0, 1] (by decide) (by simp)
  · intro key
    refine ((start_inOrder (by decide)).column_of_not_mem (hproper.insert 2) hplaced ?_ key).trans
      (start_column key 2)
    exact fun h => absurd (Deployment.mem_mapOf.mp h) (by decide)
  · exact @Deployment.joins_mapOf .byLength [2, 0] 1 [2, 0, 1] (by decide) (by simp; grind)

theorem no_stale_read_iff_two :
    (∀ pre, pre <+: staleRun → ∀ (key : Key) (c : Conditions) (value : Bytes), c.Ample →
      c.Delivered →
      ((run (step 2) (start .byLength 2 [0, 1]) pre).exec c (.get key)).1 = some value →
      value ≠ rpcFailed → issued key pre = some value) ↔
    ∀ pre m, pre ++ [.rebuild m] <+: staleRun →
      (run (step 2) (start .byLength 2 [0, 1]) pre).PutsCurrentFirst .byLength 2 pre m :=
  no_stale_read_iff .byLength 2 (start .byLength 2 [0, 1]) (start_wired (by decide)) start_column
    staleRun staleRun_along (by decide)

/-- The value of key 2 was updated, and a `get` returns the one before. -/
theorem stale_read : ¬ ∀ (D : Deployment) (V : Int) (s : Session) (es : List Event) (key : Key)
    (c : Conditions) (value : Bytes), s.Wired D V → s.Empty D →
    Along (step V) (CallOrChange D) s es → (insertedKeys es).Nodup → c.Ample → c.Delivered →
    ((run (step V) s es).exec c (.get key)).1 = some value → value ≠ rpcFailed →
    issued key es = some value := by
  intro h
  have hissued := h .byLength 2 (start .byLength 2 [0, 1]) staleRun 2 .fine (str "v")
    (start_wired (by decide)) start_column staleRun_along (by decide) Conditions.fine_ample
    Conditions.fine_delivered (by decide +kernel) (by decide)
  revert hissued
  decide

end Session

end DistKV
