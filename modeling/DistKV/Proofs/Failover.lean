/-
Losing one node.

While every request comes through, the two replicas of a key hold what the
sequential map holds for it, and no other node holds the key.  So when one node goes
silent, or when the ring is built anew without it, a `get` still answers as the
sequential map does: the replica that is left is reached, and on the new ring it is
the primary.
-/
import DistKV.Proofs.Start
import DistKV.Proofs.Disruption
import DistKV.Lib.Run

namespace DistKV

open Replica Machine

/-- The sequential map: insert only if absent, update only if present, delete. -/
def refStep (ref : Key → Option Bytes) : Event → Key → Option Bytes
  | .call op _ =>
      match op.write with
      | some w => Function.update ref op.key (w.apply (ref op.key))
      | none => ref
  | .rebuild _ => ref

theorem refStep_write {ref : Key → Option Bytes} {op : Op} {c : Conditions} {w : Write Bytes}
    (hw : op.write = some w) :
    refStep ref (.call op c) = Function.update ref op.key (w.apply (ref op.key)) := by
  simp only [refStep, hw]

/-- What a sequential map holds after the calls of a session. -/
def reference (es : List Event) : Key → Option Bytes := run refStep (fun _ => none) es

namespace Event

/-- A call of which every request is delivered and none rejected for memory. -/
def Smooth : Event → Prop
  | .call op c => op.IsProper ∧ c.Ample ∧ c.Delivered
  | .rebuild _ => False

/-- A `get`, under circumstances of a kind. -/
def Reads (P : Conditions → Prop) : Event → Prop
  | .call (.get _) c => P c
  | _ => False

end Event

/-- Every request to node `r` throws, and every request to another node is delivered. -/
structure Conditions.Without (D : Deployment) (r : NodeId) (c : Conditions) : Prop where
  silent : ∀ op, c.fate { target := .remote (D.endpoint r), op := op } ≠ .answered
  others : ∀ endpoint op, endpoint ≠ D.endpoint r →
    c.fate { target := .remote endpoint, op := op } = .answered

namespace Session

variable {D : Deployment} {V : Int} {s : Session} {c : Conditions} {i r : NodeId}
  {key : Key} {ref : Key → Option Bytes} {m : NodeMap}

/-- No node holds anything. -/
def Empty (D : Deployment) (s : Session) : Prop := ∀ key i, s.column D key i = none

/-- The replicas of every key agree on what `ref` holds for it, and nobody else holds it. -/
def Replicated (D : Deployment) (s : Session) (ref : Key → Option Bytes) : Prop :=
  ∀ key, Agreed (s.dist.primary key) (s.dist.buddy key) (ref key) (s.column D key)

theorem Empty.replicated (hs : s.Empty D) : s.Replicated D fun _ => none :=
  fun key => ⟨hs key _, hs key _, fun i _ _ => hs key i⟩

theorem Empty.inOrder (hs : s.Empty D) (hw : s.Wired D V) : s.InOrder D V where
  toWired := hw
  proper := by
    intro key i value hv
    rw [hs key i] at hv
    cases hv

/-- A smooth call takes the replicas along with the sequential map. -/
theorem Replicated.exec (h : s.Replicated D ref) (hs : s.InOrder D V)
    (hkeys : ∀ key, s.Placed key) {op : Op} (he : (Event.call op c).Smooth) :
    (s.exec c op).2.Replicated D (refStep ref (.call op c)) := by
  obtain ⟨hop, hc, hd⟩ := he
  have hserves := serves_of_smooth hc hd s.dist
  intro key
  rw [hs.dist_exec (hkeys op.key)]
  cases hw : op.write with
  | some w =>
      rw [hs.column_write hop hw (hkeys op.key) key, refStep_write hw]
      by_cases hk : key = op.key
      · rw [if_pos hk, hk, Function.update_self]
        exact (h op.key).replicate w ((hserves _).reached hs.toWired hw)
          ((hserves _).reached hs.toWired hw)
      · rw [if_neg hk, Function.update_of_ne hk]
        exact h key
  | none =>
      obtain ⟨k, rfl⟩ := Op.eq_get_of_write hw
      rw [hs.column_get (hkeys k) key]
      by_cases hk : key = k
      · rw [if_pos hk, hk, (h k).fetch (Or.inl ((hserves _).readable k))]
        exact h k
      · rw [if_neg hk]
        exact h key

/-- So does a smooth run, and it leaves the ring as it was. -/
theorem Replicated.run (h : s.Replicated D ref) (hs : s.InOrder D V)
    (hkeys : ∀ key, s.Placed key) {es : List Event}
    (hes : Along (step V) (fun _ e => e.Smooth) s es) :
    (run (step V) s es).Replicated D (run refStep ref es) ∧
      (run (step V) s es).InOrder D V ∧ (run (step V) s es).dist = s.dist := by
  refine hes.induction (P := fun es t => t.Replicated D (Machine.run refStep ref es) ∧
    t.InOrder D V ∧ t.dist = s.dist) ⟨h, hs, rfl⟩ fun es e _ hP he => ?_
  obtain ⟨hrep, hord, hdist⟩ := hP
  have hplaced : ∀ key, (Machine.run (step V) s es).Placed key :=
    fun key => (hkeys key).of_dist hdist
  cases e with
  | call op c =>
      rw [run_snoc]
      refine ⟨hrep.exec hord hplaced he, hord.exec he.1 (hplaced op.key), ?_⟩
      exact (hord.dist_exec (hplaced op.key)).trans hdist
  | rebuild m => exact he.elim

/-! ### Reading afterwards -/

/-- Gets that change nothing change nothing one after another. -/
theorem run_reads {P : Conditions → Prop} (h : ∀ key c, P c → (s.exec c (.get key)).2 = s)
    {gets : List Event} (hgets : ∀ e ∈ gets, e.Reads P) : run (step V) s gets = s := by
  induction gets with
  | nil => rfl
  | cons e gets ih =>
      have he := hgets e List.mem_cons_self
      have hfix : step V s e = s := by
        cases e with
        | rebuild m => exact he.elim
        | call op c =>
            cases op with
            | get key => exact h key c he
            | insert key value => exact he.elim
            | update key value => exact he.elim
            | deleteKey key => exact he.elim
      rw [run_cons, hfix]
      exact ih fun e he => hgets e (List.mem_cons_of_mem _ he)

/-- Away from the silent node every answer is heard. -/
theorem readable_of_ne (hs : s.Wired D V) (hc : c.Without D r) (hi : i ∈ s.dist.nodeToIp)
    (hne : i ≠ r) : readable c s key i = true := by
  unfold readable Conditions.answers KVDistributor.requestTo KVDistributor.target
  by_cases hlocal : s.dist.isLocalNode i = true
  · simp [hlocal]
  · simp only [hlocal, Bool.false_eq_true, if_false, hs.map.endpoint i hi, Option.getD_some]
    rw [hc.others _ _ fun he => hne (D.distinct he)]
    rfl

/-- **One node silent.**  A `get` answers as before, and changes nothing. -/
theorem get_without (h : s.Replicated D ref) (hs : s.InOrder D V) (hkey : s.Placed key)
    (hne : s.dist.buddy key ≠ s.dist.primary key) (hc : c.Without D r) :
    s.exec c (.get key) = (some ((ref key).getD rpcFailed), s) := by
  have hagreed := h key
  obtain ⟨value, hp, hx⟩ | ⟨value, hp, -, hb, hx⟩ | ⟨hp, hb, hx⟩ :=
    exec_get_cases (c := c) hs.toWired hkey (hs.proper key)
  · rw [hx, ← hagreed.primary, look_eq_some hp]
    rfl
  · have hcol := look_eq_some hb
    have hpresent : s.column D key (s.dist.primary key) ≠ none := by
      rw [hagreed.primary, ← hagreed.buddy, hcol]
      exact Option.some_ne_none value
    have hsame := handle_insert_present (c := c) hs.toWired hkey.primary hpresent value
    rw [hx, hsame, ← hagreed.buddy, hcol]
    rfl
  · rw [hx]
    -- neither replica answered with a value, and one of them did answer
    have hnone : ref key = none := by
      by_cases hpr : s.dist.primary key = r
      · have hbr : s.dist.buddy key ≠ r := fun hbr => hne (hbr.trans hpr.symm)
        have hread : readable c s key (s.dist.buddy key) = true :=
          readable_of_ne hs.toWired hc hkey.buddy hbr
        have hmiss := hb.resolve_left hne
        rw [look_of_reads hread, hagreed.buddy] at hmiss
        exact hmiss
      · have hread : readable c s key (s.dist.primary key) = true :=
          readable_of_ne hs.toWired hc hkey.primary hpr
        rw [look_of_reads hread, hagreed.primary] at hp
        exact hp
    rw [hnone]
    rfl

/-- On the ring without `r` a key's primary is one of its old replicas. -/
theorem primary_rebuild (hs : s.Wired D V) (hV : 1 ≤ V)
    (hm : ConsistentHashRing.Joins r m s.dist.nodeToIp) (hi : i ∈ m) (key : Key) :
    (s.rebuild m V).dist.primary key = s.dist.primary key ∨
      (s.rebuild m V).dist.primary key = s.dist.buddy key := by
  obtain ⟨ring, hring⟩ := hs.ring
  unfold KVDistributor.primary KVDistributor.buddy
  rw [hring]
  by_cases hp : (ring.rebuild s.dist.nodeToIp V).getPrimaryNode key = r
  · refine Or.inr (Eq.symm ?_)
    exact ConsistentHashRing.buddy_of_join_primary (r := s.dist.hashRing) hm hV hi hp
  · refine Or.inl (Eq.symm ?_)
    exact ConsistentHashRing.primary_of_join (r := s.dist.hashRing) hm hV hp

/-- **One node gone.**  On the ring without it a `get` answers as before. -/
theorem get_rebuilt (h : s.Replicated D ref) (hs : s.InOrder D V) (hV : 1 ≤ V)
    (hm : ConsistentHashRing.Joins r m s.dist.nodeToIp) (hlocates : D.Locates m) (hi : i ∈ m)
    (hc : c.Without D r) (key : Key) :
    (s.rebuild m V).exec c (.get key) =
      (some ((ref key).getD rpcFailed), s.rebuild m V) := by
  have hagreed := h key
  have hs' := hs.rebuild hlocates
  have hkey : (s.rebuild m V).Placed key := hs'.toWired.placed hV hi key
  -- only nodes of the new map are asked, and `r` is none of them
  have hread : readable c (s.rebuild m V) key ((s.rebuild m V).dist.primary key) = true :=
    readable_of_ne hs'.toWired hc hkey.primary fun hr => hm.1 (hr ▸ hkey.primary)
  have hcol : s.column D key ((s.rebuild m V).dist.primary key) = ref key := by
    obtain hp | hp := primary_rebuild hs.toWired hV hm hi key
    · rw [hp]
      exact hagreed.primary
    · rw [hp]
      exact hagreed.buddy
  obtain ⟨value, hp, hx⟩ | ⟨value, hp, -, hb, hx⟩ | ⟨hp, -, hx⟩ :=
    exec_get_cases (c := c) hs'.toWired hkey (hs'.proper key)
  · have hvalue : ref key = some value := hcol.symm.trans (look_eq_some hp)
    rw [hx, hvalue]
    rfl
  · -- the new primary lacks what the old replicas agreed on, so there is nothing to find
    rw [look_of_reads hread] at hp
    have hnone : ref key = none := hcol.symm.trans hp
    rw [hnone] at hagreed
    have hbuddy := hagreed.absent ((s.rebuild m V).dist.buddy key)
    exact absurd (hbuddy.symm.trans (look_eq_some hb)) (Option.some_ne_none value).symm
  · rw [look_of_reads hread] at hp
    have hnone : ref key = none := hcol.symm.trans hp
    rw [hx, hnone]
    rfl

/-- **One node failure loses no data.**  After a smooth run, and while requests to one node
throw, `get`s answer as the sequential map does, (1) on the ring as it was, and (2) on the ring
built anew without the node. -/
theorem one_failure_loses_nothing (D : Deployment) (V : Int) (hV : 1 ≤ V) (s : Session)
    (hs : s.Wired D V) (hempty : s.Empty D) (hnodes : 2 ≤ s.dist.nodeToIp.keys.length)
    (es : List Event) (hes : Along (step V) (fun _ e => e.Smooth) s es) (r : NodeId)
    (hr : r ∈ s.dist.nodeToIp) (gets : List Event) (key : Key) (c : Conditions) :
    ((∀ e ∈ gets, e.Reads fun c => c.Without D r) → c.Without D r →
      ((run (step V) (run (step V) s es) gets).exec c (.get key)).1 =
        some ((reference es key).getD rpcFailed)) ∧
    (∀ m : NodeMap, D.Locates m → (∀ i, i ∈ m ↔ i ∈ s.dist.nodeToIp ∧ i ≠ r) →
      (∀ e ∈ gets, e.Reads fun c => c.Without D r) → c.Without D r →
      ((run (step V) ((run (step V) s es).rebuild m V) gets).exec c (.get key)).1 =
        some ((reference es key).getD rpcFailed)) := by
  have hplaced := hs.placed hV hr
  obtain ⟨hrep, hord, hdist⟩ :=
    (hempty.replicated).run (hempty.inOrder hs) hplaced hes
  have hplaced' : ∀ key, (run (step V) s es).Placed key := fun k => (hplaced k).of_dist hdist
  rw [← hdist] at hnodes hr ⊢
  generalize run (step V) s es = t at hrep hord hplaced' hnodes hr ⊢
  refine ⟨fun hgets hc => ?_, fun m hm hmem hgets hc => ?_⟩
  · have hne : ∀ k, t.dist.buddy k ≠ t.dist.primary k := by
      intro k
      obtain ⟨ring, hring⟩ := hord.ring
      unfold KVDistributor.primary KVDistributor.buddy
      rw [hring]
      exact (ConsistentHashRing.buddy_ne_primary_iff hV k).mpr
        (ConsistentHashRing.exists_mem_ne hnodes _)
    have hget : ∀ k (c : Conditions), c.Without D r →
        t.exec c (.get k) = (some ((reference es k).getD rpcFailed), t) :=
      fun k c hc => get_without hrep hord (hplaced' k) (hne k) hc
    rw [run_reads (fun k c hc => by rw [hget k c hc]) hgets, hget key c hc]
  · have hjoin : ConsistentHashRing.Joins r m t.dist.nodeToIp := by
      refine ⟨fun h => ((hmem r).mp h).2 rfl, fun i => ?_⟩
      rw [hmem i]
      by_cases hir : i = r
      · simp [hir, hr]
      · simp [hir]
    obtain ⟨i, hi, hir⟩ := ConsistentHashRing.exists_mem_ne hnodes r
    have him : i ∈ m := (hmem i).mpr ⟨hi, hir⟩
    have hget : ∀ k (c : Conditions), c.Without D r → (t.rebuild m V).exec c (.get k) =
        (some ((reference es k).getD rpcFailed), t.rebuild m V) :=
      fun k c hc => get_rebuilt hrep hord hV hjoin hm him hc k
    rw [run_reads (fun k c hc => by rw [hget k c hc]) hgets, hget key c hc]

/-- Two nodes and one insert, with node 0 silent, and with a ring of node 1 alone. -/
theorem one_failure_loses_nothing_two :
    ((run (step 2) (run (step 2) (start .byLength 2 [0, 1])
        [.call (.insert 7 (str "v")) .fine]) []).exec (.silentAt .byLength 0) (.get 7)).1 =
      some ((reference [.call (.insert 7 (str "v")) .fine] 7).getD rpcFailed) ∧
    ((run (step 2) ((run (step 2) (start .byLength 2 [0, 1])
        [.call (.insert 7 (str "v")) .fine]).rebuild (Deployment.byLength.mapOf [1]) 2) []).exec
          (.silentAt .byLength 0) (.get 7)).1 =
      some ((reference [.call (.insert 7 (str "v")) .fine] 7).getD rpcFailed) := by
  have hproper : Proper (str "v") := ⟨by decide, by decide⟩
  have hstart : (start .byLength 2 [0, 1]).Wired .byLength 2 := start_wired (by decide)
  have hes : Along (step 2) (fun _ e => e.Smooth) (start .byLength 2 [0, 1])
      [.call (.insert 7 (str "v")) .fine] :=
    ⟨⟨hproper.insert 7, Conditions.fine_ample, Conditions.fine_delivered⟩, trivial⟩
  have hsilent : (Conditions.silentAt .byLength 0).Without .byLength 0 :=
    ⟨fun _ h => (by cases h), fun _ _ hne => if_neg fun h => hne (Target.remote.inj h)⟩
  constructor
  · exact (one_failure_loses_nothing .byLength 2 (by decide) (start .byLength 2 [0, 1]) hstart
      start_column (by decide) _ hes 0 (Deployment.mem_mapOf.mpr (by decide)) [] 7 _).1
      (by simp) hsilent
  · refine (one_failure_loses_nothing .byLength 2 (by decide) (start .byLength 2 [0, 1]) hstart
      start_column (by decide) _ hes 0 (Deployment.mem_mapOf.mpr (by decide)) [] 7 _).2
      (Deployment.byLength.mapOf [1]) (Deployment.locates_mapOf (by decide)) (fun i => ?_)
      (by simp) hsilent
    show i ∈ Deployment.byLength.mapOf [1] ↔ i ∈ Deployment.byLength.mapOf [0, 1] ∧ i ≠ 0
    rw [Deployment.mem_mapOf, Deployment.mem_mapOf]
    simp only [List.mem_cons, List.not_mem_nil]
    grind

end Session

end DistKV
