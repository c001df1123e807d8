/-
What subscribers are told.

The callback gets the map of the live members, from each id to its endpoint, but it is
called only if somebody remembers to call `notifyChange` and the set of live ids differs
from that of the last call.  Here is exactly when the last map is still the current one.

What a merge makes of a member is read off the records about it, the table's own before
those that come in: it is alive if the record of the highest version says so, and its
endpoint is that of the first one that ranks highest, by generation for `mergeView` and by
version for a gossip round.
-/
import DistKV.Proofs.Monotone

namespace DistKV

open Join MemberTable Machine

/-- The endpoint of a member, if what is known about it says that it is alive. -/
def liveRecord (x : Option MemberRecord) : Option Endpoint :=
  (x.filter fun r => r.status = .alive).map MemberRecord.endpoint

theorem liveRecord_some (r : MemberRecord) :
    liveRecord (some r) = if r.status = .alive then some r.endpoint else none := by
  unfold liveRecord
  rw [Option.filter_some]
  by_cases halive : r.status = .alive
  · rw [if_pos halive, if_pos (decide_eq_true halive), Option.map_some]
  · rw [if_neg halive, if_neg (by simpa using halive), Option.map_none]

theorem liveRecord_eq_some {x : Option MemberRecord} {e : Endpoint} :
    liveRecord x = some e ↔ ∃ r, x = some r ∧ r.status = .alive ∧ r.endpoint = e := by
  unfold liveRecord
  simp only [Option.map_eq_some_iff, Option.filter_eq_some_iff, decide_eq_true_eq, and_assoc]

namespace MemberTable

variable {t : MemberTable} {id : NodeId}

/-- The record that is filed under an id. -/
def recordOf (t : MemberTable) (id : NodeId) : Option MemberRecord :=
  (t.find id).map MemberEntry.record

theorem recordOf_of_find {entry : MemberEntry} (h : t.find id = some entry) :
    t.recordOf id = some entry.record := by
  unfold recordOf
  rw [h, Option.map_some]

theorem recordOf_of_not_find (h : t.find id = none) : t.recordOf id = none := by
  unfold recordOf
  rw [h, Option.map_none]

theorem recordOf_put (entry : MemberEntry) (t : MemberTable) (id : NodeId) :
    (t.put entry).recordOf id =
      if id = entry.record.nodeId then some entry.record else t.recordOf id := by
  unfold recordOf
  rw [find_put]
  split
  · rfl
  · rfl

/-- The map of the live members. -/
def live (t : MemberTable) (id : NodeId) : Option Endpoint := liveRecord (t.recordOf id)

theorem live_congr {t' : MemberTable} (h : t'.find id = t.find id) : t'.live id = t.live id := by
  unfold live recordOf
  rw [h]

theorem live_eq_some {e : Endpoint} : t.live id = some e ↔ ∃ entry, t.find id = some entry ∧
    entry.record.status = .alive ∧ entry.record.endpoint = e := by
  unfold live recordOf
  rw [liveRecord_eq_some]
  constructor
  · intro h
    rcases h with ⟨r, hr, halive, he⟩
    rcases Option.map_eq_some_iff.mp hr with ⟨entry, hentry, rfl⟩
    exact ⟨entry, hentry, halive, he⟩
  · intro h
    rcases h with ⟨entry, hentry, halive, he⟩
    exact ⟨entry.record, recordOf_of_find hentry, halive, he⟩

theorem mem_alive {entry : MemberEntry} : entry ∈ t.alive ↔
    t.find entry.record.nodeId = some entry ∧ entry.record.status = .alive := by
  unfold alive
  rw [List.mem_filter, decide_eq_true_iff]
  refine and_congr_left fun _ => ?_
  constructor
  · intro h
    rcases List.mem_map.mp h with ⟨⟨id, e⟩, hmem, rfl⟩
    have hfind : t.find id = some e := mem_entries.mp hmem
    rw [show e.record.nodeId = id from t.filed id e hfind]
    exact hfind
  · intro h
    exact List.mem_map.mpr ⟨⟨_, entry⟩, mem_entries.mpr h, rfl⟩

/-- The pairs that `notifyChange` puts into a map are one for each live member. -/
theorem nodup_alive (t : MemberTable) :
    (t.alive.map fun entry => entry.record.nodeId).Nodup := by
  have hview : (t.entries.entries.map fun s => s.2.record.nodeId).Nodup := by
    have h := t.view_nodup
    unfold view at h
    rw [List.map_map] at h
    exact h
  have hsub : (t.alive.map fun entry => entry.record.nodeId).Sublist
      ((t.entries.entries.map fun s => s.2).map fun entry => entry.record.nodeId) :=
    List.filter_sublist.map _
  rw [List.map_map] at hsub
  exact hview.sublist hsub

/-- The map that the callback is called with is the map of the live members. -/
theorem lookup_published (t : MemberTable) (id : NodeId) :
    ((t.alive.map fun entry =>
      (⟨entry.record.nodeId, entry.record.endpoint⟩ :
        Sigma fun _ : NodeId => Endpoint)).toAList).lookup id = t.live id := by
  have hnodup : (t.alive.map fun entry =>
      (⟨entry.record.nodeId, entry.record.endpoint⟩ :
        Sigma fun _ : NodeId => Endpoint)).NodupKeys := by
    unfold List.NodupKeys List.keys
    rw [List.map_map]
    exact t.nodup_alive
  refine (AList.lookup_to_alist _).trans (Option.ext fun e => ?_)
  rw [← Option.mem_def, List.mem_dlookup_iff hnodup, List.mem_map, live_eq_some]
  constructor
  · intro h
    rcases h with ⟨entry, hmem, heq⟩
    rcases mem_alive.mp hmem with ⟨hfind, halive⟩
    cases heq
    exact ⟨entry, hfind, halive, rfl⟩
  · intro h
    rcases h with ⟨entry, hfind, halive, rfl⟩
    have hid : entry.record.nodeId = id := t.filed id entry hfind
    refine ⟨entry, mem_alive.mpr ⟨hid.symm ▸ hfind, halive⟩, ?_⟩
    rw [hid]

theorem mem_alive_ids : id ∈ (t.alive.map fun entry => entry.record.nodeId).toFinset ↔
    (t.live id).isSome := by
  rw [List.mem_toFinset, List.mem_map, Option.isSome_iff_exists]
  constructor
  · intro h
    rcases h with ⟨entry, hmem, rfl⟩
    rcases mem_alive.mp hmem with ⟨hfind, halive⟩
    exact ⟨_, live_eq_some.mpr ⟨entry, hfind, halive, rfl⟩⟩
  · intro h
    rcases h with ⟨e, he⟩
    rcases live_eq_some.mp he with ⟨entry, hfind, halive, -⟩
    have hid : entry.record.nodeId = id := t.filed id entry hfind
    exact ⟨entry, mem_alive.mpr ⟨hid.symm ▸ hfind, halive⟩, hid⟩

end MemberTable

namespace GossipMembership

variable {g : GossipMembership} {id : NodeId}

/-- What the subscribers were told last is what is the case. -/
def InStep (g : GossipMembership) : Prop :=
  ∀ m rest, g.delivered = m :: rest → ∀ id, m.lookup id = g.memberTable.live id

/-- There is a subscriber, and the ids of the last call are remembered. -/
structure Subscribed (g : GossipMembership) : Prop where
  callback : g.changeCallback = true
  cached : ∀ id, id ∈ g.lastAliveSet ↔ ∃ m rest, g.delivered = m :: rest ∧ id ∈ m

/-- The ids that are remembered are those of the live map that was published. -/
theorem InStep.mem_lastAliveSet (h : g.InStep) (hg : g.Subscribed) (hd : g.delivered ≠ [])
    (id : NodeId) : id ∈ g.lastAliveSet ↔ (g.memberTable.live id).isSome := by
  rcases hdelivered : g.delivered with _ | ⟨m, rest⟩
  · exact absurd hdelivered hd
  · rw [hg.cached, ← h m rest hdelivered id, AList.lookup_isSome]
    constructor
    · intro hmem
      rcases hmem with ⟨m', rest', heq, hid⟩
      rw [hdelivered] at heq
      cases heq
      exact hid
    · intro hid
      exact ⟨m, rest, hdelivered, hid⟩

/-- `notifyChange` is silent exactly if the ids that are alive are the ones remembered. -/
theorem notifyChange_cases (hcallback : g.changeCallback = true) :
    ((∀ id, id ∈ g.lastAliveSet ↔ (g.memberTable.live id).isSome) ∧ g.notifyChange = g) ∨
    ((¬ ∀ id, id ∈ g.lastAliveSet ↔ (g.memberTable.live id).isSome) ∧
      g.notifyChange.changeCallback = true ∧
      (∀ id, id ∈ g.notifyChange.lastAliveSet ↔ (g.memberTable.live id).isSome) ∧
      ∃ m : NodeMap, (∀ id, m.lookup id = g.memberTable.live id) ∧
        g.notifyChange.delivered = m :: g.delivered) := by
  unfold notifyChange
  rw [if_neg (by rw [hcallback]; simp)]
  dsimp only
  by_cases hsame : (g.memberTable.alive.map fun entry => entry.record.nodeId).toFinset =
      g.lastAliveSet
  · rw [if_pos hsame]
    refine Or.inl ⟨fun id => ?_, rfl⟩
    rw [← hsame, mem_alive_ids]
  · rw [if_neg hsame]
    refine Or.inr ⟨fun h => hsame (Finset.ext fun id => ?_), hcallback, fun id => mem_alive_ids,
      _, fun id => lookup_published _ id, rfl⟩
    rw [mem_alive_ids, h id]

theorem Subscribed.notifyChange (hg : g.Subscribed) : g.notifyChange.Subscribed := by
  obtain ⟨-, hsilent⟩ | ⟨-, hcallback, hcached, m, hm, hdelivered⟩ :=
    notifyChange_cases hg.callback
  · rw [hsilent]
    exact hg
  · refine ⟨hcallback, fun id => ?_⟩
    rw [hcached, ← hm id, AList.lookup_isSome, hdelivered]
    constructor
    · intro hid
      exact ⟨m, g.delivered, rfl, hid⟩
    · intro hmem
      rcases hmem with ⟨m', rest', heq, hid⟩
      cases heq
      exact hid

/-- An operation that publishes nothing leaves subscribers in step with the same live map. -/
theorem inStep_unpublished_iff {g' : GossipMembership} (h : g.InStep)
    (hdelivered : g'.delivered = g.delivered) :
    g'.InStep ↔ (g.delivered ≠ [] → ∀ id, g'.memberTable.live id = g.memberTable.live id) := by
  constructor
  · intro hin hd id
    rcases hmap : g.delivered with _ | ⟨m, rest⟩
    · exact absurd hmap hd
    · rw [← h m rest hmap id]
      exact (hin m rest (hdelivered.trans hmap) id).symm
  · intro htold m rest hmap id
    rw [hdelivered] at hmap
    rw [h m rest hmap id, htold (by rw [hmap]; simp) id]

/-- Some member begins or ceases to be live, or the live map stays the same. -/
def Shows (live live' : NodeId → Option Endpoint) : Prop :=
  (∃ id, (live' id).isSome ≠ (live id).isSome) ∨ ∀ id, live' id = live id

/-- Subscribers stay in step with a changed table if `notifyChange` can see the change. -/
theorem inStep_settle_iff (hg : g.Subscribed) (h : g.InStep) {t : MemberTable} {changed : Bool}
    (hsame : changed = false → ∀ id, t.live id = g.memberTable.live id) :
    (g.settle (t, changed)).InStep ↔
      (g.delivered ≠ [] → Shows g.memberTable.live t.live) := by
  rcases changed with _ | _
  · have hlive := hsame rfl
    exact iff_of_true ((@inStep_unpublished_iff g { g with memberTable := t } h rfl).mpr
      fun _ => hlive) fun _ => Or.inr hlive
  · let g' : GossipMembership := { g with memberTable := t }
    show g'.notifyChange.InStep ↔ _
    have hmem : g.delivered ≠ [] → ∀ id, id ∈ g'.lastAliveSet ↔
        (g.memberTable.live id).isSome := h.mem_lastAliveSet hg
    obtain ⟨hids, hsilent⟩ | ⟨hids, -, -, m, hm, hdelivered⟩ :=
      @notifyChange_cases g' hg.callback
    · rw [hsilent, @inStep_unpublished_iff g g' h rfl]
      refine forall_congr' fun hd => (or_iff_right ?_).symm
      intro hdiffer
      rcases hdiffer with ⟨id, hid⟩
      exact hid (Bool.eq_iff_iff.mpr ((hids id).symm.trans (hmem hd id)))
    · refine iff_of_true ?_ ?_
      · intro m' rest heq id
        rw [hdelivered] at heq
        cases heq
        rw [memberTable_notifyChange]
        exact hm id
      · intro hd
        refine Or.inl (not_forall_not.mp fun hnone => hids fun id => ?_)
        rw [hmem hd id, ← Bool.eq_iff_iff]
        exact (not_not.mp (hnone id)).symm

/-! ### What a merge makes of a member -/

section Merge

variable {α : Type*} [LinearOrder α] {rank : MemberRecord → α} {self : NodeId}
  {step : MemberTable × Bool → Incoming → MemberTable × Bool} {t : MemberTable} {changed : Bool}
  {e : Incoming}

/-- The records about a member: the one in the table, and those that come in. -/
def about (t : MemberTable) (view : List MemberRecord) (id : NodeId) : List MemberRecord :=
  (t.recordOf id).toList ++ view.filter fun r => r.nodeId = id

/-- The endpoint of a member that is alive once a view has been merged, if endpoints come
from the first record of the highest rank. -/
def liveAfter (rank : MemberRecord → α) (self : NodeId) (t : MemberTable)
    (view : List MemberRecord) (id : NodeId) : Option Endpoint :=
  if id = self then t.live id
  else if ((about t view id).argmax MemberRecord.version).any fun r => r.status = .alive then
    ((about t view id).argmax rank).map MemberRecord.endpoint
  else none

/-- Of what there is of a record, this tells its rank and where the member is. -/
def source (rank : MemberRecord → α) (r : MemberRecord) : α × Endpoint := (rank r, r.endpoint)

omit [LinearOrder α] in
theorem liveRecord_eq {x a b : Option MemberRecord}
    (hversion : x.map MemberRecord.version = a.map MemberRecord.version)
    (hsource : x.map (source rank) = b.map (source rank)) :
    liveRecord x =
      if a.any fun r => r.status = .alive then b.map MemberRecord.endpoint else none := by
  have hendpoint : x.map MemberRecord.endpoint = b.map MemberRecord.endpoint := by
    have h := congrArg (Option.map Prod.snd) hsource
    rw [Option.map_map, Option.map_map] at h
    exact h
  rw [← hendpoint]
  rcases x with _ | r
  · simp [liveRecord]
  · rw [Option.map_some, eq_comm, Option.map_eq_some_iff] at hversion
    rcases hversion with ⟨top, rfl, hv⟩
    have hstatus : top.status = r.status := (version_eq_iff.mp hv).2.2
    rw [liveRecord_some, Option.any_some, hstatus, Option.map_some]
    simp only [decide_eq_true_eq]

/-- The version of the member that a record is about. -/
theorem Absorbs.version {out : MemberTable × Bool} (h : Absorbs self t changed e out)
    (hself : e.1.nodeId ≠ self) :
    (out.1.recordOf e.1.nodeId).map MemberRecord.version =
      some (outrank MemberRecord.version (t.recordOf e.1.nodeId) e.1).version := by
  cases h with
  | skip h =>
      rcases h.resolve_left hself with ⟨loc, hfind, hle⟩
      rw [recordOf_of_find hfind]
      unfold outrank
      dsimp only [Option.map_some]
      rw [if_neg (not_lt.mpr hle)]
  | take entry hself' hid hversion hnow hnewer =>
      rw [recordOf_put, if_pos hid.symm, Option.map_some, hversion]
      rcases hfind : t.find e.1.nodeId with _ | loc
      · rw [recordOf_of_not_find hfind]
        rfl
      · rw [recordOf_of_find hfind]
        unfold outrank
        dsimp only
        rw [if_pos (hnewer loc hfind)]

theorem Absorbs.find_of_ne {out : MemberTable × Bool} (h : Absorbs self t changed e out)
    (hid : id ≠ e.1.nodeId) : out.1.find id = t.find id := by
  cases h with
  | skip h => rfl
  | take entry hself hid' hversion hnow hnewer =>
      rw [find_put, if_neg]
      rw [hid']
      exact hid

/-- A merge that reports no change has made none. -/
theorem fold_unchanged (hstep : ∀ acc e, Absorbs self acc.1 acc.2 e (step acc e))
    {es : List Incoming} (h : (es.foldl step (t, false)).2 = false) :
    (es.foldl step (t, false)).1 = t := by
  induction es using List.reverseRecOn with
  | nil => rfl
  | append_singleton es e ih =>
      rw [List.foldl_append] at h ⊢
      have hlast := hstep (es.foldl step (t, false)) e
      rw [show step (es.foldl step (t, false)) e =
        [e].foldl step (es.foldl step (t, false)) from rfl] at hlast
      rcases hout : [e].foldl step (es.foldl step (t, false)) with ⟨t', changed'⟩
      rw [hout] at h hlast
      cases hlast with
      | skip h' => exact ih h
      | take entry hself hid hversion hnow hnewer => cases h

theorem recordOf_of_other (hstep : ∀ acc e, Absorbs self acc.1 acc.2 e (step acc e))
    (acc : MemberTable × Bool) (e : Incoming) (he : decide (e.1.nodeId = id) = false) :
    (step acc e).1.recordOf id = acc.1.recordOf id :=
  congrArg (Option.map MemberEntry.record)
    ((hstep acc e).find_of_ne fun h => of_decide_eq_false he h.symm)

/-- The version of a member once a view has been merged is the highest there is about it. -/
theorem version_fold (hstep : ∀ acc e, Absorbs self acc.1 acc.2 e (step acc e))
    (hid : id ≠ self) (es : List Incoming) (changed : Bool) (t : MemberTable) :
    ((es.foldl step (t, changed)).1.recordOf id).map MemberRecord.version =
      ((about t (es.map Prod.fst) id).argmax MemberRecord.version).map MemberRecord.version := by
  refine foldl_outrank (fun acc : MemberTable × Bool => acc.1.recordOf id) Prod.fst
    (fun r => r.nodeId = id) (fun _ _ h => h) ?_ (recordOf_of_other hstep) es (t, changed)
  intro acc e he
  have he : e.1.nodeId = id := of_decide_eq_true he
  have h := (hstep acc e).version (he.symm ▸ hid)
  rw [he] at h
  exact h

/-- And what goes with the rank is what goes with it in the first record that ranks highest. -/
theorem source_fold (hstep : ∀ acc e, Absorbs self acc.1 acc.2 e (step acc e))
    (hsource : ∀ acc e, e.1.nodeId ≠ self →
      ((step acc e).1.recordOf e.1.nodeId).map (source rank) =
        some (source rank (outrank rank (acc.1.recordOf e.1.nodeId) e.1)))
    (hid : id ≠ self) (es : List Incoming) (changed : Bool) (t : MemberTable) :
    ((es.foldl step (t, changed)).1.recordOf id).map (source rank) =
      ((about t (es.map Prod.fst) id).argmax rank).map (source rank) := by
  refine foldl_outrank (fun acc : MemberTable × Bool => acc.1.recordOf id) Prod.fst
    (fun r => r.nodeId = id) (fun _ _ h => congrArg Prod.fst h) ?_ (recordOf_of_other hstep) es
    (t, changed)
  intro acc e he
  have he : e.1.nodeId = id := of_decide_eq_true he
  have h := hsource acc e (he.symm ▸ hid)
  rw [he] at h
  exact h

/-- **What a merge makes of a member** is read off the records about it. -/
theorem live_fold (hstep : ∀ acc e, Absorbs self acc.1 acc.2 e (step acc e))
    (hsource : ∀ acc e, e.1.nodeId ≠ self →
      ((step acc e).1.recordOf e.1.nodeId).map (source rank) =
        some (source rank (outrank rank (acc.1.recordOf e.1.nodeId) e.1)))
    (es : List Incoming) (changed : Bool) (t : MemberTable) (id : NodeId) :
    (es.foldl step (t, changed)).1.live id = liveAfter rank self t (es.map Prod.fst) id := by
  unfold liveAfter
  by_cases hid : id = self
  · rw [if_pos hid, hid]
    exact live_congr (fold_find_self hstep)
  · rw [if_neg hid]
    exact liveRecord_eq (version_fold hstep hid es changed t)
      (source_fold hstep hsource hid es changed t)

/-- `mergeView` takes an endpoint only from a later generation. -/
theorem source_mergeRecord (acc : MemberTable × Bool) (e : Incoming) (hself : e.1.nodeId ≠ self) :
    ((mergeRecord self acc e).1.recordOf e.1.nodeId).map
        (source fun r => r.generation.toNat) =
      some (source (fun r => r.generation.toNat)
        (outrank (fun r => r.generation.toNat) (acc.1.recordOf e.1.nodeId) e.1)) := by
  rcases acc with ⟨t, changed⟩
  rcases e with ⟨r, now⟩
  unfold mergeRecord
  dsimp only at hself ⊢
  rw [if_neg hself]
  rcases hfind : t.find r.nodeId with _ | loc
  · dsimp only
    rw [recordOf_put, if_pos rfl, recordOf_of_not_find hfind]
    rfl
  · have hid : r.nodeId = loc.record.nodeId := (t.filed _ _ hfind).symm
    have hheld : t.recordOf r.nodeId = some loc.record := recordOf_of_find hfind
    dsimp only
    rw [hheld]
    unfold outrank
    dsimp only
    by_cases hlater : r.generation > loc.record.generation
    · rw [if_pos hlater, if_pos (UInt32.lt_iff_toNat_lt.mp hlater), recordOf_put, if_pos rfl]
      rfl
    · rw [if_neg hlater, if_neg fun h => hlater (UInt32.lt_iff_toNat_lt.mpr h)]
      split
      · rw [hheld]
        rfl
      · split
        · rw [recordOf_put, if_pos hid]
          rfl
        · split
          · rw [recordOf_put, if_pos hid]
            rfl
          · rw [hheld]
            rfl

/-- A gossip round takes the whole record. -/
theorem source_mergeResponseRecord (acc : MemberTable × Bool) (e : Incoming)
    (hself : e.1.nodeId ≠ self) :
    ((mergeResponseRecord self acc e).1.recordOf e.1.nodeId).map
        (source MemberRecord.version) =
      some (source MemberRecord.version
        (outrank MemberRecord.version (acc.1.recordOf e.1.nodeId) e.1)) := by
  rcases acc with ⟨t, changed⟩
  rcases e with ⟨r, now⟩
  unfold mergeResponseRecord
  dsimp only at hself ⊢
  rw [if_neg hself]
  rcases hfind : t.find r.nodeId with _ | loc
  · dsimp only
    rw [recordOf_put, if_pos rfl, recordOf_of_not_find hfind]
    rfl
  · dsimp only
    rw [recordOf_of_find hfind]
    unfold outrank
    dsimp only
    by_cases hnewer : loc.record.version < r.version
    · rw [if_pos ((outdated_iff _ _).mpr hnewer), if_pos hnewer, recordOf_put, if_pos rfl]
      rfl
    · rw [if_neg fun h => hnewer ((outdated_iff _ _).mp h), if_neg hnewer,
        recordOf_of_find hfind]
      rfl

end Merge

/-! ### One operation -/

/-- The operations after which subscribers know the live map, if they knew it before. -/
def Told (g : GossipMembership) (a : Action) : Prop :=
  g.delivered ≠ [] →
    match a with
    | .mergeView _ view => Shows g.memberTable.live
        (liveAfter (fun r => r.generation.toNat) g.selfNodeId g.memberTable view)
    | .mergeResponse _ view => Shows g.memberTable.live
        (liveAfter MemberRecord.version g.selfNodeId g.memberTable view)
    | .bootstrap _ view => ∀ id r, id ≠ g.selfNodeId → lastAbout id view = some r →
        liveRecord (some r) = g.memberTable.live id
    | .depart => g.memberTable.live g.selfNodeId = none
    | .beat _ _ | .detectFailures _ => True

theorem Subscribed.settle (hg : g.Subscribed) (result : MemberTable × Bool) :
    (g.settle result).Subscribed := by
  have hg' : ({ g with memberTable := result.1 } : GossipMembership).Subscribed :=
    ⟨hg.callback, hg.cached⟩
  unfold GossipMembership.settle
  dsimp only
  split
  · exact hg'.notifyChange
  · exact hg'

/-- What is published and what is remembered are no part of the member table. -/
theorem modifySelf_eq (f : MemberEntry → MemberEntry) (g : GossipMembership) :
    ∃ t, g.modifySelf f = { g with memberTable := t } := by
  unfold modifySelf
  split
  · exact ⟨_, rfl⟩
  · exact ⟨g.memberTable, rfl⟩

theorem Subscribed.modifySelf (hg : g.Subscribed) (f : MemberEntry → MemberEntry) :
    (g.modifySelf f).Subscribed := by
  obtain ⟨t, ht⟩ := modifySelf_eq f g
  rw [ht]
  exact ⟨hg.callback, hg.cached⟩

theorem Subscribed.perform (hg : g.Subscribed) (a : Action) : (g.perform a).Subscribed := by
  rcases a with ⟨clock, view⟩ | ⟨clock, view⟩ | ⟨clock, view⟩ | ⟨now, now'⟩ | ⟨now⟩ | _
  · exact hg.settle _
  · exact hg.settle _
  · exact ⟨hg.callback, hg.cached⟩
  · exact (hg.modifySelf _).settle _
  · exact hg.settle _
  · have hg' : ({ g with running := false } : GossipMembership).Subscribed :=
      ⟨hg.callback, hg.cached⟩
    exact hg'.modifySelf _

/-- The failure detector makes nobody alive, and moves nobody. -/
theorem live_detectFailures (g : GossipMembership) (now : UInt64) (id : NodeId) :
    (g.detectFailures now).memberTable.live id = g.memberTable.live id ∨
      (g.detectFailures now).memberTable.live id = none := by
  have hfind := find_detectFailures g now id
  rcases hentry : g.memberTable.find id with _ | entry
  · rw [hentry, Option.map_none] at hfind
    exact Or.inl (live_congr (hfind.trans hentry.symm))
  · rw [hentry, Option.map_some] at hfind
    unfold MemberTable.live
    rw [recordOf_of_find hfind, recordOf_of_find hentry]
    by_cases hid : id = g.selfNodeId
    · rw [if_pos hid]
      exact Or.inl rfl
    · rw [if_neg hid]
      rcases detect_cases g.config now entry with hsame | ⟨status, hstatus, hdetect⟩
      · rw [hsame]
        exact Or.inl rfl
      · refine Or.inr ?_
        rw [hdetect]
        rw [liveRecord_some, if_neg]
        intro halive
        rw [show status = .alive from halive] at hstatus
        exact Nat.not_lt_zero _ hstatus

theorem InStep.detectFailures (h : g.InStep) (hg : g.Subscribed) (now : UInt64) :
    (g.detectFailures now).InStep := by
  have hlive : ∀ id, (g.detectFailures now).memberTable.live id = g.memberTable.live id ∨
      (g.detectFailures now).memberTable.live id = none := live_detectFailures g now
  unfold GossipMembership.detectFailures at hlive ⊢
  dsimp only at hlive ⊢
  rw [memberTable_settle] at hlive
  refine (inStep_settle_iff hg h fun hunchanged id => ?_).mpr fun _ => ?_
  · refine live_congr ?_
    rw [find_mapEntries]
    rcases hentry : g.memberTable.find id with _ | entry
    · rfl
    · have hall := List.any_eq_false.mp hunchanged ⟨id, entry⟩ (mem_entries.mpr hentry)
      rw [Option.map_some]
      exact congrArg some (not_not.mp fun hne => hall (decide_eq_true hne))
  · refine or_iff_not_imp_left.mpr fun hnone id => ?_
    have hid := not_not.mp (not_exists.mp hnone id)
    rcases hlive id with hsame | hgone
    · exact hsame
    · rw [hgone, Option.isSome_none, eq_comm, Option.isSome_eq_false_iff,
        Option.isNone_iff_eq_none] at hid
      exact hgone.trans hid.symm

/-- A heartbeat does not change the live map. -/
theorem live_beaten (g : GossipMembership) (now : UInt64) (id : NodeId) :
    (g.modifySelf (beaten now)).memberTable.live id = g.memberTable.live id := by
  rcases hself : g.memberTable.find g.selfNodeId with _ | entry
  · unfold modifySelf
    rw [hself]
  · have hfind := find_modifySelf hself (f := beaten now) rfl id
    by_cases hid : id = g.selfNodeId
    · rw [if_pos hid] at hfind
      unfold MemberTable.live
      rw [recordOf_of_find hfind, hid, recordOf_of_find hself, liveRecord_some, liveRecord_some]
      rfl
    · rw [if_neg hid] at hfind
      exact live_congr hfind

theorem live_depart (g : GossipMembership) (id : NodeId) :
    g.depart.memberTable.live id =
      if id = g.selfNodeId then none else g.memberTable.live id := by
  rcases hself : g.memberTable.find g.selfNodeId with _ | entry
  · have hnone : g.depart.memberTable = g.memberTable := by
      unfold depart modifySelf
      dsimp only
      rw [hself]
    rw [hnone]
    split
    · rename_i hid
      unfold MemberTable.live
      rw [hid, recordOf_of_not_find hself]
      rfl
    · rfl
  · have hfind := find_depart hself id
    by_cases hid : id = g.selfNodeId
    · rw [if_pos hid] at hfind ⊢
      unfold MemberTable.live
      rw [recordOf_of_find hfind]
      rfl
    · rw [if_neg hid] at hfind ⊢
      exact live_congr hfind

theorem delivered_modifySelf (f : MemberEntry → MemberEntry) (g : GossipMembership) :
    (g.modifySelf f).delivered = g.delivered := by
  obtain ⟨t, ht⟩ := modifySelf_eq f g
  rw [ht]

theorem InStep.beat (h : g.InStep) (hg : g.Subscribed) (now now' : UInt64) :
    (g.beat now now').InStep := by
  have hbeaten : (g.modifySelf (beaten now)).InStep :=
    (inStep_unpublished_iff h (delivered_modifySelf _ g)).mpr fun _ => live_beaten g now
  exact hbeaten.detectFailures (hg.modifySelf _) now'

theorem inStep_depart_iff (h : g.InStep) : g.depart.InStep ↔ g.Told .depart := by
  rw [@inStep_unpublished_iff g g.depart h (delivered_modifySelf _ _)]
  refine forall_congr' fun _ => ?_
  constructor
  · intro hlive
    have hself := hlive g.selfNodeId
    rw [live_depart, if_pos rfl] at hself
    exact hself.symm
  · intro hgone id
    rw [live_depart]
    split
    · rename_i hid
      rw [hid]
      exact hgone.symm
    · rfl

theorem inStep_bootstrap_iff (h : g.InStep) (clock : Nat → UInt64) (view : List MemberRecord) :
    (g.bootstrap clock view).InStep ↔ g.Told (.bootstrap clock view) := by
  rw [@inStep_unpublished_iff g (g.bootstrap clock view) h rfl]
  refine forall_congr' fun _ => ?_
  have hrecord : ∀ id, id ≠ g.selfNodeId → (g.bootstrap clock view).memberTable.recordOf id =
      (lastAbout id view).or (g.memberTable.recordOf id) :=
    fun id hid => record_bootstrap clock view g hid
  constructor
  · intro hlive id r hid hlast
    rw [← hlive id]
    unfold MemberTable.live
    rw [hrecord id hid, hlast]
    rfl
  · intro htold id
    by_cases hid : id = g.selfNodeId
    · rw [hid]
      exact live_congr (find_bootstrap_self clock view g)
    · unfold MemberTable.live
      rw [hrecord id hid]
      rcases hlast : lastAbout id view with _ | r
      · rfl
      · exact htold id r hid hlast

/-- A merge whose endpoints come from the first record of the highest rank. -/
theorem inStep_merge_iff {α : Type*} [LinearOrder α] {rank : MemberRecord → α}
    {step : MemberTable × Bool → Incoming → MemberTable × Bool}
    (hstep : ∀ acc e, Absorbs g.selfNodeId acc.1 acc.2 e (step acc e))
    (hsource : ∀ acc e, e.1.nodeId ≠ g.selfNodeId →
      ((step acc e).1.recordOf e.1.nodeId).map (source rank) =
        some (source rank (outrank rank (acc.1.recordOf e.1.nodeId) e.1)))
    (hg : g.Subscribed) (h : g.InStep) (clock : Nat → UInt64) (view : List MemberRecord) :
    (g.settle ((timed clock view).foldl step (g.memberTable, false))).InStep ↔
      (g.delivered ≠ [] → Shows g.memberTable.live
        (liveAfter rank g.selfNodeId g.memberTable view)) := by
  have hlive : ((timed clock view).foldl step (g.memberTable, false)).1.live =
      liveAfter rank g.selfNodeId g.memberTable view := by
    funext id
    rw [live_fold hstep hsource, map_fst_timed]
  rw [← hlive]
  refine inStep_settle_iff hg h fun hunchanged id => ?_
  rw [fold_unchanged hstep hunchanged]

/-- One operation. -/
theorem inStep_perform_iff (hg : g.Subscribed) (h : g.InStep) (a : Action) :
    (g.perform a).InStep ↔ g.Told a := by
  rcases a with ⟨clock, view⟩ | ⟨clock, view⟩ | ⟨clock, view⟩ | ⟨now, now'⟩ | ⟨now⟩ | _
  · exact inStep_merge_iff (mergeRecord_absorbs g.selfNodeId) source_mergeRecord hg h clock view
  · exact inStep_merge_iff (mergeResponseRecord_absorbs g.selfNodeId) source_mergeResponseRecord
      hg h clock view
  · exact inStep_bootstrap_iff h clock view
  · exact iff_of_true (h.beat hg now now') fun _ => trivial
  · exact iff_of_true (h.detectFailures hg now) fun _ => trivial
  · exact inStep_depart_iff h

/-! ### A run -/

/-- Nobody has subscribed yet, and nothing has been published. -/
def Unsubscribed (g : GossipMembership) : Prop :=
  g.changeCallback = false ∧ g.delivered = [] ∧ g.lastAliveSet = ∅

theorem Unsubscribed.settle (hg : g.Unsubscribed) (result : MemberTable × Bool) :
    (g.settle result).Unsubscribed := by
  unfold GossipMembership.settle notifyChange
  dsimp only
  rw [if_pos hg.1]
  split
  · exact hg
  · exact hg

theorem Unsubscribed.modifySelf (hg : g.Unsubscribed) (f : MemberEntry → MemberEntry) :
    (g.modifySelf f).Unsubscribed := by
  obtain ⟨t, ht⟩ := modifySelf_eq f g
  rw [ht]
  exact hg

theorem Unsubscribed.perform (hg : g.Unsubscribed) (a : Action) :
    (g.perform a).Unsubscribed := by
  rcases a with ⟨clock, view⟩ | ⟨clock, view⟩ | ⟨clock, view⟩ | ⟨now, now'⟩ | ⟨now⟩ | _
  · exact hg.settle _
  · exact hg.settle _
  · exact hg
  · exact (hg.modifySelf _).settle _
  · exact hg.settle _
  · have hg' : ({ g with running := false } : GossipMembership).Unsubscribed := hg
    exact hg'.modifySelf _

theorem Unsubscribed.run (hg : g.Unsubscribed) (as : List Action) :
    (Machine.run GossipMembership.perform g as).Unsubscribed :=
  run_keeps (fun _ a h => h.perform a) hg as

theorem Unsubscribed.subscribed (hg : g.Unsubscribed) : g.setChangeCallback.Subscribed := by
  refine ⟨rfl, fun id => ?_⟩
  show id ∈ g.lastAliveSet ↔ ∃ m rest, g.delivered = m :: rest ∧ id ∈ m
  rw [hg.2.1, hg.2.2]
  simp

theorem Unsubscribed.inStep (hg : g.Unsubscribed) : g.setChangeCallback.InStep := by
  intro m rest hdelivered
  rw [show g.setChangeCallback.delivered = [] from hg.2.1] at hdelivered
  cases hdelivered

theorem Subscribed.run (hg : g.Subscribed) (as : List Action) :
    (Machine.run GossipMembership.perform g as).Subscribed :=
  run_keeps (fun _ a h => h.perform a) hg as

theorem inStep_run {as : List Action} (hg : g.Subscribed) (h : g.InStep)
    (has : Along perform Told g as) : (run perform g as).InStep := by
  have hboth := has.invariant (I := fun g => g.Subscribed ∧ g.InStep) ⟨hg, h⟩ fun g a hI ha =>
    ⟨hI.1.perform a, (inStep_perform_iff hI.1 hI.2 a).mpr ha⟩
  exact hboth.2

/-- **When subscribers see the current live map.**  Whatever is done to a server before and
after its callback is set: the last map that the callback got is always the live map if and
only if nothing happens that `notifyChange` is not called for or cannot see. -/
theorem subscribers_in_step_iff (i : NodeId) (config : GossipConfig) (loaded : UInt32)
    (now : UInt64) (before as : List Action) :
    (∀ pre, pre <+: as → (run perform
      (run perform (construct i config loaded now) before).setChangeCallback pre).InStep) ↔
    Along perform Told (run perform (construct i config loaded now) before).setChangeCallback
      as := by
  have hconstruct : (construct i config loaded now).Unsubscribed := ⟨rfl, rfl, rfl⟩
  have hbefore := hconstruct.run before
  constructor
  · intro h
    refine along_iff.mpr fun pre a hpre => ?_
    have hlast := h (pre ++ [a]) hpre
    rw [run_snoc] at hlast
    exact (inStep_perform_iff (hbefore.subscribed.run pre)
      (h pre ((List.prefix_append pre [a]).trans hpre)) a).mp hlast
  · intro h pre hpre
    exact inStep_run hbefore.subscribed hbefore.inStep (h.initial hpre)

/-- Server 1, in its first incarnation. -/
def moving1 : MemberRecord where
  nodeId := 1
  endpoint := str "b:1"
  status := .alive
  heartbeatCounter := 0
  generation := 1

/-- Server 1 comes back under a new endpoint, and subscribers keep the old one. -/
theorem moved_member_unpublished : ¬ ∀ (i : NodeId) (config : GossipConfig) (loaded : UInt32)
    (now : UInt64) (as : List Action),
    (run perform (construct i config loaded now).setChangeCallback as).InStep := by
  intro h
  have hin := h 0
    { endpoint := str "a:1", seedNodes := [], suspectThresholdMs := 3000
      deadThresholdMs := 10000 } 0 0
    [.mergeView (fun _ => 0) [moving1],
     .mergeView (fun _ => 0) [{ moving1 with endpoint := str "b:2", generation := 2 }]] _ _ rfl 1
  revert hin
  decide

end GossipMembership

end DistKV
