/-
The two ways a view is merged.

`mergeView` and the merge of a gossip round take the same records at the same moments, so
they agree on everything that is compared, on when it was heard, and on whether anything has
changed.  They do not agree on what comes along: within a generation `mergeView` keeps the
endpoint it has, and a gossip round takes the whole record.
-/
import DistKV.Proofs.Subscribers

namespace DistKV

open Join MemberTable

/-! ### What both do alike -/

/-- What is compared of an entry, and when it was heard. -/
abbrev Stamps := NodeId → Option (Version × UInt64)

def MemberTable.stamps (t : MemberTable) : Stamps := fun id =>
  (t.find id).map fun entry => (entry.record.version, entry.lastUpdatedMs)

/-- Whom a record was taken about, and when. -/
abbrev Hearings := List (NodeId × UInt64)

namespace GossipMembership

variable {g : GossipMembership} {self id : NodeId} {t t' : MemberTable} {changed : Bool}

/-- A record about somebody who is unknown, or newer than what is known. -/
def newer (self : NodeId) (held : Stamps) (r : MemberRecord) : Bool :=
  r.nodeId ≠ self &&
    match held r.nodeId with
    | none => true
    | some v => v.1 < r.version

/-- What becomes of a record, where `takes` says which ones are taken. -/
def hear (takes : Stamps → MemberRecord → Bool) (acc : Stamps × Hearings) (e : Incoming) :
    Stamps × Hearings :=
  if takes acc.1 e.1 then
    (Function.update acc.1 e.1.nodeId (some (e.1.version, e.2)), acc.2 ++ [(e.1.nodeId, e.2)])
  else acc

theorem stamps_put (entry : MemberEntry) (t : MemberTable) : (t.put entry).stamps =
    Function.update t.stamps entry.record.nodeId
      (some (entry.record.version, entry.lastUpdatedMs)) := by
  funext id
  unfold stamps
  rw [find_put]
  by_cases hid : id = entry.record.nodeId
  · rw [if_pos hid, hid, Function.update_self, Option.map_some]
  · rw [if_neg hid, Function.update_of_ne hid]

theorem newer_iff {r : MemberRecord} : newer self t.stamps r = true ↔ r.nodeId ≠ self ∧
    ∀ loc, t.find r.nodeId = some loc → loc.record.version < r.version := by
  unfold newer stamps
  rw [Bool.and_eq_true, decide_eq_true_eq]
  refine and_congr_right fun _ => ?_
  rcases t.find r.nodeId with _ | loc
  · simp
  · simp

/-- Either merge takes the newer records, and reports a change if it has taken any. -/
theorem Absorbs.heard {e : Incoming} {out : MemberTable × Bool}
    (h : Absorbs self t changed e out) {log : Hearings} (hlog : changed = true ↔ log ≠ []) :
    (hear (newer self) (t.stamps, log) e).1 = out.1.stamps ∧
      (out.2 = true ↔ (hear (newer self) (t.stamps, log) e).2 ≠ []) := by
  unfold hear
  cases h with
  | skip h =>
      rw [if_neg]
      · exact ⟨rfl, hlog⟩
      · intro htaken
        obtain ⟨hself, hnewer⟩ := newer_iff.mp htaken
        rcases h.resolve_left hself with ⟨loc, hfind, hle⟩
        exact not_lt.mpr hle (hnewer loc hfind)
  | take entry hself hid hversion hnow hnewer =>
      rw [if_pos (newer_iff.mpr ⟨hself, hnewer⟩), stamps_put, hid, hversion, hnow]
      exact ⟨rfl, iff_of_true rfl (by simp)⟩

theorem fold_heard {step : MemberTable × Bool → Incoming → MemberTable × Bool}
    (hstep : ∀ acc e, Absorbs self acc.1 acc.2 e (step acc e)) (es : List Incoming)
    {acc : MemberTable × Bool} {log : Hearings} (hlog : acc.2 = true ↔ log ≠ []) :
    (es.foldl (hear (newer self)) (acc.1.stamps, log)).1 = (es.foldl step acc).1.stamps ∧
      ((es.foldl step acc).2 = true ↔
        (es.foldl (hear (newer self)) (acc.1.stamps, log)).2 ≠ []) := by
  induction es generalizing acc log with
  | nil => exact ⟨rfl, hlog⟩
  | cons e es ih =>
      obtain ⟨hstamps, hchanged⟩ := (hstep acc e).heard hlog
      have hnext := ih hchanged
      rw [← hstamps] at hnext
      exact hnext

/-- Entries with the same stamp differ in their endpoints, or not at all. -/
theorem find_eq_iff (h : t.stamps id = t'.stamps id) :
    t.find id = t'.find id ↔
      (t.recordOf id).map MemberRecord.endpoint = (t'.recordOf id).map MemberRecord.endpoint := by
  unfold stamps at h
  unfold recordOf
  rcases hfind : t.find id with _ | entry
  · rw [hfind, Option.map_none, eq_comm, Option.map_eq_none_iff] at h
    rw [h]
    exact iff_of_true rfl rfl
  · rw [hfind, Option.map_some, eq_comm, Option.map_eq_some_iff] at h
    obtain ⟨entry', hfind', hstamp⟩ := h
    rw [Prod.mk.injEq, version_eq_iff] at hstamp
    obtain ⟨⟨hgeneration, hheartbeat, hstatus⟩, hnow⟩ := hstamp
    have hid : entry.record.nodeId = id := t.filed id entry hfind
    have hid' : entry'.record.nodeId = id := t'.filed id entry' hfind'
    rw [hfind', Option.map_some, Option.map_some, Option.map_some, Option.map_some,
      Option.some.injEq, Option.some.injEq]
    constructor
    · intro heq
      rw [heq]
    · intro hendpoint
      rcases entry with ⟨⟨_, _, _, _, _⟩, _⟩
      rcases entry' with ⟨⟨_, _, _, _, _⟩, _⟩
      dsimp only at *
      rw [hid, hid', hendpoint, hstatus, hheartbeat, hgeneration, hnow]

/-! ### The two merges -/

/-- The table that `mergeView` leaves, and whether it has changed. -/
def mergedByView (clock : Nat → UInt64) (view : List MemberRecord) (g : GossipMembership) :
    MemberTable × Bool :=
  (timed clock view).foldl (mergeRecord g.selfNodeId) (g.memberTable, false)

theorem mergeView_eq (clock : Nat → UInt64) (view : List MemberRecord) (g : GossipMembership) :
    (g.mergeView clock view).2 = g.settle (g.mergedByView clock view) := rfl

/-- The table that a gossip round leaves, and whether it has changed. -/
def mergedByRound (clock : Nat → UInt64) (view : List MemberRecord) (g : GossipMembership) :
    MemberTable × Bool :=
  (timed clock view).foldl (mergeResponseRecord g.selfNodeId) (g.memberTable, false)

theorem mergeResponse_eq (clock : Nat → UInt64) (view : List MemberRecord)
    (g : GossipMembership) :
    g.mergeResponse clock view = g.settle (g.mergedByRound clock view) := rfl

/-- What is compared, when it was heard, and the decision are always the same. -/
theorem merged_alike (clock : Nat → UInt64) (view : List MemberRecord) (g : GossipMembership) :
    (g.mergedByView clock view).1.stamps = (g.mergedByRound clock view).1.stamps ∧
      (g.mergedByView clock view).2 = (g.mergedByRound clock view).2 := by
  have hnone : (g.memberTable, false).2 = true ↔ ([] : Hearings) ≠ [] := by simp
  obtain ⟨hstamps, hchanged⟩ := fold_heard (mergeRecord_absorbs g.selfNodeId)
    (timed clock view) hnone
  obtain ⟨hstamps', hchanged'⟩ := fold_heard (mergeResponseRecord_absorbs g.selfNodeId)
    (timed clock view) hnone
  exact ⟨hstamps.symm.trans hstamps', Bool.eq_iff_iff.mpr (hchanged.trans hchanged'.symm)⟩

/-- The endpoint that a merge leaves is the one of the first record that ranks highest. -/
theorem endpoint_fold {α : Type} [LinearOrder α] {rank : MemberRecord → α}
    {step : MemberTable × Bool → Incoming → MemberTable × Bool}
    (hstep : ∀ acc e, Absorbs self acc.1 acc.2 e (step acc e))
    (hsource : ∀ acc e, e.1.nodeId ≠ self →
      ((step acc e).1.recordOf e.1.nodeId).map (source rank) =
        some (source rank (outrank rank (acc.1.recordOf e.1.nodeId) e.1)))
    (hid : id ≠ self) (clock : Nat → UInt64) (view : List MemberRecord) (t : MemberTable) :
    (((timed clock view).foldl step (t, false)).1.recordOf id).map MemberRecord.endpoint =
      ((about t view id).argmax rank).map MemberRecord.endpoint := by
  have h := congrArg (Option.map Prod.snd) (source_fold hstep hsource hid (timed clock view)
    false t)
  rw [Option.map_map, Option.map_map, map_fst_timed] at h
  exact h

/-- **When the two merges agree**: they leave the same table and come to the same decision
exactly if, for each member, the first record of its last generation and the first one of its
last version name the same endpoint. -/
theorem merges_agree_iff (g : GossipMembership) (view : List MemberRecord)
    (clock : Nat → UInt64) :
    ((∀ id, (g.mergeView clock view).2.memberTable.find id =
        (g.mergeResponse clock view).memberTable.find id) ∧
      (g.mergedByView clock view).2 = (g.mergedByRound clock view).2) ↔
    ∀ id, id ≠ g.selfNodeId →
      ((about g.memberTable view id).argmax fun r => r.generation.toNat).map
          MemberRecord.endpoint =
        ((about g.memberTable view id).argmax MemberRecord.version).map
          MemberRecord.endpoint := by
  obtain ⟨hstamps, hchanged⟩ := merged_alike clock view g
  rw [and_iff_left hchanged, mergeView_eq, mergeResponse_eq, memberTable_settle,
    memberTable_settle]
  refine forall_congr' fun id => ?_
  by_cases hid : id = g.selfNodeId
  · refine iff_of_true ?_ fun hne => absurd hid hne
    rw [hid]
    exact (fold_find_self (mergeRecord_absorbs g.selfNodeId)).trans
      (fold_find_self (mergeResponseRecord_absorbs g.selfNodeId)).symm
  · rw [forall_prop_of_true hid, find_eq_iff (congrFun hstamps id)]
    have hview := endpoint_fold (mergeRecord_absorbs g.selfNodeId) source_mergeRecord hid clock
      view g.memberTable
    have hround := endpoint_fold (mergeResponseRecord_absorbs g.selfNodeId)
      source_mergeResponseRecord hid clock view g.memberTable
    exact iff_of_eq (congrArg₂ Eq hview hround)

/-- Server 0, which has heard of server 1 at its first endpoint. -/
def acquainted : GossipMembership :=
  ((construct 0
    { endpoint := str "a:1", seedNodes := [], suspectThresholdMs := 3000, deadThresholdMs := 10000 }
    0 0).mergeView (fun _ => 1) [moving1]).2

/-- One more heartbeat of the same generation, from another endpoint. -/
theorem moved_member_splits_merges : ¬ ∀ (g : GossipMembership) (view : List MemberRecord)
    (clock : Nat → UInt64) (id : NodeId),
    (g.mergeView clock view).2.memberTable.find id =
      (g.mergeResponse clock view).memberTable.find id := by
  intro h
  have hsame := h acquainted [{ moving1 with endpoint := str "c:1", heartbeatCounter := 1 }]
    (fun _ => 2) 1
  revert hsame
  decide

end GossipMembership

end DistKV
