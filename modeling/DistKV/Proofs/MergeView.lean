/-
`mergeView` is a join.

For everybody but the server itself, a merge leaves the greatest version there is in the
table and in the message, and an entry gets a new time stamp exactly when its version
rises.  On versions it therefore makes no difference in which order two messages come, or
whether one comes twice.
-/
import DistKV.Proofs.Gossip

namespace DistKV

open Join MemberTable

namespace GossipMembership

variable {clock : Nat → UInt64} {incoming : List MemberRecord} {g : GossipMembership}
  {id : NodeId} {entry : MemberEntry}

/-- What `mergeView` is to do with `incoming`: it returns `view` and makes `g'` of `g`. -/
structure Merged (clock : Nat → UInt64) (incoming : List MemberRecord) (g : GossipMembership)
    (view : List MemberRecord) (g' : GossipMembership) : Prop where
  /-- The table holds the greatest version it held before or hears of now. -/
  greatest : ∀ id entry', id ≠ g.selfNodeId → g'.memberTable.find id = some entry' →
    IsGreatest ({v | ∃ entry, g.memberTable.find id = some entry ∧ entry.record.version = v} ∪
      {v | ∃ r ∈ incoming, r.nodeId = id ∧ r.version = v}) entry'.record.version
  /-- It holds something for an id if it did before or hears of the id now. -/
  known : ∀ id, id ≠ g.selfNodeId → ((∃ entry', g'.memberTable.find id = some entry') ↔
    (∃ entry, g.memberTable.find id = some entry) ∨ ∃ r ∈ incoming, r.nodeId = id)
  /-- The own entry is untouched. -/
  self : g'.memberTable.find g.selfNodeId = g.memberTable.find g.selfNodeId
  /-- No id is dropped. -/
  kept : ∀ id entry, g.memberTable.find id = some entry →
    ∃ entry', g'.memberTable.find id = some entry'
  /-- An id that is new, or whose version rose, has its time stamp from the record that
  brought the version. -/
  refreshed : ∀ id entry', id ≠ g.selfNodeId → g'.memberTable.find id = some entry' →
    (∀ entry, g.memberTable.find id = some entry →
      entry.record.version < entry'.record.version) →
    ∃ k r, incoming[k]? = some r ∧ r.nodeId = id ∧ r.version = entry'.record.version ∧
      entry'.lastUpdatedMs = clock k
  /-- An id whose version did not rise has the entry it had. -/
  unchanged : ∀ id entry entry', g.memberTable.find id = some entry →
    g'.memberTable.find id = some entry' → ¬ entry.record.version < entry'.record.version →
    entry' = entry
  /-- The view shows the merged table. -/
  shown : ∀ r, r ∈ view ↔ ∃ entry', g'.memberTable.find r.nodeId = some entry' ∧
    entry'.record = r
  /-- It shows each id once. -/
  once : (view.map MemberRecord.nodeId).Nodup

theorem mergeView_merged (clock : Nat → UInt64) (incoming : List MemberRecord)
    (g : GossipMembership) :
    Merged clock incoming g (g.mergeView clock incoming).1 (g.mergeView clock incoming).2 where
  greatest := by
    intro id entry' hself hfind
    have hversions := versions_of_find hfind
    rw [versions_mergeView] at hversions
    have hset : {v | ∃ entry, g.memberTable.find id = some entry ∧ entry.record.version = v} ∪
        {v | ∃ r ∈ incoming, r.nodeId = id ∧ r.version = v} =
        {v : Version | g.memberTable.versions id = (v : WithBot Version) ∨
          (id, v) ∈ heard g.selfNodeId incoming} := by
      ext v
      rw [Set.mem_union, Set.mem_ofPred_eq, Set.mem_ofPred_eq, Set.mem_ofPred_eq, versions_eq_iff,
        mem_heard]
      exact or_congr Iff.rfl (iff_of_eq (by simp [hself]))
    rw [hset]
    exact raiseAll_isGreatest hversions
  known := by
    intro id hself
    constructor
    · rintro ⟨entry', hfind⟩
      rcases find_mergeView hfind with hold | ⟨-, ⟨k, r, hk, hid, -, -⟩, -⟩
      · exact Or.inl ⟨entry', hold⟩
      · exact Or.inr ⟨r, List.mem_of_getElem? hk, hid⟩
    · rintro (⟨entry, hfind⟩ | ⟨r, hr, hid⟩)
      · rcases @find_mergeView_mono clock incoming g id entry hfind with ⟨entry', h, -⟩
        exact ⟨entry', h⟩
      · have hle : (r.version : WithBot Version) ≤
            (g.mergeView clock incoming).2.memberTable.versions id := by
          rw [versions_mergeView, raiseAll_apply]
          exact (le_best (mem_heard.mpr ⟨hself, r, hr, hid, rfl⟩)).trans le_sup_right
        cases hfind : (g.mergeView clock incoming).2.memberTable.find id with
        | none =>
            rw [versions_of_not_find hfind] at hle
            exact absurd hle (WithBot.not_coe_le_bot _)
        | some entry' => exact ⟨entry', rfl⟩
  self := find_mergeView_self
  kept := by
    intro id entry hfind
    rcases @find_mergeView_mono clock incoming g id entry hfind with ⟨entry', h, -⟩
    exact ⟨entry', h⟩
  refreshed := by
    intro id entry' hself hfind hrose
    rcases find_mergeView hfind with hold | ⟨-, hnew, -⟩
    · exact absurd (hrose entry' hold) (lt_irrefl _)
    · exact hnew
  unchanged := by
    intro id entry entry' hfind hfind' hnot
    rcases find_mergeView hfind' with hold | ⟨-, -, hlt⟩
    · rw [hfind] at hold
      exact (Option.some.inj hold).symm
    · exact absurd (hlt entry hfind) hnot
  shown := by
    intro r
    show r ∈ MemberTable.view _ ↔ _
    rw [mem_view]
    unfold mergeView
    simp only [memberTable_settle]
  once := view_nodup _

/-- **`mergeView` is a lattice join.**  Besides what it does to each entry: on versions, two
messages may be merged in either order, and one as often as one likes. -/
theorem mergeView_joins (clock : Nat → UInt64) (incoming : List MemberRecord)
    (g : GossipMembership) :
    Merged clock incoming g (g.mergeView clock incoming).1 (g.mergeView clock incoming).2 ∧
      (∀ clock' incoming',
        ((g.mergeView clock incoming).2.mergeView clock' incoming').2.memberTable.versions =
          ((g.mergeView clock' incoming').2.mergeView clock incoming).2.memberTable.versions) ∧
      ∀ clock', ((g.mergeView clock incoming).2.mergeView clock' incoming).2.memberTable.versions =
        (g.mergeView clock incoming).2.memberTable.versions := by
  refine ⟨mergeView_merged clock incoming g, fun clock' incoming' => ?_, fun clock' => ?_⟩
  · rw [versions_mergeView, versions_mergeView, versions_mergeView, versions_mergeView,
      selfNodeId_mergeView, selfNodeId_mergeView, raiseAll_comm]
  · rw [versions_mergeView, versions_mergeView, selfNodeId_mergeView, raiseAll_idem]

end GossipMembership

end DistKV
