/-
What a merge of gossip does to a member table.

The version of a record is its generation, its heartbeat and the severity of its status,
in this order.  `mergeView` and the merge of a gossip round go through their branches in
different ways, but in each case a record is taken exactly when its version is above the
one in the table, and then that is the version in the table (`Absorbs`).  So on versions
a merge is `Join.raiseAll`.
-/
import DistKV.Gossip
import DistKV.Lib.Join
import Mathlib.Data.Prod.Lex

namespace DistKV

open Join

/-! ### Versions -/

abbrev Version := Lex (Nat × Lex (Nat × Nat))

/-- Generation, heartbeat and status, compared in this order. -/
def MemberRecord.version (r : MemberRecord) : Version :=
  toLex (r.generation.toNat, toLex (r.heartbeatCounter.toNat, r.status.toNat))

theorem NodeStatus.toNat_injective : Function.Injective NodeStatus.toNat := by
  intro a b h
  cases a <;> cases b <;> first | rfl | cases h

section Version

variable {a b : MemberRecord}

theorem version_lt_iff : a.version < b.version ↔
    a.generation < b.generation ∨ a.generation = b.generation ∧
      (a.heartbeatCounter < b.heartbeatCounter ∨
        a.heartbeatCounter = b.heartbeatCounter ∧ a.status.toNat < b.status.toNat) := by
  unfold MemberRecord.version
  rw [Prod.Lex.toLex_lt_toLex, Prod.Lex.toLex_lt_toLex, UInt32.lt_iff_toNat_lt,
    UInt64.lt_iff_toNat_lt, UInt32.toNat_inj, UInt64.toNat_inj]

theorem version_eq_iff : a.version = b.version ↔
    a.generation = b.generation ∧ a.heartbeatCounter = b.heartbeatCounter ∧
      a.status = b.status := by
  unfold MemberRecord.version
  rw [toLex_inj, Prod.mk.injEq, toLex_inj, Prod.mk.injEq, UInt32.toNat_inj, UInt64.toNat_inj,
    NodeStatus.toNat_injective.eq_iff]

end Version

/-! ### Tables -/

namespace MemberTable

variable {t : MemberTable} {id : NodeId} {entry : MemberEntry}

theorem find_put (entry : MemberEntry) (t : MemberTable) (id : NodeId) :
    (t.put entry).find id = if id = entry.record.nodeId then some entry else t.find id := by
  unfold find put
  by_cases h : id = entry.record.nodeId
  · rw [if_pos h, h]
    exact AList.lookup_insert t.entries
  · rw [if_neg h]
    exact AList.lookup_insert_ne h

theorem find_mapEntries (f : NodeId → MemberEntry → MemberEntry)
    (hf : ∀ id entry, (f id entry).record.nodeId = entry.record.nodeId) (t : MemberTable)
    (id : NodeId) : (t.mapEntries f hf).find id = (t.find id).map (f id) :=
  @List.dlookup_map₂ _ _ _ (fun _ => MemberEntry) t.entries.entries f id

theorem mem_entries : (⟨id, entry⟩ : Sigma fun _ : NodeId => MemberEntry) ∈ t.entries.entries ↔
    t.find id = some entry :=
  (List.mem_dlookup_iff t.entries.nodupKeys).symm

/-- A view shows the records of the table and nothing else. -/
theorem mem_view {r : MemberRecord} :
    r ∈ t.view ↔ ∃ entry, t.find r.nodeId = some entry ∧ entry.record = r := by
  unfold view
  rw [List.mem_map]
  constructor
  · rintro ⟨⟨id, entry⟩, hmem, rfl⟩
    have hfind := mem_entries.mp hmem
    have hid : entry.record.nodeId = id := t.filed id entry hfind
    exact ⟨entry, hid.symm ▸ hfind, rfl⟩
  · rintro ⟨entry, hfind, rfl⟩
    exact ⟨⟨_, entry⟩, mem_entries.mpr hfind, rfl⟩

/-- Each id is there once. -/
theorem view_nodup (t : MemberTable) : (t.view.map MemberRecord.nodeId).Nodup := by
  have hkeys : t.view.map MemberRecord.nodeId = t.entries.entries.map Sigma.fst := by
    unfold view
    rw [List.map_map]
    refine List.map_congr_left ?_
    rintro ⟨id, entry⟩ hmem
    exact t.filed id entry (mem_entries.mp hmem)
  rw [hkeys]
  exact t.entries.nodupKeys

/-- The version the table holds for each id. -/
def versions (t : MemberTable) (id : NodeId) : WithBot Version :=
  match t.find id with
  | some entry => (entry.record.version : WithBot Version)
  | none => ⊥

theorem versions_of_find (h : t.find id = some entry) : t.versions id = entry.record.version := by
  unfold versions
  rw [h]

theorem versions_of_not_find (h : t.find id = none) : t.versions id = ⊥ := by
  unfold versions
  rw [h]

theorem versions_eq_iff {v : Version} :
    t.versions id = v ↔ ∃ entry, t.find id = some entry ∧ entry.record.version = v := by
  unfold versions
  cases h : t.find id with
  | none => simp
  | some entry => simp [WithBot.coe_inj]

theorem versions_put (entry : MemberEntry) (t : MemberTable) :
    (t.put entry).versions =
      Function.update t.versions entry.record.nodeId (entry.record.version : WithBot Version) := by
  funext id
  by_cases h : id = entry.record.nodeId
  · rw [h, Function.update_self]
    exact versions_of_find (by rw [find_put, if_pos rfl])
  · rw [Function.update_of_ne h]
    unfold versions
    rw [find_put, if_neg h]

end MemberTable

namespace GossipMembership

open MemberTable

/-! ### One record -/

/-- The two things that can become of a record that comes in: it is passed over, or it is
taken and its version is then the one in the table. -/
inductive Absorbs (self : NodeId) (t : MemberTable) (changed : Bool) (incoming : Incoming) :
    MemberTable × Bool → Prop where
  | skip (h : incoming.1.nodeId = self ∨ ∃ loc, t.find incoming.1.nodeId = some loc ∧
      incoming.1.version ≤ loc.record.version) : Absorbs self t changed incoming (t, changed)
  | take (entry : MemberEntry) (hself : incoming.1.nodeId ≠ self)
      (hid : entry.record.nodeId = incoming.1.nodeId)
      (hversion : entry.record.version = incoming.1.version)
      (hnow : entry.lastUpdatedMs = incoming.2)
      (hnewer : ∀ loc, t.find incoming.1.nodeId = some loc →
        loc.record.version < incoming.1.version) :
      Absorbs self t changed incoming (t.put entry, true)

theorem mergeRecord_absorbs (self : NodeId) (acc : MemberTable × Bool) (incoming : Incoming) :
    Absorbs self acc.1 acc.2 incoming (mergeRecord self acc incoming) := by
  rcases acc with ⟨t, changed⟩
  rcases incoming with ⟨rIn, now⟩
  unfold mergeRecord
  dsimp only
  by_cases hself : rIn.nodeId = self
  · rw [if_pos hself]
    exact .skip (Or.inl hself)
  · rw [if_neg hself]
    cases hfind : t.find rIn.nodeId with
    | none =>
        refine .take _ hself rfl rfl rfl ?_
        intro loc hloc
        rw [hfind] at hloc
        cases hloc
    | some loc =>
        have hid : loc.record.nodeId = rIn.nodeId := t.filed _ _ hfind
        have hnewer : loc.record.version < rIn.version → ∀ loc', t.find rIn.nodeId = some loc' →
            loc'.record.version < rIn.version := by
          intro hlt loc' hloc'
          rw [hfind] at hloc'
          cases hloc'
          exact hlt
        dsimp only
        by_cases hgen : rIn.generation > loc.record.generation
        · rw [if_pos hgen]
          exact .take _ hself rfl rfl rfl (hnewer (version_lt_iff.mpr (Or.inl hgen)))
        · rw [if_neg hgen]
          by_cases hstale : rIn.generation < loc.record.generation
          · rw [if_pos hstale]
            exact .skip (Or.inr ⟨loc, hfind, (version_lt_iff.mpr (Or.inl hstale)).le⟩)
          · rw [if_neg hstale]
            have hsame : loc.record.generation = rIn.generation :=
              UInt32.le_antisymm (UInt32.not_lt.mp hstale) (UInt32.not_lt.mp hgen)
            by_cases hbeat : rIn.heartbeatCounter > loc.record.heartbeatCounter
            · rw [if_pos hbeat]
              exact .take _ hself hid (version_eq_iff.mpr ⟨hsame, rfl, rfl⟩) rfl
                (hnewer (version_lt_iff.mpr (Or.inr ⟨hsame, Or.inl hbeat⟩)))
            · rw [if_neg hbeat]
              by_cases hstatus : rIn.heartbeatCounter = loc.record.heartbeatCounter ∧
                  rIn.status.toNat > loc.record.status.toNat
              · rw [if_pos hstatus]
                exact .take _ hself hid (version_eq_iff.mpr ⟨hsame, hstatus.1.symm, rfl⟩) rfl
                  (hnewer (version_lt_iff.mpr
                    (Or.inr ⟨hsame, Or.inr ⟨hstatus.1.symm, hstatus.2⟩⟩)))
              · rw [if_neg hstatus]
                refine .skip (Or.inr ⟨loc, hfind, not_lt.mp ?_⟩)
                intro hlt
                rcases version_lt_iff.mp hlt with h | ⟨-, h | h⟩
                · exact hgen h
                · exact hbeat h
                · exact hstatus ⟨h.1.symm, h.2⟩

/-- The three branches of the test in a gossip round are one comparison. -/
theorem outdated_iff (loc r : MemberRecord) :
    (r.generation > loc.generation
      ∨ (r.generation = loc.generation ∧ r.heartbeatCounter > loc.heartbeatCounter)
      ∨ (r.generation = loc.generation ∧ r.heartbeatCounter = loc.heartbeatCounter
        ∧ r.status.toNat > loc.status.toNat)) ↔ loc.version < r.version := by
  rw [version_lt_iff, and_or_left]
  simp only [gt_iff_lt, eq_comm]

theorem mergeResponseRecord_absorbs (self : NodeId) (acc : MemberTable × Bool)
    (incoming : Incoming) :
    Absorbs self acc.1 acc.2 incoming (mergeResponseRecord self acc incoming) := by
  rcases acc with ⟨t, changed⟩
  rcases incoming with ⟨r, now⟩
  unfold mergeResponseRecord
  dsimp only
  by_cases hself : r.nodeId = self
  · rw [if_pos hself]
    exact .skip (Or.inl hself)
  · rw [if_neg hself]
    cases hfind : t.find r.nodeId with
    | none =>
        refine .take _ hself rfl rfl rfl ?_
        intro loc hloc
        rw [hfind] at hloc
        cases hloc
    | some loc =>
        dsimp only
        by_cases hnewer : loc.record.version < r.version
        · rw [if_pos ((outdated_iff _ _).mpr hnewer)]
          refine .take _ hself rfl rfl rfl ?_
          intro loc' hloc'
          rw [hfind] at hloc'
          cases hloc'
          exact hnewer
        · rw [if_neg fun h => hnewer ((outdated_iff _ _).mp h)]
          exact .skip (Or.inr ⟨loc, hfind, not_lt.mp hnewer⟩)

namespace Absorbs

variable {self : NodeId} {t : MemberTable} {changed : Bool} {incoming : Incoming}
  {out : MemberTable × Bool} {id : NodeId} {entry : MemberEntry}

/-- The own entry is left alone. -/
theorem find_self (h : Absorbs self t changed incoming out) : out.1.find self = t.find self := by
  cases h with
  | skip h => rfl
  | take entry hself hid hversion hnow hnewer =>
      rw [find_put, if_neg]
      rw [hid]
      exact fun heq => hself heq.symm

/-- An entry is as it was, or it is the one that came in. -/
theorem find_eq_some (h : Absorbs self t changed incoming out)
    (hfind : out.1.find id = some entry) :
    t.find id = some entry ∨ id ≠ self ∧ incoming.1.nodeId = id ∧
      incoming.1.version = entry.record.version ∧ entry.lastUpdatedMs = incoming.2 ∧
      ∀ loc, t.find id = some loc → loc.record.version < entry.record.version := by
  cases h with
  | skip h => exact Or.inl hfind
  | take entry' hself hid hversion hnow hnewer =>
      rw [find_put] at hfind
      by_cases heq : id = entry'.record.nodeId
      · rw [if_pos heq] at hfind
        cases hfind
        rw [hid] at heq
        refine Or.inr ⟨heq ▸ hself, heq.symm, hversion.symm, hnow, ?_⟩
        intro loc hloc
        rw [hversion]
        exact hnewer loc (heq ▸ hloc)
      · rw [if_neg heq] at hfind
        exact Or.inl hfind

/-- No entry is dropped, and no version falls. -/
theorem find_mono (h : Absorbs self t changed incoming out) (hfind : t.find id = some entry) :
    ∃ entry', out.1.find id = some entry' ∧ entry.record.version ≤ entry'.record.version := by
  cases h with
  | skip h => exact ⟨entry, hfind, le_rfl⟩
  | take entry' hself hid hversion hnow hnewer =>
      by_cases heq : id = entry'.record.nodeId
      · refine ⟨entry', by rw [find_put, if_pos heq], ?_⟩
        rw [hversion]
        refine (hnewer entry ?_).le
        rw [← hid, ← heq]
        exact hfind
      · exact ⟨entry, by rw [find_put, if_neg heq]; exact hfind, le_rfl⟩

/-- On versions, the record is raised to. -/
theorem versions (h : Absorbs self t changed incoming out) :
    out.1.versions = if incoming.1.nodeId = self then t.versions
      else raise t.versions (incoming.1.nodeId, incoming.1.version) := by
  cases h with
  | skip h =>
      by_cases hself : incoming.1.nodeId = self
      · rw [if_pos hself]
      · rw [if_neg hself]
        rcases h.resolve_left hself with ⟨loc, hfind, hle⟩
        refine (Function.update_eq_self_iff.mpr ?_).symm
        rw [versions_of_find hfind]
        exact sup_eq_left.mpr (WithBot.coe_le_coe.mpr hle)
  | take entry hself hid hversion hnow hnewer =>
      rw [if_neg hself, versions_put, hid, hversion]
      unfold raise
      dsimp only
      congr 1
      refine (sup_eq_right.mpr ?_).symm
      cases hfind : t.find incoming.1.nodeId with
      | none =>
          rw [versions_of_not_find hfind]
          exact bot_le
      | some loc =>
          rw [versions_of_find hfind]
          exact WithBot.coe_le_coe.mpr (hnewer loc hfind).le

end Absorbs

/-! ### A whole message -/

/-- What a server hears from a message: everything but what is about itself. -/
def heard (self : NodeId) (view : List MemberRecord) : List (NodeId × Version) :=
  (view.filter fun r => r.nodeId ≠ self).map fun r => (r.nodeId, r.version)

theorem mem_heard {self id : NodeId} {view : List MemberRecord} {v : Version} :
    (id, v) ∈ heard self view ↔ id ≠ self ∧ ∃ r ∈ view, r.nodeId = id ∧ r.version = v := by
  unfold heard
  rw [List.mem_map]
  constructor
  · rintro ⟨r, hr, heq⟩
    rw [Prod.mk.injEq] at heq
    rcases List.mem_filter.mp hr with ⟨hmem, hself⟩
    rw [← heq.1]
    exact ⟨of_decide_eq_true hself, r, hmem, rfl, heq.2⟩
  · rintro ⟨hself, r, hmem, rfl, rfl⟩
    exact ⟨r, List.mem_filter.mpr ⟨hmem, decide_eq_true hself⟩, rfl⟩

theorem mem_timed {clock : Nat → UInt64} {view : List MemberRecord} {incoming : Incoming} :
    incoming ∈ timed clock view ↔ ∃ k, view[k]? = some incoming.1 ∧ incoming.2 = clock k := by
  unfold timed
  rw [List.mem_map]
  constructor
  · rintro ⟨⟨r, k⟩, hmem, rfl⟩
    exact ⟨k, List.mem_zipIdx_iff_getElem?.mp hmem, rfl⟩
  · rintro ⟨k, hk, hnow⟩
    exact ⟨(incoming.1, k), List.mem_zipIdx_iff_getElem?.mpr hk, by rw [← hnow]⟩

theorem map_fst_timed (clock : Nat → UInt64) (view : List MemberRecord) :
    (timed clock view).map Prod.fst = view := by
  unfold timed
  rw [List.map_map]
  exact List.zipIdx_map_fst 0 view

section Fold

variable {self : NodeId} {step : MemberTable × Bool → Incoming → MemberTable × Bool}
  {es : List Incoming} {acc : MemberTable × Bool} {id : NodeId} {entry : MemberEntry}

theorem fold_find_self (hstep : ∀ acc e, Absorbs self acc.1 acc.2 e (step acc e)) :
    (es.foldl step acc).1.find self = acc.1.find self := by
  induction es generalizing acc with
  | nil => rfl
  | cons e es ih => exact ih.trans (hstep acc e).find_self

theorem fold_find_mono (hstep : ∀ acc e, Absorbs self acc.1 acc.2 e (step acc e))
    (hfind : acc.1.find id = some entry) :
    ∃ entry', (es.foldl step acc).1.find id = some entry' ∧
      entry.record.version ≤ entry'.record.version := by
  induction es generalizing acc entry with
  | nil => exact ⟨entry, hfind, le_rfl⟩
  | cons e es ih =>
      rcases (hstep acc e).find_mono hfind with ⟨entry₁, h₁, hle₁⟩
      rcases ih h₁ with ⟨entry', h', hle'⟩
      exact ⟨entry', h', hle₁.trans hle'⟩

theorem fold_find_eq_some (hstep : ∀ acc e, Absorbs self acc.1 acc.2 e (step acc e))
    (hfind : (es.foldl step acc).1.find id = some entry) :
    acc.1.find id = some entry ∨ id ≠ self ∧
      (∃ e ∈ es, e.1.nodeId = id ∧ e.1.version = entry.record.version ∧
        entry.lastUpdatedMs = e.2) ∧
      ∀ loc, acc.1.find id = some loc → loc.record.version < entry.record.version := by
  induction es generalizing acc with
  | nil => exact Or.inl hfind
  | cons e es ih =>
      rcases ih hfind with hold | ⟨hself, ⟨e', he', hnew⟩, hlt⟩
      · rcases (hstep acc e).find_eq_some hold with hold | ⟨hself, hid, hversion, hnow, hlt⟩
        · exact Or.inl hold
        · exact Or.inr ⟨hself, ⟨e, List.mem_cons_self, hid, hversion, hnow⟩, hlt⟩
      · refine Or.inr ⟨hself, ⟨e', List.mem_cons_of_mem e he', hnew⟩, ?_⟩
        intro loc hloc
        rcases (hstep acc e).find_mono hloc with ⟨loc', hloc', hle⟩
        exact hle.trans_lt (hlt loc' hloc')

theorem fold_versions (hstep : ∀ acc e, Absorbs self acc.1 acc.2 e (step acc e)) :
    (es.foldl step acc).1.versions =
      raiseAll acc.1.versions (heard self (es.map Prod.fst)) := by
  induction es generalizing acc with
  | nil => rfl
  | cons e es ih =>
      rw [List.foldl_cons, ih, (hstep acc e).versions, List.map_cons]
      unfold heard
      by_cases hself : e.1.nodeId = self
      · simp [hself]
      · simp [hself]

end Fold

/-! ### The operations -/

@[simp] theorem memberTable_notifyChange (g : GossipMembership) :
    g.notifyChange.memberTable = g.memberTable := by
  unfold notifyChange
  dsimp only
  split
  · rfl
  · split
    · rfl
    · rfl

@[simp] theorem selfNodeId_notifyChange (g : GossipMembership) :
    g.notifyChange.selfNodeId = g.selfNodeId := by
  unfold notifyChange
  dsimp only
  split
  · rfl
  · split
    · rfl
    · rfl

@[simp] theorem memberTable_settle (g : GossipMembership) (result : MemberTable × Bool) :
    (g.settle result).memberTable = result.1 := by
  unfold settle
  dsimp only
  split
  · exact memberTable_notifyChange _
  · rfl

@[simp] theorem selfNodeId_settle (g : GossipMembership) (result : MemberTable × Bool) :
    (g.settle result).selfNodeId = g.selfNodeId := by
  unfold settle
  dsimp only
  split
  · exact selfNodeId_notifyChange _
  · rfl

/-- **On versions `mergeView` is a join.** -/
theorem versions_mergeView (clock : Nat → UInt64) (incoming : List MemberRecord)
    (g : GossipMembership) :
    (g.mergeView clock incoming).2.memberTable.versions =
      raiseAll g.memberTable.versions (heard g.selfNodeId incoming) := by
  have h := @fold_versions g.selfNodeId _ (timed clock incoming) (g.memberTable, false)
    (mergeRecord_absorbs g.selfNodeId)
  rw [map_fst_timed] at h
  exact (congrArg MemberTable.versions (memberTable_settle g _)).trans h

theorem versions_mergeResponse (clock : Nat → UInt64) (response : List MemberRecord)
    (g : GossipMembership) :
    (g.mergeResponse clock response).memberTable.versions =
      raiseAll g.memberTable.versions (heard g.selfNodeId response) := by
  have h := @fold_versions g.selfNodeId _ (timed clock response) (g.memberTable, false)
    (mergeResponseRecord_absorbs g.selfNodeId)
  rw [map_fst_timed] at h
  exact (congrArg MemberTable.versions (memberTable_settle g _)).trans h

section Message

variable {clock : Nat → UInt64} {incoming : List MemberRecord} {g : GossipMembership}
  {id : NodeId} {entry : MemberEntry}

@[simp] theorem selfNodeId_mergeView (clock : Nat → UInt64) (incoming : List MemberRecord)
    (g : GossipMembership) : (g.mergeView clock incoming).2.selfNodeId = g.selfNodeId :=
  selfNodeId_settle g _

/-- What has come to be in the table was there, or has come in with the message. -/
theorem find_mergeView
    (h : (g.mergeView clock incoming).2.memberTable.find id = some entry) :
    g.memberTable.find id = some entry ∨ id ≠ g.selfNodeId ∧
      (∃ k r, incoming[k]? = some r ∧ r.nodeId = id ∧ r.version = entry.record.version ∧
        entry.lastUpdatedMs = clock k) ∧
      ∀ loc, g.memberTable.find id = some loc → loc.record.version < entry.record.version := by
  have hfold := @fold_find_eq_some g.selfNodeId _ (timed clock incoming) (g.memberTable, false)
    id entry (mergeRecord_absorbs g.selfNodeId) (memberTable_settle g _ ▸ h)
  rcases hfold with hold | ⟨hself, ⟨e, he, hid, hversion, hnow⟩, hlt⟩
  · exact Or.inl hold
  · rcases mem_timed.mp he with ⟨k, hk, hclock⟩
    exact Or.inr ⟨hself, ⟨k, e.1, hk, hid, hversion, hnow.trans hclock⟩, hlt⟩

theorem find_mergeView_self :
    (g.mergeView clock incoming).2.memberTable.find g.selfNodeId =
      g.memberTable.find g.selfNodeId := by
  have hfold := @fold_find_self g.selfNodeId _ (timed clock incoming) (g.memberTable, false)
    (mergeRecord_absorbs g.selfNodeId)
  exact (congrArg (MemberTable.find · g.selfNodeId) (memberTable_settle g _)).trans hfold

theorem find_mergeView_mono (h : g.memberTable.find id = some entry) :
    ∃ entry', (g.mergeView clock incoming).2.memberTable.find id = some entry' ∧
      entry.record.version ≤ entry'.record.version := by
  have hfold := @fold_find_mono g.selfNodeId _ (timed clock incoming) (g.memberTable, false)
    id entry (mergeRecord_absorbs g.selfNodeId) h
  rcases hfold with ⟨entry', hfind, hle⟩
  exact ⟨entry', (congrArg (MemberTable.find · id) (memberTable_settle g _)).trans hfind, hle⟩

theorem find_mergeResponse
    (h : (g.mergeResponse clock incoming).memberTable.find id = some entry) :
    g.memberTable.find id = some entry ∨ id ≠ g.selfNodeId ∧
      (∃ k r, incoming[k]? = some r ∧ r.nodeId = id ∧ r.version = entry.record.version ∧
        entry.lastUpdatedMs = clock k) ∧
      ∀ loc, g.memberTable.find id = some loc → loc.record.version < entry.record.version := by
  have hfold := @fold_find_eq_some g.selfNodeId _ (timed clock incoming) (g.memberTable, false)
    id entry (mergeResponseRecord_absorbs g.selfNodeId) (memberTable_settle g _ ▸ h)
  rcases hfold with hold | ⟨hself, ⟨e, he, hid, hversion, hnow⟩, hlt⟩
  · exact Or.inl hold
  · rcases mem_timed.mp he with ⟨k, hk, hclock⟩
    exact Or.inr ⟨hself, ⟨k, e.1, hk, hid, hversion, hnow.trans hclock⟩, hlt⟩

theorem find_mergeResponse_mono (h : g.memberTable.find id = some entry) :
    ∃ entry', (g.mergeResponse clock incoming).memberTable.find id = some entry' ∧
      entry.record.version ≤ entry'.record.version := by
  have hfold := @fold_find_mono g.selfNodeId _ (timed clock incoming) (g.memberTable, false)
    id entry (mergeResponseRecord_absorbs g.selfNodeId) h
  rcases hfold with ⟨entry', hfind, hle⟩
  exact ⟨entry', (congrArg (MemberTable.find · id) (memberTable_settle g _)).trans hfind, hle⟩

theorem find_mergeResponse_self :
    (g.mergeResponse clock incoming).memberTable.find g.selfNodeId =
      g.memberTable.find g.selfNodeId := by
  have hfold := @fold_find_self g.selfNodeId _ (timed clock incoming) (g.memberTable, false)
    (mergeResponseRecord_absorbs g.selfNodeId)
  exact (congrArg (MemberTable.find · g.selfNodeId) (memberTable_settle g _)).trans hfold

end Message

/-- What has come to be in the table of a starting server was there, or is what a seed says. -/
theorem find_bootstrap {clock : Nat → UInt64} {response : List MemberRecord}
    {g : GossipMembership} {id : NodeId} {entry : MemberEntry}
    (h : (g.bootstrap clock response).memberTable.find id = some entry) :
    g.memberTable.find id = some entry ∨ id ≠ g.selfNodeId ∧ entry.record ∈ response := by
  have hfold : ∀ (es : List Incoming) (t : MemberTable),
      (es.foldl (bootstrapRecord g.selfNodeId) t).find id = some entry →
        t.find id = some entry ∨ id ≠ g.selfNodeId ∧ ∃ e ∈ es, e.1 = entry.record := by
    intro es
    induction es with
    | nil =>
        intro t ht
        exact Or.inl ht
    | cons e es ih =>
        intro t ht
        rcases ih _ ht with hold | ⟨hself, e', he', hrecord⟩
        · unfold bootstrapRecord at hold
          dsimp only at hold
          by_cases hself : e.1.nodeId = g.selfNodeId
          · rw [if_pos hself] at hold
            exact Or.inl hold
          · rw [if_neg hself, find_put] at hold
            by_cases hid : id = e.1.nodeId
            · rw [if_pos hid] at hold
              cases hold
              exact Or.inr ⟨hid ▸ hself, e, List.mem_cons_self, rfl⟩
            · rw [if_neg hid] at hold
              exact Or.inl hold
        · exact Or.inr ⟨hself, e', List.mem_cons_of_mem e he', hrecord⟩
  rcases hfold _ _ h with hold | ⟨hself, e, he, hrecord⟩
  · exact Or.inl hold
  · rcases mem_timed.mp he with ⟨k, hk, -⟩
    exact Or.inr ⟨hself, hrecord ▸ List.mem_of_getElem? hk⟩

theorem find_bootstrap_self (clock : Nat → UInt64) (response : List MemberRecord)
    (g : GossipMembership) :
    (g.bootstrap clock response).memberTable.find g.selfNodeId =
      g.memberTable.find g.selfNodeId := by
  have hfold : ∀ (es : List Incoming) (t : MemberTable),
      (es.foldl (bootstrapRecord g.selfNodeId) t).find g.selfNodeId = t.find g.selfNodeId := by
    intro es
    induction es with
    | nil =>
        intro t
        rfl
    | cons e es ih =>
        intro t
        refine (ih _).trans ?_
        unfold bootstrapRecord
        dsimp only
        by_cases hself : e.1.nodeId = g.selfNodeId
        · rw [if_pos hself]
        · rw [if_neg hself, find_put, if_neg fun h => hself h.symm]
  exact hfold _ _

theorem find_bootstrapRecord {self : NodeId} {t : MemberTable} {e : Incoming} {id : NodeId}
    (hid : id ≠ self) : (bootstrapRecord self t e).find id =
      if e.1.nodeId = id then some { record := e.1, lastUpdatedMs := e.2 } else t.find id := by
  unfold bootstrapRecord
  dsimp only
  by_cases he : e.1.nodeId = id
  · rw [if_pos he, if_neg fun h => hid (he.symm.trans h), find_put, if_pos he.symm]
  · rw [if_neg he]
    split
    · rfl
    · rw [find_put, if_neg fun h => he h.symm]

/-- The last record of a message that is about `id`. -/
def lastAbout (id : NodeId) (view : List MemberRecord) : Option MemberRecord :=
  (view.filter fun r => r.nodeId = id).getLast?

/-- About everybody else, what the seed says last is what the table then says. -/
theorem record_bootstrap (clock : Nat → UInt64) (response : List MemberRecord)
    (g : GossipMembership) {id : NodeId} (hid : id ≠ g.selfNodeId) :
    ((g.bootstrap clock response).memberTable.find id).map MemberEntry.record =
      (lastAbout id response).or ((g.memberTable.find id).map MemberEntry.record) := by
  have hfold : ∀ (es : List Incoming) (t : MemberTable),
      ((es.foldl (bootstrapRecord g.selfNodeId) t).find id).map MemberEntry.record =
        (lastAbout id (es.map Prod.fst)).or ((t.find id).map MemberEntry.record) := by
    intro es
    induction es using List.reverseRecOn with
    | nil =>
        intro t
        rfl
    | append_singleton es e ih =>
        intro t
        rw [List.foldl_append, List.map_append]
        unfold lastAbout at ih ⊢
        rw [List.filter_append]
        show (MemberTable.find (bootstrapRecord g.selfNodeId _ e) id).map _ = _
        rw [find_bootstrapRecord hid]
        by_cases he : e.1.nodeId = id
        · simp [he]
        · rw [if_neg he, ih t]
          simp [he]
  have h := hfold (timed clock response) g.memberTable
  rw [map_fst_timed] at h
  exact h

/-- A server knows itself from the start, and nobody else. -/
theorem find_construct (i : NodeId) (config : GossipConfig) (loaded : UInt32) (now : UInt64)
    (id : NodeId) :
    (construct i config loaded now).setChangeCallback.memberTable.find id =
      if id = i then
        some
          { record :=
              { nodeId := i
                endpoint := config.endpoint
                status := .alive
                heartbeatCounter := 0
                generation := loaded + 1 }
            lastUpdatedMs := now }
      else none := find_put _ ∅ id

/-! ### Heartbeats and the failure detector -/

section Detector

variable {g : GossipMembership} {id : NodeId} {entry : MemberEntry} {now now' : UInt64}

/-- The detector changes a status, and only to a more severe one. -/
theorem detect_cases (config : GossipConfig) (now : UInt64) (entry : MemberEntry) :
    detect config now entry = entry ∨
      ∃ status, entry.record.status.toNat < status.toNat ∧
        detect config now entry =
          { entry with record := { entry.record with status := status } } := by
  unfold detect
  dsimp only
  split
  · rename_i halive
    rw [halive.1]
    split
    · exact Or.inr ⟨.dead, by decide, rfl⟩
    · exact Or.inr ⟨.suspect, by decide, rfl⟩
  · split
    · rename_i hsuspect
      rw [hsuspect.1]
      exact Or.inr ⟨.dead, by decide, rfl⟩
    · exact Or.inl rfl

/-- An entry stays alive if it is young enough. -/
theorem status_detect_eq_alive (config : GossipConfig) (now : UInt64) (entry : MemberEntry) :
    (detect config now entry).record.status = .alive ↔ entry.record.status = .alive ∧
      ¬ now - entry.lastUpdatedMs > UInt64.ofInt config.suspectThresholdMs := by
  unfold detect
  dsimp only
  by_cases hsuspect : entry.record.status = .alive ∧
      now - entry.lastUpdatedMs > UInt64.ofInt config.suspectThresholdMs
  · simp only [if_pos hsuspect]
    refine iff_of_false ?_ fun h => h.2 hsuspect.2
    split
    · simp
    · simp
  · simp only [if_neg hsuspect]
    split
    · rename_i hdead
      refine iff_of_false (by simp) fun h => ?_
      rw [h.1] at hdead
      cases hdead.1
    · exact ⟨fun h => ⟨h, fun hage => hsuspect ⟨h, hage⟩⟩, fun h => h.1⟩

/-- It makes no version smaller. -/
theorem version_le_detect (config : GossipConfig) (now : UInt64) (entry : MemberEntry) :
    entry.record.version ≤ (detect config now entry).record.version := by
  rcases detect_cases config now entry with hsame | ⟨status, hstatus, hdetect⟩
  · rw [hsame]
  · rw [hdetect]
    have hlt : entry.record.version <
        ({ entry.record with status := status } : MemberRecord).version :=
      version_lt_iff.mpr (Or.inr ⟨rfl, Or.inr ⟨rfl, hstatus⟩⟩)
    exact hlt.le

theorem selfNodeId_detectFailures (g : GossipMembership) (now : UInt64) :
    (g.detectFailures now).selfNodeId = g.selfNodeId := selfNodeId_settle _ _

theorem find_detectFailures (g : GossipMembership) (now : UInt64) (id : NodeId) :
    (g.detectFailures now).memberTable.find id = (g.memberTable.find id).map fun entry =>
      if id = g.selfNodeId then entry else detect g.config now entry := by
  unfold detectFailures
  dsimp only
  rw [memberTable_settle]
  exact find_mapEntries _ _ _ _

/-- What is done to the own entry is done to no other. -/
theorem find_modifySelf {f : MemberEntry → MemberEntry} (hself : g.memberTable.find g.selfNodeId =
    some entry) (hf : (f entry).record.nodeId = entry.record.nodeId) (id : NodeId) :
    (g.modifySelf f).memberTable.find id =
      if id = g.selfNodeId then some (f entry) else g.memberTable.find id := by
  have hid : entry.record.nodeId = g.selfNodeId := g.memberTable.filed _ _ hself
  unfold modifySelf
  simp only [hself]
  rw [find_put, hf, hid]

theorem find_modifySelf_of_ne {f : MemberEntry → MemberEntry}
    (hf : ∀ entry, (f entry).record.nodeId = entry.record.nodeId) (hid : id ≠ g.selfNodeId) :
    (g.modifySelf f).memberTable.find id = g.memberTable.find id := by
  rcases hself : g.memberTable.find g.selfNodeId with _ | entry
  · unfold modifySelf
    rw [hself]
  · rw [find_modifySelf hself (hf entry), if_neg hid]

theorem selfNodeId_modifySelf (f : MemberEntry → MemberEntry) (g : GossipMembership) :
    (g.modifySelf f).selfNodeId = g.selfNodeId ∧ (g.modifySelf f).config = g.config := by
  unfold modifySelf
  split
  · exact ⟨rfl, rfl⟩
  · exact ⟨rfl, rfl⟩

/-- The own entry after a beat. -/
def beaten (now : UInt64) (entry : MemberEntry) : MemberEntry :=
  { record := { entry.record with heartbeatCounter := entry.record.heartbeatCounter + 1 }
    lastUpdatedMs := now }

theorem selfNodeId_beat (now now' : UInt64) (g : GossipMembership) :
    (g.beat now now').selfNodeId = g.selfNodeId := by
  unfold beat detectFailures
  dsimp only
  rw [selfNodeId_settle]
  exact (selfNodeId_modifySelf _ g).1

theorem find_beat (hself : g.memberTable.find g.selfNodeId = some entry) (id : NodeId) :
    (g.beat now now').memberTable.find id =
      if id = g.selfNodeId then some (beaten now entry)
      else (g.memberTable.find id).map (detect g.config now') := by
  unfold beat
  rw [find_detectFailures, (selfNodeId_modifySelf _ g).1, (selfNodeId_modifySelf _ g).2,
    find_modifySelf hself rfl]
  by_cases hid : id = g.selfNodeId
  · simp only [if_pos hid]
    rfl
  · simp only [if_neg hid]

/-- The own entry of a server that departs. -/
def departed (entry : MemberEntry) : MemberEntry :=
  { entry with record := { entry.record with
      status := .dead
      heartbeatCounter := entry.record.heartbeatCounter + 1 } }

theorem selfNodeId_depart (g : GossipMembership) : g.depart.selfNodeId = g.selfNodeId :=
  (selfNodeId_modifySelf _ _).1

theorem find_depart (hself : g.memberTable.find g.selfNodeId = some entry) (id : NodeId) :
    g.depart.memberTable.find id =
      if id = g.selfNodeId then some (departed entry) else g.memberTable.find id :=
  find_modifySelf (g := { g with running := false }) hself rfl id

end Detector

end GossipMembership

end DistKV
