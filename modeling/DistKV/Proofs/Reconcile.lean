/-
One round reconciles two servers.

A view shows each id once, so what a server hears from a view is the table that was shown.
Server `a` beats and sends its view, server `b` joins it to its own table and answers with
the result, and `a` joins that: both then hold the join of the two tables, but for what
each says about itself.  What `b` holds about `a` is older than the beat.
-/
import DistKV.Proofs.Departure

namespace DistKV

open Join MemberTable Machine

namespace GossipMembership

variable {a b : GossipMembership} {now now' : UInt64} {clock clock' : Nat → UInt64}
  {entry : MemberEntry} {id : NodeId}

/-- What is heard from a view is what the table says. -/
theorem best_heard_view (self : NodeId) (t : MemberTable) {id : NodeId} (hid : id ≠ self) :
    best (heard self t.view) id = t.versions id := by
  refine le_antisymm ?_ ?_
  · rcases hbest : best (heard self t.view) id with _ | v
    · exact bot_le
    · rcases mem_heard.mp (mem_of_best_eq hbest) with ⟨-, r, hr, hrid, hv⟩
      rcases mem_view.mp hr with ⟨entry, hfind, rfl⟩
      rw [hrid] at hfind
      rw [versions_of_find hfind, hv]
      exact le_rfl
  · rcases hfind : t.find id with _ | entry
    · rw [versions_of_not_find hfind]
      exact bot_le
    · rw [versions_of_find hfind]
      have hentry : entry.record.nodeId = id := t.filed id entry hfind
      refine le_best (mem_heard.mpr ⟨hid, entry.record, ?_, hentry, rfl⟩)
      exact mem_view.mpr ⟨entry, hentry.symm ▸ hfind, rfl⟩

theorem mergeView_view (clock : Nat → UInt64) (incoming : List MemberRecord)
    (g : GossipMembership) :
    (g.mergeView clock incoming).1 = (g.mergeView clock incoming).2.memberTable.view :=
  (congrArg MemberTable.view (memberTable_settle g _)).symm

/-- The tables after a view has been merged, and the answer. -/
theorem versions_served (g : GossipMembership) (t : MemberTable) (hid : id ≠ g.selfNodeId) :
    (g.mergeView clock t.view).2.memberTable.versions id =
      g.memberTable.versions id ⊔ t.versions id := by
  rw [versions_mergeView, raiseAll_apply, best_heard_view _ _ hid]

theorem versions_answered (g : GossipMembership) (t : MemberTable) (hid : id ≠ g.selfNodeId) :
    (g.mergeResponse clock t.view).memberTable.versions id =
      g.memberTable.versions id ⊔ t.versions id := by
  rw [versions_mergeResponse, raiseAll_apply, best_heard_view _ _ hid]

/-- A beat leaves every older record behind. -/
theorem version_lt_beaten {r : MemberRecord} (h : r.stamp ≤ entry.record.stamp)
    (hwrap : entry.record.heartbeatCounter.toNat + 1 < 2 ^ 64) :
    r.version < (beaten now entry).record.version := by
  have hone : (1 : UInt64).toNat = 1 := rfl
  have hbeat : entry.record.heartbeatCounter < entry.record.heartbeatCounter + 1 := by
    rw [UInt64.lt_iff_toNat_lt, UInt64.toNat_add, hone, Nat.mod_eq_of_lt hwrap]
    omega
  refine version_lt_iff.mpr ?_
  rcases stamp_le_iff.mp h with hlt | ⟨heq, hle⟩
  · exact Or.inl hlt
  · exact Or.inr ⟨heq, Or.inl (UInt64.lt_of_le_of_lt hle hbeat)⟩

/-- **One round reconciles two servers.** -/
theorem round_reconciles (a b : GossipMembership) (hne : a.selfNodeId ≠ b.selfNodeId)
    (entry : MemberEntry) (hentry : a.memberTable.find a.selfNodeId = some entry)
    (hwrap : entry.record.heartbeatCounter.toNat + 1 < 2 ^ 64)
    (hba : ∀ entry', b.memberTable.find a.selfNodeId = some entry' →
      entry'.record.stamp ≤ entry.record.stamp)
    (now now' : UInt64) (clock clock' : Nat → UInt64) (a₁ a₂ b₁ : GossipMembership)
    (response : List MemberRecord) (ha₁ : a₁ = a.beat now now')
    (hserve : b.mergeView clock a₁.getMemberView = (response, b₁))
    (ha₂ : a₂ = a₁.mergeResponse clock' response) :
    (∃ own held, a₂.memberTable.find a.selfNodeId = some own ∧
      b₁.memberTable.find a.selfNodeId = some held ∧
      held.record.version = own.record.version) ∧
    ∀ id, id ≠ a.selfNodeId → id ≠ b.selfNodeId →
      a₂.memberTable.versions id = a₁.memberTable.versions id ⊔ b.memberTable.versions id ∧
      b₁.memberTable.versions id = a₁.memberTable.versions id ⊔ b.memberTable.versions id := by
  have hself₁ : a₁.selfNodeId = a.selfNodeId := by
    rw [ha₁]
    exact selfNodeId_beat now now' a
  have hb₁ : b₁ = (b.mergeView clock a₁.memberTable.view).2 := (congrArg Prod.snd hserve).symm
  have hresponse : response = b₁.memberTable.view := by
    have hview := mergeView_view clock a₁.getMemberView b
    rw [hserve] at hview
    exact hview
  have hown₁ : a₁.memberTable.find a.selfNodeId = some (beaten now entry) := by
    rw [ha₁, find_beat hentry, if_pos rfl]
  constructor
  · have hown₂ : a₂.memberTable.find a.selfNodeId = some (beaten now entry) := by
      rw [ha₂, ← hself₁, find_mergeResponse_self, hself₁]
      exact hown₁
    have hversions : b₁.memberTable.versions a.selfNodeId =
        (beaten now entry).record.version := by
      rw [hb₁, versions_served b a₁.memberTable hne, versions_of_find hown₁]
      refine sup_eq_right.mpr ?_
      rcases hheld : b.memberTable.find a.selfNodeId with _ | entry'
      · rw [versions_of_not_find hheld]
        exact bot_le
      · rw [versions_of_find hheld]
        exact WithBot.coe_le_coe.mpr (version_lt_beaten (hba entry' hheld) hwrap).le
    rcases versions_eq_iff.mp hversions with ⟨held, hheld, hversion⟩
    exact ⟨_, held, hown₂, hheld, hversion⟩
  · intro id hida hidb
    have hb : b₁.memberTable.versions id =
        a₁.memberTable.versions id ⊔ b.memberTable.versions id := by
      rw [hb₁, versions_served b a₁.memberTable hidb, sup_comm]
    refine ⟨?_, hb⟩
    rw [ha₂, hresponse, versions_answered a₁ b₁.memberTable (hself₁.symm ▸ hida), hb,
      ← sup_assoc, sup_idem]

/-- Server 0 at its last heartbeat. -/
def last : MemberRecord where
  nodeId := 0
  endpoint := str "a"
  status := .alive
  heartbeatCounter := 18446744073709551615
  generation := 1

/-- Server `i`, with a record of itself and one of somebody else. -/
def knowing (i : NodeId) (own other : MemberRecord) : GossipMembership :=
  { construct i
      { endpoint := str "a", seedNodes := [], suspectThresholdMs := 3000
        deadThresholdMs := 10000 } 0 0 with
    memberTable := ((∅ : MemberTable).put { record := other, lastUpdatedMs := 0 }).put
      { record := own, lastUpdatedMs := 0 } }

/-- Server 0 at its fourth heartbeat, and server 1, which holds an older record that says it
is dead. -/
def asker : GossipMembership :=
  knowing 0 { last with heartbeatCounter := 4 } { last with nodeId := 1 }

def asked : GossipMembership :=
  knowing 1 { last with nodeId := 1 } { last with heartbeatCounter := 3, status := .dead }

theorem round_reconciles_two :
    (∃ own held,
      ((asker.beat 0 0).mergeResponse (fun _ => 0)
        (asked.mergeView (fun _ => 0) (asker.beat 0 0).getMemberView).1).memberTable.find 0 =
          some own ∧
      (asked.mergeView (fun _ => 0) (asker.beat 0 0).getMemberView).2.memberTable.find 0 =
        some held ∧
      held.record.version = own.record.version) ∧
    ∀ id, id ≠ 0 → id ≠ 1 →
      ((asker.beat 0 0).mergeResponse (fun _ => 0)
        (asked.mergeView (fun _ => 0) (asker.beat 0 0).getMemberView).1).memberTable.versions id =
          (asker.beat 0 0).memberTable.versions id ⊔ asked.memberTable.versions id ∧
      (asked.mergeView (fun _ => 0) (asker.beat 0 0).getMemberView).2.memberTable.versions id =
        (asker.beat 0 0).memberTable.versions id ⊔ asked.memberTable.versions id := by
  refine round_reconciles asker asked (by decide)
    { record := { last with heartbeatCounter := 4 }, lastUpdatedMs := 0 } rfl (by decide) ?_ 0 0
    (fun _ => 0) (fun _ => 0) _ _ _ _ rfl rfl rfl
  intro entry' hentry'
  cases hentry'
  decide

/-- The heartbeat of server 0 wraps around, and server 1 keeps the record that it has. -/
theorem wrapped_heartbeat_unheard : ¬ ∀ (a b : GossipMembership) (entry : MemberEntry)
    (now now' : UInt64) (clock clock' : Nat → UInt64), a.selfNodeId ≠ b.selfNodeId →
    a.memberTable.find a.selfNodeId = some entry →
    (∀ entry', b.memberTable.find a.selfNodeId = some entry' →
      entry'.record.stamp ≤ entry.record.stamp) →
    ∃ own held,
      ((a.beat now now').mergeResponse clock'
        (b.mergeView clock (a.beat now now').getMemberView).1).memberTable.find a.selfNodeId =
          some own ∧
      (b.mergeView clock (a.beat now now').getMemberView).2.memberTable.find a.selfNodeId =
        some held ∧ held.record.version = own.record.version := by
  intro h
  rcases h (knowing 0 last { last with nodeId := 1 }) (knowing 1 { last with nodeId := 1 } last)
    { record := last, lastUpdatedMs := 0 } 0 0 (fun _ => 0) (fun _ => 0) (by decide) rfl
    (by intro entry' hentry'; cases hentry'; exact le_rfl) with ⟨own, held, hown, hheld, heq⟩
  have hown' : some own = some (beaten 0 { record := last, lastUpdatedMs := 0 }) :=
    hown.symm.trans (by decide)
  have hheld' : some held = some { record := last, lastUpdatedMs := 0 } :=
    hheld.symm.trans (by decide)
  rw [Option.some.inj hown', Option.some.inj hheld'] at heq
  revert heq
  decide

end GossipMembership

/-! ### The four events of a round -/

namespace Network

variable {config : NodeId → GossipConfig} {s : Network} {i j : NodeId} {m m' : Member}

/-- In a cluster a round is a beat, a request, the answer and its merge, and it leaves the
two servers as above. -/
theorem run_round (hi : s.member i = some m) (hj : s.member j = some m') (hne : i ≠ j)
    (hgossiping : m.phase = .gossiping) (hup : m'.phase ≠ .down) (now now' : UInt64)
    (draw : Nat) (hpeer : (m.membership.beat now now').pickRandomPeer draw =
      some (config j).endpoint) (clock clock' : Nat → UInt64) :
    let a₁ := m.membership.beat now now'
    let served := m'.membership.mergeView clock a₁.getMemberView
    let t := run (step config) s
      [.beat i now now', .round i draw,
       .serve j (.request i (config j).endpoint a₁.getMemberView) clock,
       .receive i (.response i served.1) clock']
    t.member i = some { m with membership := a₁.mergeResponse clock' served.1 } ∧
      t.member j = some { m' with membership := served.2 } := by
  intro a₁ served t
  let ma : Member := { m with membership := a₁ }
  let s₁ := s.set i ma []
  let s₂ := s₁.set i ma [.request i (config j).endpoint a₁.getMemberView]
  let s₃ := s₂.set j { m' with membership := served.2 } [.response i served.1]
  have hbeat : s.step config (.beat i now now') = s₁ := by
    rw [step_of_member (e := .beat i now now') hi]
    exact if_pos (Or.inl hgossiping)
  have hround : s₁.step config (.round i draw) = s₂ := by
    rw [step_of_member (e := .round i draw) (member_set_self i ma [] s)]
    refine (if_pos (Or.inl hgossiping)).trans ?_
    rw [show ma.membership.pickRandomPeer draw = some (config j).endpoint from hpeer]
  have hj₂ : s₂.member j = some m' := by
    rw [member_set_of_ne hne.symm, member_set_of_ne hne.symm]
    exact hj
  have hserve : s₂.step config
      (.serve j (.request i (config j).endpoint a₁.getMemberView) clock) = s₃ := by
    rw [step_of_member (e := .serve j _ clock) hj₂]
    exact if_pos ⟨hup, rfl, mem_sent_set.mpr (Or.inr (List.mem_singleton.mpr rfl))⟩
  have hi₃ : s₃.member i = some ma := by
    rw [member_set_of_ne hne]
    exact member_set_self i ma _ s₁
  have hreceive : s₃.step config (.receive i (.response i served.1) clock') =
      s₃.set i { ma with membership := a₁.mergeResponse clock' served.1 } [] := by
    rw [step_of_member (e := .receive i _ clock') hi₃]
    refine (if_pos ⟨rfl, mem_sent_set.mpr (Or.inr (List.mem_singleton.mpr rfl))⟩).trans ?_
    unfold receive
    rw [show ma.phase = .gossiping from hgossiping]
  have ht : t = s₃.set i { ma with membership := a₁.mergeResponse clock' served.1 } [] := by
    show (((s.step config _).step config _).step config _).step config _ = _
    rw [hbeat, hround, hserve, hreceive]
  rw [ht]
  refine ⟨member_set_self i _ _ s₃, ?_⟩
  rw [member_set_of_ne hne.symm]
  exact member_set_self j _ _ s₂

end Network

end DistKV
