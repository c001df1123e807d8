/-
When gossip falls silent.

A server looks for peers among those it takes to be alive, and no others.  Gossip is live
while some running server takes some other running server to be alive.  Sending changes
nothing about that; a beat may, when the entries it finds are too old, and so may a merge,
when the news about everybody else who runs is bad.  So a run stays live if and only if
every beat and every merge in it is sustained, by another server or by what the server
itself finds.
-/
import DistKV.Proofs.Liveness

namespace DistKV

open Join MemberTable Machine

/-! ### Who is taken to be alive after a merge -/

namespace GossipMembership

/-- The news about server `j`, in the table and in a message, is that it is alive: there is
a record that says so, and none is newer. -/
def AliveAfter (g : GossipMembership) (view : List MemberRecord) (j : NodeId) : Prop :=
  ∃ r, (r ∈ g.getMemberView ∨ r ∈ view) ∧ r.nodeId = j ∧ r.status = .alive ∧
    ∀ r', r' ∈ g.getMemberView ∨ r' ∈ view → r'.nodeId = j → r'.version ≤ r.version

theorem find_alive_iff {g g' : GossipMembership} {view : List MemberRecord} {j : NodeId}
    (hj : j ≠ g.selfNodeId)
    (hversions : g'.memberTable.versions =
      raiseAll g.memberTable.versions (heard g.selfNodeId view)) :
    (∃ entry, g'.memberTable.find j = some entry ∧ entry.record.status = .alive) ↔
      g.AliveAfter view j := by
  have hset : ∀ v : Version, g.memberTable.versions j = (v : WithBot Version) ∨
      (j, v) ∈ heard g.selfNodeId view ↔
      ∃ r, (r ∈ g.getMemberView ∨ r ∈ view) ∧ r.nodeId = j ∧ r.version = v := by
    intro v
    rw [versions_eq_iff, mem_heard]
    constructor
    · rintro (⟨entry, hfind, hv⟩ | ⟨-, r, hr, hid, hv⟩)
      · have hid : entry.record.nodeId = j := g.memberTable.filed j entry hfind
        exact ⟨entry.record, Or.inl (mem_view.mpr ⟨entry, hid.symm ▸ hfind, rfl⟩), hid, hv⟩
      · exact ⟨r, Or.inr hr, hid, hv⟩
    · rintro ⟨r, hr | hr, rfl, hv⟩
      · rcases mem_view.mp hr with ⟨entry, hfind, rfl⟩
        exact Or.inl ⟨entry, hfind, hv⟩
      · exact Or.inr ⟨hj, r, hr, rfl, hv⟩
  constructor
  · rintro ⟨entry, hfind, halive⟩
    have hgreatest := versions_of_find hfind
    rw [hversions, raiseAll_eq_iff] at hgreatest
    rcases (hset _).mp hgreatest.1 with ⟨r, hr, hid, hversion⟩
    refine ⟨r, hr, hid, (version_eq_iff.mp hversion).2.2.trans halive, ?_⟩
    intro r' hr' hid'
    rw [hversion]
    exact hgreatest.2 ((hset _).mpr ⟨r', hr', hid', rfl⟩)
  · rintro ⟨r, hr, hid, halive, hnewest⟩
    have hv : g'.memberTable.versions j = (r.version : WithBot Version) := by
      rw [hversions, raiseAll_eq_iff]
      refine ⟨(hset _).mpr ⟨r, hr, hid, rfl⟩, ?_⟩
      intro v hv
      rcases (hset v).mp hv with ⟨r', hr', hid', rfl⟩
      exact hnewest r' hr' hid'
    rcases versions_eq_iff.mp hv with ⟨entry, hfind, hversion⟩
    exact ⟨entry, hfind, (version_eq_iff.mp hversion).2.2.trans halive⟩

end GossipMembership

namespace Network

variable {config : NodeId → GossipConfig} {s : Network} {e : GossipEvent} {i j : NodeId}
  {m m' : Member} {packets : List Packet}

/-- The server runs its gossip loop. -/
def Gossips (s : Network) (i : NodeId) : Prop :=
  (s.member i).map Member.phase = some .gossiping

/-- What server `i` says of the status of server `j`. -/
def statusAt (s : Network) (i j : NodeId) : Option NodeStatus :=
  (s.member i).bind fun m => (m.membership.memberTable.find j).map fun entry => entry.record.status

/-- Server `i` takes the other server `j` to be alive, and both gossip. -/
structure Sees (s : Network) (i j : NodeId) : Prop where
  ne : j ≠ i
  subject : s.Gossips i
  object : s.Gossips j
  alive : s.statusAt i j = some .alive

/-- **Gossip is live.** -/
def Live (s : Network) : Prop := ∃ i j, s.Sees i j

/-- The things that happen while servers gossip: none starts, stops or crashes, and what
arrives has been sent. -/
def Ongoing (config : NodeId → GossipConfig) (s : Network) : GossipEvent → Prop
  | .beat i _ _ => s.Gossips i
  | .round i _ => s.Gossips i
  | .serve i packet _ => s.Gossips i ∧ packet ∈ s.sent ∧
      ∃ source view, packet = .request source (config i).endpoint view
  | .receive i packet _ => s.Gossips i ∧ packet ∈ s.sent ∧ ∃ view, packet = .response i view
  | _ => False

/-- Gossip is live at another server than `i`. -/
def LiveElsewhere (s : Network) (i : NodeId) : Prop := ∃ k j, k ≠ i ∧ s.Sees k j

/-- A beat or a merge that does not silence the last server to see another. -/
def Sustained (s : Network) : GossipEvent → Prop
  | .beat i _ now' => s.LiveElsewhere i ∨
      ∃ m j entry, s.member i = some m ∧ j ≠ i ∧ s.Gossips j ∧
        m.membership.memberTable.find j = some entry ∧ entry.record.status = .alive ∧
        ¬ now' - entry.lastUpdatedMs > UInt64.ofInt m.membership.config.suspectThresholdMs
  | .serve i packet _ => s.LiveElsewhere i ∨
      ∃ m j, s.member i = some m ∧ j ≠ i ∧ s.Gossips j ∧ m.membership.AliveAfter packet.view j
  | .receive i packet _ => s.LiveElsewhere i ∨
      ∃ m j, s.member i = some m ∧ j ≠ i ∧ s.Gossips j ∧ m.membership.AliveAfter packet.view j
  | _ => True

theorem gossips_iff (hm : s.member i = some m) : s.Gossips i ↔ m.phase = .gossiping := by
  unfold Gossips
  rw [hm]
  exact Option.some_inj

theorem exists_member (h : s.Gossips i) : ∃ m, s.member i = some m ∧ m.phase = .gossiping := by
  rcases Option.map_eq_some_iff.mp h with ⟨m, hm, hphase⟩
  exact ⟨m, hm, hphase⟩

theorem statusAt_eq_alive_iff (hm : s.member i = some m) : s.statusAt i j = some .alive ↔
    ∃ entry, m.membership.memberTable.find j = some entry ∧ entry.record.status = .alive := by
  unfold statusAt
  rw [hm]
  exact Option.map_eq_some_iff

/-! ### One event -/

/-- A change of one server's table changes who gossips not at all, and who sees whom at
that server only. -/
theorem live_set_iff (hm : s.member i = some m) (hphase : m.phase = .gossiping)
    (hphase' : m'.phase = .gossiping) :
    (s.set i m' packets).Live ↔ s.LiveElsewhere i ∨ ∃ j, j ≠ i ∧ s.Gossips j ∧
      ∃ entry, m'.membership.memberTable.find j = some entry ∧ entry.record.status = .alive := by
  have hgossips : ∀ k, (s.set i m' packets).Gossips k ↔ s.Gossips k := by
    intro k
    by_cases hk : k = i
    · rw [hk, gossips_iff (member_set_self i m' packets s), gossips_iff hm]
      exact iff_of_true hphase' hphase
    · unfold Gossips
      rw [member_set_of_ne hk]
  have hother : ∀ k j, k ≠ i → (s.set i m' packets).statusAt k j = s.statusAt k j := by
    intro k j hk
    unfold statusAt
    rw [member_set_of_ne hk]
  constructor
  · rintro ⟨k, j, hne, hsubject, hobject, halive⟩
    rw [hgossips] at hsubject hobject
    by_cases hk : k = i
    · rw [hk] at hne halive
      rw [statusAt_eq_alive_iff (member_set_self i m' packets s)] at halive
      exact Or.inr ⟨j, hne, hobject, halive⟩
    · rw [hother k j hk] at halive
      exact Or.inl ⟨k, j, hk, hne, hsubject, hobject, halive⟩
  · rintro (⟨k, j, hk, hne, hsubject, hobject, halive⟩ | ⟨j, hne, hobject, halive⟩)
    · rw [← hother k j hk] at halive
      exact ⟨k, j, hne, (hgossips k).mpr hsubject, (hgossips j).mpr hobject, halive⟩
    · have hi : s.Gossips i := (gossips_iff hm).mpr hphase
      refine ⟨i, j, hne, (hgossips i).mpr hi, (hgossips j).mpr hobject, ?_⟩
      exact (statusAt_eq_alive_iff (member_set_self i m' packets s)).mpr halive

theorem live_set_merge_iff (hs : s.Standing) (hm : s.member i = some m)
    (hphase : m.phase = .gossiping) (hphase' : m'.phase = .gossiping) {view : List MemberRecord}
    (hversions : m'.membership.memberTable.versions = raiseAll m.membership.memberTable.versions
      (GossipMembership.heard m.membership.selfNodeId view)) :
    (s.set i m' packets).Live ↔ s.LiveElsewhere i ∨ ∃ m j, s.member i = some m ∧ j ≠ i ∧
      s.Gossips j ∧ m.membership.AliveAfter view j := by
  rw [live_set_iff hm hphase hphase']
  refine or_congr Iff.rfl ?_
  have hself := (hs i m hm).1
  constructor
  · rintro ⟨j, hne, hj, halive⟩
    exact ⟨m, j, hm, hne, hj,
      (GossipMembership.find_alive_iff (hself ▸ hne) hversions).mp halive⟩
  · rintro ⟨m₁, j, hm₁, hne, hj, halive⟩
    rw [hm] at hm₁
    cases hm₁
    exact ⟨j, hne, hj, (GossipMembership.find_alive_iff (hself ▸ hne) hversions).mpr halive⟩

theorem live_beat_iff (hs : s.Standing) (hi : s.Gossips i) (now now' : UInt64) :
    (s.step config (.beat i now now')).Live ↔ s.Sustained (.beat i now now') := by
  rcases exists_member hi with ⟨m, hm, hphase⟩
  have hstep : s.step config (.beat i now now') =
      s.set i { m with membership := m.membership.beat now now' } [] :=
    (step_of_member hm).trans (if_pos (Or.inl hphase))
  rcases hs i m hm with ⟨hself, own, hown⟩
  rw [← hself] at hown
  rw [hstep, @live_set_iff s i m { m with membership := m.membership.beat now now' } [] hm
    hphase hphase]
  refine or_congr Iff.rfl ?_
  constructor
  · rintro ⟨j, hne, hj, entry', hfind, halive⟩
    rw [GossipMembership.find_beat hown, if_neg (hself ▸ hne)] at hfind
    rcases Option.map_eq_some_iff.mp hfind with ⟨entry, hentry, rfl⟩
    rcases (GossipMembership.status_detect_eq_alive _ _ _).mp halive with ⟨hstatus, hage⟩
    exact ⟨m, j, entry, hm, hne, hj, hentry, hstatus, hage⟩
  · rintro ⟨m₁, j, entry, hm₁, hne, hj, hentry, hstatus, hage⟩
    rw [hm] at hm₁
    cases hm₁
    refine ⟨j, hne, hj, _, ?_, (GossipMembership.status_detect_eq_alive _ now' _).mpr
      ⟨hstatus, hage⟩⟩
    rw [GossipMembership.find_beat hown, if_neg (hself ▸ hne), hentry]
    rfl

/-- Sending silences nobody. -/
theorem live_round (hlive : s.Live) (hi : s.Gossips i) (draw : Nat) :
    (s.step config (.round i draw)).Live := by
  rcases exists_member hi with ⟨m, hm, hphase⟩
  rcases step_cases config s (.round i draw) with hsame | ⟨m', packets, hset, hact⟩
  · rw [hsame]
    exact hlive
  · rw [hset]
    cases hact with
    | round i draw peer m₁ hm₁ hphase₁ hpeer =>
        rw [hm] at hm₁
        cases hm₁
        show (s.set i m _).Live
        rw [live_set_iff hm hphase hphase]
        rcases hlive with ⟨k, j, hne, hsubject, hobject, halive⟩
        by_cases hk : k = i
        · rw [hk] at hne halive
          exact Or.inr ⟨j, hne, hobject, (statusAt_eq_alive_iff hm).mp halive⟩
        · exact Or.inl ⟨k, j, hk, hne, hsubject, hobject, halive⟩

theorem live_serve_iff (hs : s.Standing) {packet : Packet} {clock : Nat → UInt64}
    (he : Ongoing config s (.serve i packet clock)) :
    (s.step config (.serve i packet clock)).Live ↔ s.Sustained (.serve i packet clock) := by
  rcases he with ⟨hi, hsent, source, view, rfl⟩
  rcases exists_member hi with ⟨m, hm, hphase⟩
  have hup : m.phase ≠ .down := by simp [hphase]
  have hstep : s.step config (.serve i (.request source (config i).endpoint view) clock) =
      s.set i { m with membership := (m.membership.mergeView clock view).2 }
        [.response source (m.membership.mergeView clock view).1] :=
    (step_of_member hm).trans (if_pos ⟨hup, rfl, hsent⟩)
  rw [hstep]
  exact @live_set_merge_iff s i m
    { m with membership := (m.membership.mergeView clock view).2 } _ hs hm hphase hphase view
    (GossipMembership.versions_mergeView clock view m.membership)

theorem live_receive_iff (hs : s.Standing) {packet : Packet} {clock : Nat → UInt64}
    (he : Ongoing config s (.receive i packet clock)) :
    (s.step config (.receive i packet clock)).Live ↔ s.Sustained (.receive i packet clock) := by
  rcases he with ⟨hi, hsent, view, rfl⟩
  rcases exists_member hi with ⟨m, hm, hphase⟩
  have hstep : s.step config (.receive i (.response i view) clock) =
      s.set i { m with membership := m.membership.mergeResponse clock view } [] := by
    refine (step_of_member hm).trans ((if_pos ⟨rfl, hsent⟩).trans ?_)
    unfold receive
    rw [hphase]
  rw [hstep]
  exact @live_set_merge_iff s i m
    { m with membership := m.membership.mergeResponse clock view } _ hs hm hphase hphase view
    (GossipMembership.versions_mergeResponse clock view m.membership)

/-- **Gossip that is live stays live exactly if the event is sustained.** -/
theorem live_step_iff (hs : s.Standing) (hlive : s.Live) (he : Ongoing config s e) :
    (s.step config e).Live ↔ s.Sustained e := by
  cases e with
  | beat i now now' => exact live_beat_iff hs he now now'
  | round i draw => exact iff_of_true (live_round hlive he draw) trivial
  | serve i packet clock => exact live_serve_iff hs he
  | receive i packet clock => exact live_receive_iff hs he
  | construct i loaded now => exact he.elim
  | start i => exact he.elim
  | contactSeed i seed => exact he.elim
  | startLoop i => exact he.elim
  | stop i => exact he.elim
  | crash i => exact he.elim

/-! ### Runs -/

/-- **Gossip falls silent exactly when an event is not sustained.**  In a run of servers that
gossip, some server takes another running one to be alive in every state if and only if
every beat and every merge is sustained: at another server, by an entry that is not too old,
or by news that is not bad. -/
theorem live_iff_sustained (config : NodeId → GossipConfig) (s : Network) (hs : s.Standing)
    (hlive : s.Live) (es : List GossipEvent) (hes : Along (step config) (Ongoing config) s es) :
    (∀ pre, pre <+: es → (run (step config) s pre).Live) ↔
      Along (step config) Sustained s es := by
  constructor
  · intro h
    refine along_iff.mpr fun pre e hpre => ?_
    have hpre' : pre <+: es := (List.prefix_append pre [e]).trans hpre
    refine (live_step_iff (hs.run pre) (h pre hpre') (along_iff.mp hes pre e hpre)).mp ?_
    rw [← @run_snoc _ _ (step config)]
    exact h _ hpre
  · intro h pre hpre
    have hrun := ((hes.and h).initial hpre).invariant
      (I := fun t => t.Standing ∧ t.Live) ⟨hs, hlive⟩ fun t e ht he =>
        ⟨ht.1.step, (live_step_iff ht.1 ht.2 he.1).mpr he.2⟩
    exact hrun.2

/-! ### Two servers -/

/-- Servers 0 and 1, each a seed of the other. -/
def twoSeeds (i : NodeId) : GossipConfig where
  endpoint := if i = 0 then str "a" else str "b"
  seedNodes := [str "a", str "b"]
  suspectThresholdMs := 3000
  deadThresholdMs := 10000

/-- What a server of the two says about itself when it comes up. -/
def fresh (i : NodeId) : MemberRecord where
  nodeId := i
  endpoint := (twoSeeds i).endpoint
  status := .alive
  heartbeatCounter := 0
  generation := 1

/-- Server 0 comes up first, and server 1 asks it. -/
def comeUp : List GossipEvent :=
  [.construct 0 0 0, .start 0, .startLoop 0, .construct 1 0 0, .start 1,
   .contactSeed 1 (str "a"), .serve 0 (.request 1 (str "a") [fresh 1]) fun _ => 0,
   .receive 1 (.response 1 [fresh 1, fresh 0]) fun _ => 0, .startLoop 1]

/-- Both gossip, and take each other to be alive. -/
def met : Network := run (step twoSeeds) empty comeUp

/-- Both go round once, and neither hears of it.  When they beat again, each has not heard
from the other for too long. -/
def unheard : List GossipEvent :=
  [.beat 0 1000 1000, .round 0 0, .beat 1 1000 1000, .round 1 0, .beat 0 7000 7000,
   .beat 1 7000 7000]

/-- Nobody else has ever run. -/
theorem eq_of_gossips {es : List GossipEvent} (hes : ∀ e ∈ es, e.at = 0 ∨ e.at = 1)
    (hi : (run (step twoSeeds) empty es).Gossips i) : i = 0 ∨ i = 1 := by
  by_contra hne
  have hnone : (run (step twoSeeds) empty es).member i = none := by
    refine member_run_of_ne ?_
    intro e he heq
    rw [heq] at hne
    exact hne (hes e he)
  unfold Gossips at hi
  rw [hnone] at hi
  cases hi

theorem sees_met (hij : i = 0 ∧ j = 1 ∨ i = 1 ∧ j = 0) : met.Sees i j := by
  have hgossips : met.Gossips 0 ∧ met.Gossips 1 := by
    unfold Gossips
    decide +kernel
  rcases hij with ⟨rfl, rfl⟩ | ⟨rfl, rfl⟩
  · exact ⟨by decide, hgossips.1, hgossips.2, by decide +kernel⟩
  · exact ⟨by decide, hgossips.2, hgossips.1, by decide +kernel⟩

theorem ongoing_unheard : Along (step twoSeeds) (Ongoing twoSeeds) met unheard := by
  refine ⟨?_, ?_, ?_, ?_, ?_, ?_, trivial⟩ <;>
    · show Gossips _ _
      unfold Gossips
      decide +kernel

theorem live_iff_sustained_met :
    (∀ pre, pre <+: unheard → (run (step twoSeeds) met pre).Live) ↔
      Along (step twoSeeds) Sustained met unheard :=
  live_iff_sustained twoSeeds met (standing_empty.run comeUp)
    ⟨0, 1, sees_met (Or.inl ⟨rfl, rfl⟩)⟩ unheard ongoing_unheard

/-- Two servers that take each other to be alive end up both suspecting the other. -/
theorem falls_silent : ¬ ∀ (config : NodeId → GossipConfig) (s : Network)
    (es : List GossipEvent), s.Standing → (∃ i j, j ≠ i ∧ s.Gossips i ∧ s.Gossips j) →
    (∀ i j, j ≠ i → s.Gossips i → s.Gossips j → s.Sees i j) →
    Along (step config) (Ongoing config) s es → (run (step config) s es).Live := by
  intro h
  have hseen := sees_met (Or.inl ⟨rfl, rfl⟩)
  have hall : ∀ i j, j ≠ i → met.Gossips i → met.Gossips j → met.Sees i j := by
    intro i j hne hi hj
    have hup : ∀ e ∈ comeUp, e.at = 0 ∨ e.at = 1 := by decide
    rcases eq_of_gossips hup hi with rfl | rfl
    · exact sees_met (Or.inl ⟨rfl, (eq_of_gossips hup hj).resolve_left hne⟩)
    · exact sees_met (Or.inr ⟨rfl, (eq_of_gossips hup hj).resolve_right hne⟩)
  have hlive := h twoSeeds met unheard (standing_empty.run comeUp)
    ⟨0, 1, by decide, hseen.subject, hseen.object⟩ hall ongoing_unheard
  have hevents : ∀ e ∈ comeUp ++ unheard, e.at = 0 ∨ e.at = 1 := by decide
  have hrun : run (step twoSeeds) met unheard =
      run (step twoSeeds) empty (comeUp ++ unheard) := (run_append _ _ _).symm
  rw [hrun] at hlive
  rcases hlive with ⟨i, j, hne, hi, hj, halive⟩
  have hstatus : (run (step twoSeeds) empty (comeUp ++ unheard)).statusAt 0 1 = some .suspect ∧
      (run (step twoSeeds) empty (comeUp ++ unheard)).statusAt 1 0 = some .suspect := by
    decide +kernel
  rcases eq_of_gossips hevents hi with rfl | rfl
  · rw [(eq_of_gossips hevents hj).resolve_left hne, hstatus.1] at halive
    cases halive
  · rw [(eq_of_gossips hevents hj).resolve_right hne, hstatus.2] at halive
    cases halive

end Network

end DistKV
