/-
A clean departure is final.

A server that stops gives its own record a stamp that no record about it has had, and
declares it dead.  From then on every record of that generation with as high a stamp is
dead, wherever it is: copies keep stamp and severity, and what the server itself may still
do, one more heartbeat, keeps the status.  A server that has started, and has such a
record, never goes back to a lower stamp, until it is started again and knows nothing.
-/
import DistKV.Proofs.Liveness
import DistKV.Proofs.Monotone

namespace DistKV

open GossipMembership MemberTable Machine

/-! ### Stamps -/

section Stamp

variable {a b : MemberRecord}

theorem stamp_le_iff : a.stamp ≤ b.stamp ↔ a.generation < b.generation ∨
    a.generation = b.generation ∧ a.heartbeatCounter ≤ b.heartbeatCounter := by
  unfold MemberRecord.stamp
  rw [Prod.Lex.toLex_le_toLex, UInt32.lt_iff_toNat_lt, UInt64.le_iff_toNat_le,
    UInt32.toNat_inj]

theorem generation_eq_of_stamp (h : a.stamp = b.stamp) : a.generation = b.generation := by
  unfold MemberRecord.stamp at h
  rw [toLex_inj, Prod.mk.injEq] at h
  exact UInt32.toNat_inj.mp h.1

theorem stamp_le_of_version_le (h : a.version ≤ b.version) : a.stamp ≤ b.stamp := by
  rw [stamp_le_iff]
  rcases h.eq_or_lt with heq | hlt
  · rcases version_eq_iff.mp heq with ⟨hgeneration, hheartbeat, -⟩
    rw [hgeneration, hheartbeat]
    exact Or.inr ⟨rfl, UInt64.le_refl _⟩
  · rcases version_lt_iff.mp hlt with hgeneration | ⟨hgeneration, hheartbeat | ⟨hheartbeat, -⟩⟩
    · exact Or.inl hgeneration
    · exact Or.inr ⟨hgeneration, UInt64.le_of_lt hheartbeat⟩
    · rw [hheartbeat]
      exact Or.inr ⟨hgeneration, UInt64.le_refl _⟩

/-- What is no less severe than dead is dead. -/
theorem dead_of_le {a b : NodeStatus} (h : a.toNat ≤ b.toNat) (ha : a = .dead) :
    b = .dead := by
  rw [ha] at h
  rcases b with _ | _ | _
  · exact absurd h (by decide)
  · exact absurd h (by decide)
  · rfl

end Stamp

namespace Network

variable {config : NodeId → GossipConfig} {s : Network} {e : GossipEvent} {m m' : Member}
  {packets : List Packet} {a b i j : NodeId} {o r : MemberRecord}

/-- The record that server `i` has of server `j`. -/
def recordAt (s : Network) (i j : NodeId) : Option MemberRecord :=
  (s.member i).bind fun m => (m.membership.memberTable.find j).map MemberEntry.record

theorem recordAt_eq (hm : s.member i = some m) :
    s.recordAt i j = (m.membership.memberTable.find j).map MemberEntry.record := by
  unfold recordAt
  rw [hm]
  rfl

theorem mentions_of_recordAt (h : s.recordAt i j = some r) : s.Mentions r ∧ r.nodeId = j := by
  rcases Option.bind_eq_some_iff.mp h with ⟨m, hm, hfind⟩
  rcases Option.map_eq_some_iff.mp hfind with ⟨entry, hentry, rfl⟩
  exact ⟨mentions_of_find hm hentry, m.membership.memberTable.filed j entry hentry⟩

/-! ### What a server does to its own record -/

/-- It leaves it alone, starts a new generation, or raises the heartbeat, and then the
status stays or is dead. -/
theorem own_of_act (hs : s.Standing) (hact : Act config s e m' packets)
    (hr : (s.set e.at m' packets).own e.at = some r) :
    s.own e.at = some r ∨
      (∃ i loaded now, e = .construct i loaded now ∧ r.generation = loaded + 1) ∨
      ∃ o, s.own e.at = some o ∧ r.generation = o.generation ∧
        (r.status = o.status ∨ r.status = .dead) := by
  rw [own_eq (member_set_self _ _ _ _)] at hr
  cases hact with
  | construct i loaded now hdown =>
      refine Or.inr (Or.inl ⟨i, loaded, now, rfl, ?_⟩)
      have hfind := find_construct i (config i) loaded now i
      rw [if_pos rfl] at hfind
      rw [show GossipEvent.at (.construct i loaded now) = i from rfl, hfind] at hr
      cases hr
      rfl
  | beat i now now' m hm hphase =>
      rcases hs i m hm with ⟨hi, entry, hentry⟩
      have hfind := @find_beat m.membership entry now now' (hi.symm ▸ hentry) i
      rw [if_pos hi.symm] at hfind
      rw [show GossipEvent.at (.beat i now now') = i from rfl, hfind] at hr
      cases hr
      exact Or.inr (Or.inr ⟨entry.record, own_of_find hm hentry, rfl, Or.inl rfl⟩)
  | serve i source peer view clock m hm hphase hsent =>
      rcases hs i m hm with ⟨hi, -⟩
      have hfind := @find_mergeView_self clock view m.membership
      rw [hi] at hfind
      rw [show GossipEvent.at (.serve i _ clock) = i from rfl, hfind] at hr
      exact Or.inl ((own_eq hm).trans hr)
  | bootstrap i view clock m hm hphase hsent =>
      rcases hs i m hm with ⟨hi, -⟩
      have hfind := find_bootstrap_self clock view m.membership
      rw [hi] at hfind
      rw [show GossipEvent.at (.receive i _ clock) = i from rfl, hfind] at hr
      exact Or.inl ((own_eq hm).trans hr)
  | receive i view clock m hm hphase hsent =>
      rcases hs i m hm with ⟨hi, -⟩
      have hfind := @find_mergeResponse_self clock view m.membership
      rw [hi] at hfind
      rw [show GossipEvent.at (.receive i _ clock) = i from rfl, hfind] at hr
      exact Or.inl ((own_eq hm).trans hr)
  | stop i m hm hphase =>
      rcases hs i m hm with ⟨hi, entry, hentry⟩
      have hfind := find_depart (hi.symm ▸ hentry) i
      rw [if_pos hi.symm] at hfind
      rw [show GossipEvent.at (.stop i) = i from rfl, hfind] at hr
      cases hr
      exact Or.inr (Or.inr ⟨entry.record, own_of_find hm hentry, rfl, Or.inr rfl⟩)
  | start i m hm hphase => exact Or.inl ((own_eq hm).trans hr)
  | contactSeed i seed m hm hphase => exact Or.inl ((own_eq hm).trans hr)
  | startLoop i m hm hphase => exact Or.inl ((own_eq hm).trans hr)
  | round i draw peer m hm hphase hpeer => exact Or.inl ((own_eq hm).trans hr)
  | crash i m hm => exact Or.inl ((own_eq hm).trans hr)

/-! ### Everywhere else -/

/-- Server `a` has come past its record `o`, and every record of that generation that is as
late is dead. -/
structure Gone (s : Network) (a : NodeId) (o : MemberRecord) : Prop where
  past : ∃ o', s.own a = some o' ∧ o.stamp ≤ o'.stamp
  dead : ∀ r, s.Mentions r → r.nodeId = a → r.generation = o.generation →
    o.stamp ≤ r.stamp → r.status = .dead

theorem mentions_of_own (h : s.own a = some r) : s.Mentions r ∧ r.nodeId = a :=
  mentions_of_recordAt h

/-- What server `a` says about itself is dead as well. -/
theorem Gone.own_dead (hg : s.Gone a o) (ho : s.own a = some r)
    (hgeneration : r.generation = o.generation) : r.status = .dead := by
  rcases hg.past with ⟨o', ho', hle⟩
  rw [ho] at ho'
  cases ho'
  rcases mentions_of_own ho with ⟨hmentions, hid⟩
  exact hg.dead r hmentions hid hgeneration hle

theorem Gone.own_step (hg : s.Gone a o) (hs : s.Standing) (hlawful : s.Lawful e)
    (hr : (s.step config e).own a = some r) (hgeneration : r.generation = o.generation) :
    r.status = .dead := by
  rcases step_cases config s e with hsame | ⟨m', packets, hset, hact⟩
  · rw [hsame] at hr
    exact hg.own_dead hr hgeneration
  · rw [hset] at hr
    by_cases ha : a = e.at
    · rw [ha] at hr
      rcases own_of_act hs hact hr with hold | ⟨i, loaded, now, rfl, hnew⟩ |
        ⟨o', ho', hsame, hstatus⟩
      · rw [← ha] at hold
        exact hg.own_dead hold hgeneration
      · -- a new generation is none that has departed
        rcases hg.past with ⟨o', ho', hle⟩
        have hlt : o'.generation < r.generation := by
          rw [hnew]
          rw [show a = i from ha] at ho'
          exact hlawful o' ho'
        rw [hgeneration] at hlt
        rcases stamp_le_iff.mp hle with hlater | ⟨hequal, -⟩
        · exact absurd hlt (UInt32.lt_asymm hlater)
        · rw [hequal] at hlt
          exact absurd hlt (UInt32.lt_irrefl _)
      · rw [← ha] at ho'
        rcases hstatus with hstatus | hstatus
        · rw [hstatus]
          exact hg.own_dead ho' (hsame.symm.trans hgeneration)
        · exact hstatus
    · unfold own at hr
      rw [member_set_of_ne ha] at hr
      exact hg.own_dead hr hgeneration

theorem Gone.step (hg : s.Gone a o) (hs : s.Standing) (hlawful : s.Lawful e) :
    (s.step config e).Gone a o where
  past := by
    rcases hg.past with ⟨o', ho', hle⟩
    rcases Network.own_step config hs hlawful ho' with ⟨o'', ho'', hrise⟩
    exact ⟨o'', ho'', hle.trans hrise⟩
  dead := by
    intro r hr hid hgeneration hle
    rcases traced_step hs hr with ⟨r₀, hr₀, hid₀, hstamp, hstatus⟩ | hown
    · refine dead_of_le hstatus (hg.dead r₀ hr₀ (hid₀.trans hid) ?_ ?_)
      · exact (generation_eq_of_stamp hstamp).trans hgeneration
      · rw [hstamp]
        exact hle
    · rw [hid] at hown
      exact hg.own_step hs hlawful hown hgeneration

/-- After it has stopped, a server is gone. -/
theorem gone_of_stop {es : List GossipEvent} (hes : Along (step config) Lawful empty es)
    (hlawful : (run (step config) empty es).Lawful (.stop a))
    (hm : (run (step config) empty es).member a = some m) (hphase : m.phase ≠ .down)
    (ho : (run (step config) empty (es ++ [.stop a])).own a = some o) :
    (run (step config) empty (es ++ [.stop a])).Gone a o := by
  have hs := standing_of_run config es
  rcases hs a m hm with ⟨ha, entry, hentry⟩
  have hfind := find_depart (ha.symm ▸ hentry) a
  rw [if_pos ha.symm] at hfind
  have hstep : (run (step config) empty es).step config (.stop a) =
      (run (step config) empty es).set a
        { phase := .stopped, membership := m.membership.depart } [] := by
    rw [step_of_member (e := .stop a) hm]
    exact if_neg hphase
  have hdeparted : o = (departed entry).record := by
    rw [run_snoc, hstep, own_of_find (member_set_self _ _ _ _) hfind] at ho
    exact (Option.some.inj ho).symm
  -- no record has a stamp as high as the one the server gives itself
  have hbefore : ∀ r, (run (step config) empty es).Mentions r → r.nodeId = a →
      ¬ o.stamp ≤ r.stamp := by
    intro r hr hid hle
    rcases honest_of_run hes r hr with ⟨o', ho', hbound, -⟩
    rw [hid, own_of_find hm hentry] at ho'
    cases ho'
    have hback := hle.trans hbound
    have hwrap := hlawful _ (own_of_find hm hentry)
    rw [hdeparted, stamp_le_iff] at hback
    rcases hback with hlt | ⟨-, hheartbeat⟩
    · exact UInt32.lt_irrefl _ hlt
    · have hone : (1 : UInt64).toNat = 1 := rfl
      have hnat : (entry.record.heartbeatCounter + 1).toNat ≤
          entry.record.heartbeatCounter.toNat := UInt64.le_iff_toNat_le.mp hheartbeat
      rw [UInt64.toNat_add, hone, Nat.mod_eq_of_lt hwrap] at hnat
      omega
  refine ⟨⟨o, ho, le_rfl⟩, ?_⟩
  intro r hr hid _ hle
  rw [run_snoc] at hr ho
  rcases traced_step hs hr with ⟨r₀, hr₀, hid₀, hstamp, -⟩ | hown
  · rw [← hstamp] at hle
    exact absurd hle (hbefore r₀ hr₀ (hid₀.trans hid))
  · rw [hid, ho] at hown
    cases hown
    rw [hdeparted]
    rfl

/-! ### A server that has started -/

/-- Server `i` has finished `start`. -/
def Started (s : Network) (i : NodeId) : Prop :=
  ∃ m, s.member i = some m ∧ m.phase ≠ .constructed ∧ m.phase ≠ .starting

/-- What a server that has started takes to be the case about others never gets older. -/
theorem rises_of_act (hact : Act config s e m' packets)
    (hnew : ∀ loaded now, e ≠ .construct e.at loaded now) :
    ∃ m, s.member e.at = some m ∧ (m.phase ≠ .constructed → m.phase ≠ .starting →
      Rises m.membership m'.membership ∧ m'.phase ≠ .constructed ∧ m'.phase ≠ .starting) := by
  cases hact with
  | construct i loaded now hdown => exact absurd rfl (hnew loaded now)
  | start i m hm hphase => exact ⟨m, hm, fun hconstructed _ => absurd hphase hconstructed⟩
  | contactSeed i seed m hm hphase => exact ⟨_, hm, fun _ hstarting => absurd hphase hstarting⟩
  | startLoop i m hm hphase => exact ⟨m, hm, fun _ hstarting => absurd hphase hstarting⟩
  | bootstrap i view clock m hm hphase hsent =>
      exact ⟨m, hm, fun _ hstarting => absurd hphase hstarting⟩
  | beat i now now' m hm hphase =>
      exact ⟨m, hm, fun hconstructed hstarting =>
        ⟨rises_beat _ now now', hconstructed, hstarting⟩⟩
  | round i draw peer m hm hphase hpeer =>
      exact ⟨_, hm, fun hconstructed hstarting => ⟨Rises.refl _, hconstructed, hstarting⟩⟩
  | serve i source peer view clock m hm hphase hsent =>
      exact ⟨m, hm, fun hconstructed hstarting =>
        ⟨fun _ _ _ h => find_mergeView_mono h, hconstructed, hstarting⟩⟩
  | receive i view clock m hm hphase hsent =>
      exact ⟨m, hm, fun hconstructed hstarting =>
        ⟨fun _ _ _ h => find_mergeResponse_mono h, hconstructed, hstarting⟩⟩
  | stop i m hm hphase => exact ⟨m, hm, fun _ _ => ⟨rises_depart _, by simp, by simp⟩⟩
  | crash i m hm => exact ⟨m, hm, fun _ _ => ⟨Rises.refl _, by simp, by simp⟩⟩

/-- Server `b` has started, and its record of server `a` is no older than `o`. -/
structure Informed (s : Network) (a b : NodeId) (o : MemberRecord) : Prop where
  started : s.Started b
  record : ∃ r, s.recordAt b a = some r ∧ o.stamp ≤ r.stamp

theorem Informed.step (h : s.Informed a b o) (hs : s.Standing) (hlawful : s.Lawful e)
    (hnew : ∀ loaded now, e ≠ .construct b loaded now) : (s.step config e).Informed a b o := by
  rcases h.record with ⟨r, hr, hle⟩
  rcases step_cases config s e with hsame | ⟨m', packets, hset, hact⟩
  · rw [hsame]
    exact h
  · by_cases hb : b = e.at
    · rcases h.started with ⟨m, hm, hconstructed₀, hstarting₀⟩
      rw [hb] at hnew
      rcases rises_of_act hact hnew with ⟨m₀, hm₀, hkeeps⟩
      rw [← hb] at hm₀
      have hmm : m₀ = m := Option.some.inj (hm₀.symm.trans hm)
      rw [hmm] at hkeeps
      rcases hkeeps hconstructed₀ hstarting₀ with ⟨hrises, hconstructed, hstarting⟩
      have hm' : (s.step config e).member b = some m' := by
        rw [hset, hb]
        exact member_set_self _ _ _ _
      refine ⟨⟨m', hm', hconstructed, hstarting⟩, ?_⟩
      by_cases ha : a = b
      · subst ha
        rcases Network.own_step config hs hlawful hr with ⟨o', ho', hrise⟩
        exact ⟨o', ho', hle.trans hrise⟩
      · rw [recordAt_eq hm] at hr
        rcases Option.map_eq_some_iff.mp hr with ⟨entry, hentry, rfl⟩
        rcases hs b m hm with ⟨hself, -⟩
        rcases hrises a entry (by rw [hself]; exact ha) hentry with ⟨entry', hentry', hversion⟩
        refine ⟨entry'.record, ?_, hle.trans (stamp_le_of_version_le hversion)⟩
        rw [recordAt_eq hm', hentry']
        rfl
    · rcases h.started with ⟨m, hm, hphase⟩
      have hother : (s.step config e).member b = s.member b := member_step_of_ne hb
      refine ⟨⟨m, hother.trans hm, hphase⟩, r, ?_, hle⟩
      unfold recordAt
      rw [hother]
      exact hr

/-- **A clean departure is final.** -/
theorem departure_is_final (config : NodeId → GossipConfig) (a b : NodeId)
    (pre mid post : List GossipEvent)
    (hes : Along (step config) Lawful empty (pre ++ [.stop a] ++ mid ++ post)) (m : Member)
    (hm : (run (step config) empty pre).member a = some m) (hphase : m.phase ≠ .down)
    (o : MemberRecord) (ho : (run (step config) empty (pre ++ [.stop a])).own a = some o)
    (hstarted : (run (step config) empty (pre ++ [.stop a] ++ mid)).Started b)
    (r : MemberRecord)
    (hr : (run (step config) empty (pre ++ [.stop a] ++ mid)).recordAt b a = some r)
    (hgeneration : r.generation = o.generation)
    (hheartbeat : o.heartbeatCounter ≤ r.heartbeatCounter)
    (honce : ∀ loaded now, .construct b loaded now ∉ post) (r' : MemberRecord)
    (hr' : (run (step config) empty (pre ++ [.stop a] ++ mid ++ post)).recordAt b a = some r')
    (hgeneration' : r'.generation = o.generation) :
    r'.status ≠ .alive ∧ r'.status ≠ .suspect := by
  obtain ⟨hmid, hpost⟩ := along_append.mp hes
  obtain ⟨hstop, hmid⟩ := along_append.mp hmid
  obtain ⟨hpre, hlawful⟩ := along_snoc.mp hstop
  have hgone := gone_of_stop hpre hlawful hm hphase ho
  have hkeeps : ∀ s : Network, ∀ e, s.Standing ∧ s.Gone a o → s.Lawful e →
      (s.step config e).Standing ∧ (s.step config e).Gone a o :=
    fun s e h he => ⟨h.1.step, h.2.step h.1 he⟩
  have hgoneMid : (run (step config) empty (pre ++ [.stop a] ++ mid)).Standing ∧
      (run (step config) empty (pre ++ [.stop a] ++ mid)).Gone a o := by
    rw [run_append]
    exact hmid.invariant ⟨standing_of_run config _, hgone⟩ hkeeps
  have hinformed : (run (step config) empty (pre ++ [.stop a] ++ mid)).Informed a b o :=
    ⟨hstarted, r, hr, stamp_le_iff.mpr (Or.inr ⟨hgeneration.symm, hheartbeat⟩)⟩
  have honly : Along (step config) (fun _ e => ∀ loaded now, e ≠ .construct b loaded now)
      (run (step config) empty (pre ++ [.stop a] ++ mid)) post := by
    refine along_iff.mpr ?_
    intro pre' e hpre' loaded now he
    rw [he] at hpre'
    exact honce loaded now (hpre'.subset (by simp))
  rw [run_append] at hr'
  have hend := (hpost.and honly).invariant
    (I := fun t => (t.Standing ∧ t.Gone a o) ∧ t.Informed a b o) ⟨hgoneMid, hinformed⟩
    fun t e ht he => ⟨hkeeps t e ht.1 he.1, ht.2.step ht.1.1 he.1 he.2⟩
  rcases hend.2.record with ⟨r'', hr'', hle⟩
  rw [hr'] at hr''
  cases hr''
  rcases mentions_of_recordAt hr' with ⟨hmentions, hid⟩
  have hdead := hend.1.2.dead r' hmentions hid hgeneration' hle
  rw [hdead]
  exact ⟨by simp, by simp⟩

/-- Three servers: 0 has 2 for a seed, and 1 has both. -/
def threeServers (i : NodeId) : GossipConfig where
  endpoint := if i = 0 then str "a" else if i = 1 then str "b" else str "c"
  seedNodes := if i = 0 then [str "c"] else if i = 1 then [str "a", str "c"] else []
  suspectThresholdMs := 3000
  deadThresholdMs := 10000

/-- What server `i` says about itself when it comes up. -/
def newcomer (i : NodeId) (generation : UInt32) : MemberRecord where
  nodeId := i
  endpoint := (threeServers i).endpoint
  status := .alive
  heartbeatCounter := 0
  generation := generation

/-- Server 2 hears of server 0, and server 1 comes up. -/
def introduced : List GossipEvent :=
  [.construct 2 0 0, .construct 0 0 0, .start 0, .contactSeed 0 (str "c"),
   .serve 2 (.request 0 (str "c") [newcomer 0 1]) fun _ => 0, .construct 1 0 0, .start 1]

/-- What server 0 says about itself once it has stopped. -/
def gone0 : MemberRecord := { newcomer 0 1 with status := .dead, heartbeatCounter := 1 }

/-- Server 1 asks both of its seeds.  The response of server 2 is on its way for long, and server
0 tells server 1 that it is gone. -/
def informed : List GossipEvent :=
  [.contactSeed 1 (str "a"), .contactSeed 1 (str "c"),
   .serve 2 (.request 1 (str "c") [newcomer 1 1]) fun _ => 0,
   .serve 0 (.request 1 (str "a") [newcomer 1 1]) fun _ => 0,
   .receive 1 (.response 1 [newcomer 1 1, gone0]) fun _ => 0, .startLoop 1]

/-- Now it arrives, and server 0 beats and goes round once more. -/
def belated : List GossipEvent :=
  [.receive 1 (.response 1 [newcomer 1 1, newcomer 0 1, newcomer 2 1]) fun _ => 0, .beat 0 0 0,
   .round 0 0,
   .serve 1 (.request 0 (str "b") [{ gone0 with heartbeatCounter := 2 }, newcomer 1 1])
     fun _ => 0]

/-- Server 1 starts again, and hears of server 0 from server 2. -/
def restarted : List GossipEvent :=
  [.crash 1, .construct 1 1 0, .start 1, .contactSeed 1 (str "c"),
   .serve 2 (.request 1 (str "c") [newcomer 1 2]) fun _ => 0,
   .receive 1 (.response 1 [newcomer 1 2, newcomer 0 1, newcomer 2 1]) fun _ => 0, .startLoop 1]

theorem lawful_informed :
    Along (step threeServers) Lawful empty (introduced ++ [.stop 0] ++ informed) := by
  refine ⟨?_, ?_, trivial, trivial, trivial, ?_, trivial, ?_, trivial, trivial, trivial, trivial,
    trivial, trivial, trivial⟩
  · intro o ho
    cases ho
  · intro o ho
    cases ho
  · intro o ho
    cases ho
  · intro o ho
    cases ho
    decide

theorem lawful_belated :
    Along (step threeServers) Lawful empty (introduced ++ [.stop 0] ++ informed ++ belated) := by
  refine along_append.mpr ⟨lawful_informed, trivial, ?_, trivial, trivial, trivial⟩
  intro o ho
  cases ho
  decide

theorem lawful_restarted :
    Along (step threeServers) Lawful empty (introduced ++ [.stop 0] ++ informed ++ restarted) := by
  refine along_append.mpr
    ⟨lawful_informed, trivial, ?_, trivial, trivial, trivial, trivial, trivial, trivial⟩
  intro o ho
  cases ho
  decide

theorem stopping0 : ∃ m, (run (step threeServers) empty introduced).member 0 = some m ∧
    m.phase ≠ .down := by
  have hphase : ((run (step threeServers) empty introduced).member 0).map Member.phase =
      some .starting := by decide +kernel
  rcases Option.map_eq_some_iff.mp hphase with ⟨m, hm, hstarting⟩
  exact ⟨m, hm, by rw [hstarting]; simp⟩

theorem started1 :
    (run (step threeServers) empty (introduced ++ [.stop 0] ++ informed)).Started 1 := by
  have hphase : ((run (step threeServers) empty (introduced ++ [.stop 0] ++ informed)).member
      1).map Member.phase = some .gossiping := by decide +kernel
  rcases Option.map_eq_some_iff.mp hphase with ⟨m, hm, hgossiping⟩
  refine ⟨m, hm, ?_, ?_⟩
  · rw [hgossiping]
    simp
  · rw [hgossiping]
    simp

theorem departure_is_final_three :
    ∃ r', (run (step threeServers) empty (introduced ++ [.stop 0] ++ informed ++ belated)).recordAt
        1 0 = some r' ∧ r'.heartbeatCounter = 2 ∧ r'.status ≠ .alive ∧ r'.status ≠ .suspect := by
  rcases stopping0 with ⟨m, hm, hphase⟩
  have hlater : (run (step threeServers) empty
      (introduced ++ [.stop 0] ++ informed ++ belated)).recordAt 1 0 =
      some { gone0 with heartbeatCounter := 2 } := by decide +kernel
  refine ⟨_, hlater, rfl, departure_is_final threeServers 0 1 introduced informed belated
    lawful_belated m hm hphase gone0 (by decide +kernel) started1 gone0 (by decide +kernel) rfl
    (UInt64.le_refl _) ?_ _ hlater rfl⟩
  intro loaded now hmem
  simp [belated] at hmem

/-- Server 1 is started again, and hears of server 0 from one that has missed its stop. -/
theorem restart_forgets_departure : ¬ ∀ (config : NodeId → GossipConfig) (a b : NodeId)
    (pre mid post : List GossipEvent) (m : Member) (o r r' : MemberRecord),
    Along (step config) Lawful empty (pre ++ [.stop a] ++ mid ++ post) →
    (run (step config) empty pre).member a = some m → m.phase ≠ .down →
    (run (step config) empty (pre ++ [.stop a])).own a = some o →
    (run (step config) empty (pre ++ [.stop a] ++ mid)).Started b →
    (run (step config) empty (pre ++ [.stop a] ++ mid)).recordAt b a = some r →
    r.status = .dead → r.generation = o.generation →
    o.heartbeatCounter ≤ r.heartbeatCounter →
    (run (step config) empty (pre ++ [.stop a] ++ mid ++ post)).recordAt b a = some r' →
    r'.generation = o.generation → r'.status ≠ .alive ∧ r'.status ≠ .suspect := by
  intro h
  rcases stopping0 with ⟨m, hm, hphase⟩
  have hnot := h threeServers 0 1 introduced informed restarted m gone0 gone0 (newcomer 0 1)
    lawful_restarted hm hphase (by decide +kernel) started1 (by decide +kernel) rfl rfl
    (UInt64.le_refl _) (by decide +kernel) rfl
  exact hnot.1 rfl

end Network

end DistKV
