/-
News travels with the messages.

What a server knows is in every message it sends, and whoever takes a message in knows at
least what is in it.  So from a server to any other one that a chain of messages leads to,
through however many hands and however late, everything arrives that was known at the
beginning, and once a server has nothing new to say, those who are at the end of a chain from
it know exactly how far it has come.
-/
import DistKV.Proofs.Flapping

namespace DistKV

open GossipMembership MemberTable Machine

namespace Network

variable {config : NodeId → GossipConfig} {s : Network} {e : GossipEvent} {m m' : Member}
  {packets : List Packet} {i j id : NodeId} {o r : MemberRecord}

/-- Where a record can be. -/
inductive Place where
  | server (i : NodeId)
  | packet (p : Packet)

/-- What an event does with what is somewhere. -/
inductive Hop (config : NodeId → GossipConfig) (s : Network) : GossipEvent → Place → Place → Prop
  /-- A server keeps it, unless it comes up anew or asks a seed. -/
  | stays (e : GossipEvent) (i : NodeId) (hnew : ∀ loaded now, e ≠ .construct i loaded now)
      (hseed : ∀ packet clock, e = .receive i packet clock →
        ∀ m, s.member i = some m → m.phase ≠ .starting) : Hop config s e (.server i) (.server i)
  | waits (e : GossipEvent) (p : Packet) : Hop config s e (.packet p) (.packet p)
  | sends (e : GossipEvent) (p : Packet) (hsent : (s.step config e).sent = s.sent ++ [p]) :
      Hop config s e (.server e.at) (.packet p)
  | serves (i source : NodeId) (view : List MemberRecord) (clock : Nat → UInt64) (m : Member)
      (hm : s.member i = some m) (hphase : m.phase ≠ .down) :
      Hop config s (.serve i (.request source (config i).endpoint view) clock)
        (.packet (.request source (config i).endpoint view)) (.server i)
  | receives (i : NodeId) (view : List MemberRecord) (clock : Nat → UInt64) (m : Member)
      (hm : s.member i = some m) (hphase : m.phase = .gossiping ∨ m.phase = .stopped) :
      Hop config s (.receive i (.response i view) clock) (.packet (.response i view)) (.server i)

/-- How late the record is that is somewhere about server `id`. -/
def Holds (id : NodeId) (s : Network) : Place → Lex (Nat × Nat) → Prop
  | .server i, v => ∃ r, s.recordAt i id = some r ∧ r.stamp = v
  | .packet p, v => p ∈ s.sent ∧ ∃ r ∈ p.view, r.nodeId = id ∧ r.stamp = v

/-- Nobody is said to have come further than it says itself. -/
structure Bounded (s : Network) : Prop where
  standing : s.Standing
  bound : ∀ r, s.Mentions r → ∃ o, s.own r.nodeId = some o ∧ r.stamp ≤ o.stamp

theorem Bounded.step (h : s.Bounded) (hlawful : s.Lawful e) : (s.step config e).Bounded where
  standing := h.standing.step
  bound := by
    intro r hr
    rcases traced_step h.standing hr with ⟨r₀, hr₀, hid, hstamp, -⟩ | hown
    · obtain ⟨o, ho, hle⟩ := h.bound r₀ hr₀
      obtain ⟨o', ho', hrise⟩ := own_step config h.standing hlawful ho
      exact ⟨o', hid ▸ ho', hstamp ▸ hle.trans hrise⟩
    · exact ⟨r, hown, le_rfl⟩

theorem bounded_of_run {es : List GossipEvent} (hes : Along (step config) Lawful empty es) :
    (run (step config) empty es).Bounded where
  standing := standing_of_run config es
  bound := fun r hr => by
    obtain ⟨o, ho, hle, -⟩ := honest_of_run hes r hr
    exact ⟨o, ho, hle⟩

/-! ### One hop -/

/-- What a server knows of others rises, unless it comes up anew or asks a seed. -/
theorem rises_of_stay (hact : Act config s e m' packets)
    (hnew : ∀ loaded now, e ≠ .construct e.at loaded now)
    (hseed : ∀ packet clock, e = .receive e.at packet clock →
      ∀ m, s.member e.at = some m → m.phase ≠ .starting) :
    ∃ m, s.member e.at = some m ∧ Rises m.membership m'.membership := by
  cases hact with
  | construct i loaded now hdown => exact absurd rfl (hnew loaded now)
  | start i m hm hphase => exact ⟨m, hm, Rises.refl _⟩
  | contactSeed i seed m hm hphase => exact ⟨_, hm, Rises.refl _⟩
  | startLoop i m hm hphase => exact ⟨m, hm, Rises.refl _⟩
  | bootstrap i view clock m hm hphase hsent => exact absurd hphase (hseed _ _ rfl m hm)
  | beat i now now' m hm hphase => exact ⟨m, hm, rises_beat _ now now'⟩
  | round i draw peer m hm hphase hpeer => exact ⟨_, hm, Rises.refl _⟩
  | serve i source peer view clock m hm hphase hsent =>
      exact ⟨m, hm, fun _ _ _ h => find_mergeView_mono h⟩
  | receive i view clock m hm hphase hsent =>
      exact ⟨m, hm, fun _ _ _ h => find_mergeResponse_mono h⟩
  | stop i m hm hphase => exact ⟨m, hm, rises_depart _⟩
  | crash i m hm => exact ⟨m, hm, Rises.refl _⟩

theorem stays_step (config : NodeId → GossipConfig) (h : s.Bounded) (hlawful : s.Lawful e)
    (hnew : ∀ loaded now, e ≠ .construct i loaded now)
    (hseed : ∀ packet clock, e = .receive i packet clock →
      ∀ m, s.member i = some m → m.phase ≠ .starting) (hr : s.recordAt i id = some r) :
    ∃ r', (s.step config e).recordAt i id = some r' ∧ r.stamp ≤ r'.stamp := by
  by_cases hid : id = i
  · subst hid
    exact own_step config h.standing hlawful hr
  · rcases step_cases config s e with hsame | ⟨m', packets, hset, hact⟩
    · rw [hsame]
      exact ⟨r, hr, le_rfl⟩
    · by_cases hi : i = e.at
      · subst hi
        obtain ⟨m, hm, hrises⟩ := rises_of_stay hact hnew hseed
        rw [recordAt_eq hm] at hr
        obtain ⟨entry, hentry, rfl⟩ := Option.map_eq_some_iff.mp hr
        obtain ⟨entry', hentry', hversion⟩ :=
          hrises id entry (by rw [(h.standing e.at m hm).1]; exact hid) hentry
        refine ⟨entry'.record, ?_, stamp_le_of_version_le hversion⟩
        rw [hset, recordAt_eq (member_set_self _ _ _ _), hentry']
        rfl
      · refine ⟨r, ?_, le_rfl⟩
        unfold recordAt
        rw [member_step_of_ne hi]
        exact hr

/-- A packet has all that its sender knows. -/
theorem view_of_act {p : Packet} (hact : Act config s e m' packets) (hp : packets = [p]) :
    p.view = m'.membership.getMemberView ∧ (∀ i loaded now, e ≠ .construct i loaded now) ∧
      ∀ i packet clock, e ≠ .receive i packet clock := by
  cases hact with
  | contactSeed i seed m hm hphase =>
      cases hp
      exact ⟨rfl, by simp, by simp⟩
  | round i draw peer m hm hphase hpeer =>
      cases hp
      exact ⟨rfl, by simp, by simp⟩
  | serve i source peer view clock m hm hphase hsent =>
      cases hp
      refine ⟨?_, by simp, by simp⟩
      unfold GossipMembership.getMemberView GossipMembership.mergeView
      rw [GossipMembership.memberTable_settle]
      rfl
  | _ => cases hp

/-- Whoever takes a message in knows what is in it. -/
theorem taken_step (h : s.Bounded) (hlawful : s.Lawful e)
    (hm' : (s.step config e).member i = some m') {p : Packet} (hp : p ∈ s.sent)
    {t : MemberTable}
    (hversions : m'.membership.memberTable.versions = Join.raiseAll t.versions (heard i p.view))
    (hr : r ∈ p.view) :
    ∃ r', (s.step config e).recordAt i r.nodeId = some r' ∧ r.stamp ≤ r'.stamp := by
  by_cases hid : r.nodeId = i
  · obtain ⟨o, ho, hle⟩ := h.bound r (Or.inr ⟨p, hp, hr⟩)
    obtain ⟨o', ho', hrise⟩ := own_step config h.standing hlawful ho
    rw [hid] at ho' ⊢
    exact ⟨o', ho', hle.trans hrise⟩
  · have hheard : (r.nodeId, r.version) ∈ heard i p.view := mem_heard.mpr ⟨hid, r, hr, rfl, rfl⟩
    have hle : (r.version : WithBot Version) ≤ m'.membership.memberTable.versions r.nodeId := by
      rw [hversions, Join.raiseAll_apply]
      exact (Join.le_best hheard).trans le_sup_right
    rw [recordAt_eq hm']
    cases hfind : m'.membership.memberTable.find r.nodeId with
    | none =>
        rw [versions_of_not_find hfind] at hle
        exact absurd hle (by simp)
    | some entry =>
        rw [versions_of_find hfind] at hle
        exact ⟨entry.record, rfl, stamp_le_of_version_le (WithBot.coe_le_coe.mp hle)⟩

theorem sent_step (config : NodeId → GossipConfig) (s : Network) (e : GossipEvent) {p : Packet}
    (hp : p ∈ s.sent) : p ∈ (s.step config e).sent := by
  rcases step_cases config s e with hsame | ⟨m', packets, hset, -⟩
  · rw [hsame]
    exact hp
  · rw [hset]
    exact mem_sent_set.mpr (Or.inl hp)

/-- **What a hop brings is no older.** -/
theorem hop_step (config : NodeId → GossipConfig) (h : s.Bounded) (hlawful : s.Lawful e)
    {x y : Place} {v : Lex (Nat × Nat)} (hhop : Hop config s e x y) (hv : s.Holds id x v) :
    ∃ v', v ≤ v' ∧ (s.step config e).Holds id y v' := by
  cases hhop with
  | stays e i hnew hseed =>
      obtain ⟨r, hr, rfl⟩ := hv
      obtain ⟨r', hr', hle⟩ := stays_step config h hlawful hnew hseed hr
      exact ⟨_, hle, r', hr', rfl⟩
  | waits e p => exact ⟨v, le_rfl, sent_step config s e hv.1, hv.2⟩
  | sends e p hsent =>
      obtain ⟨r, hr, rfl⟩ := hv
      rcases step_cases config s e with hsame | ⟨m', packets, hset, hact⟩
      · rw [hsame] at hsent
        exact absurd (congrArg List.length hsent) (by simp)
      · have hpackets : packets = [p] := by
          rw [hset] at hsent
          exact List.append_cancel_left hsent
        obtain ⟨hview, hnew, hreceive⟩ := view_of_act hact hpackets
        obtain ⟨r', hr', hle⟩ := stays_step config h hlawful (fun _ _ => hnew _ _ _)
          (fun _ _ he => absurd he (hreceive _ _ _)) hr
        refine ⟨_, hle, ?_, r', ?_, (mentions_of_recordAt hr').2, rfl⟩
        · rw [hsent]
          exact List.mem_append_right _ List.mem_cons_self
        · rw [hset, recordAt_eq (member_set_self _ _ _ _)] at hr'
          obtain ⟨entry, hentry, rfl⟩ := Option.map_eq_some_iff.mp hr'
          rw [hview]
          exact mem_view.mpr ⟨entry, by
            rw [m'.membership.memberTable.filed id entry hentry]
            exact hentry, rfl⟩
  | serves i source view clock m hm hphase =>
      obtain ⟨hp, r, hr, rfl, rfl⟩ := hv
      have hstep : s.step config (.serve i (.request source (config i).endpoint view) clock) =
          s.serve i m source view clock := by
        rw [step_of_member (e := .serve i _ clock) hm]
        exact if_pos ⟨hphase, rfl, hp⟩
      have hversions := versions_mergeView clock view m.membership
      rw [(h.standing i m hm).1] at hversions
      obtain ⟨r', hr', hle⟩ := taken_step h hlawful
        (by rw [hstep]; exact member_set_self _ _ _ _) hp hversions hr
      exact ⟨_, hle, r', hr', rfl⟩
  | receives i view clock m hm hphase =>
      obtain ⟨hp, r, hr, rfl, rfl⟩ := hv
      have hstep : s.step config (.receive i (.response i view) clock) =
          s.set i { m with membership := m.membership.mergeResponse clock view } [] := by
        rw [step_of_member (e := .receive i _ clock) hm]
        refine (if_pos ⟨rfl, hp⟩).trans ?_
        unfold Network.receive
        rcases hphase with hphase | hphase
        · rw [hphase]
        · rw [hphase]
      have hversions := versions_mergeResponse clock view m.membership
      rw [(h.standing i m hm).1] at hversions
      obtain ⟨r', hr', hle⟩ := taken_step h hlawful
        (by rw [hstep]; exact member_set_self _ _ _ _) hp hversions hr
      exact ⟨_, hle, r', hr', rfl⟩

/-! ### Chains of messages -/

/-- **News travels with the messages.**  In every run from whose beginning a chain of messages
leads from server `i` to server `j`, `j` knows in the end of every server at least what `i` did
at first; and if `i` has had nothing new to say of itself meanwhile, `j` knows exactly how far
it has come. -/
theorem news_travels (config : NodeId → GossipConfig) (pre es : List GossipEvent)
    (hpre : Along (step config) Lawful empty pre)
    (hes : Along (step config) Lawful (run (step config) empty pre) es) (i j : NodeId)
    (hpath : Path (step config) (Hop config) (run (step config) empty pre) es
      (.server i) (.server j)) :
    (∀ id r, (run (step config) empty pre).recordAt i id = some r →
      ∃ r', (run (step config) empty (pre ++ es)).recordAt j id = some r' ∧
        r.stamp ≤ r'.stamp) ∧
    ∀ o, (run (step config) empty pre).own i = some o →
      Along (step config) (Silent i i) (run (step config) empty pre) es →
      ∃ r', (run (step config) empty (pre ++ es)).recordAt j i = some r' ∧ r'.stamp = o.stamp := by
  have hbounded := bounded_of_run hpre
  rw [run_append]
  generalize run (step config) empty pre = s at *
  have hbrings : ∀ id r, s.recordAt i id = some r →
      ∃ r', (run (step config) s es).recordAt j id = some r' ∧ r.stamp ≤ r'.stamp := by
    intro id r hr
    obtain ⟨v, hle, r', hr', rfl⟩ := hpath.brings (H := fun s x v => Holds id s x v)
      (fun _ _ h he => h.step he) (fun _ _ _ _ _ h he hhop hv => hop_step config h he hhop hv)
      hbounded hes ⟨r, hr, rfl⟩
    exact ⟨r', hr', hle⟩
  refine ⟨hbrings, fun o ho hsilent => ?_⟩
  obtain ⟨r', hr', hle⟩ := hbrings i o ho
  have hbeneath : s.Beneath i o := by
    refine ⟨ho, fun r hr hid => ?_⟩
    obtain ⟨o', ho', hle⟩ := hbounded.bound r hr
    rw [hid, ho] at ho'
    rw [Option.some.inj ho']
    exact hle
  have hend := hsilent.invariant (I := fun s : Network => s.Standing ∧ s.Beneath i o)
    ⟨hbounded.standing, hbeneath⟩ fun s e h he => ⟨h.1.step, h.2.step h.1 he⟩
  obtain ⟨hmentions, hid⟩ := mentions_of_recordAt hr'
  exact ⟨r', hr', le_antisymm (hend.2.bound r' hmentions hid) hle⟩

/-- Server 1 has asked server 0, and does not wait for the answer. -/
def asked0 : List GossipEvent :=
  [.construct 0 0 0, .start 0, .construct 1 0 0, .start 1, .contactSeed 1 (str "a"), .startLoop 1]

/-- Server 0 answers. -/
def answered1 : List GossipEvent :=
  [.serve 0 (.request 1 (str "a") [newcomer 1 1]) fun _ => 0,
   .receive 1 (.response 1 [newcomer 1 1, newcomer 0 1]) fun _ => 0]

theorem news_travels_answer : ∃ r',
    (run (step threeServers) empty (asked0 ++ answered1)).recordAt 1 0 = some r' ∧
      r'.stamp = (newcomer 0 1).stamp := by
  refine (news_travels threeServers asked0 answered1 ?_ ⟨trivial, trivial, trivial⟩ 0 1 ?_).2
    (newcomer 0 1) (by rfl) ⟨trivial, trivial, trivial⟩
  · refine ⟨?_, trivial, ?_, trivial, trivial, trivial, trivial⟩
    · intro o ho
      cases ho
    · intro o ho
      cases ho
  · refine .cons (.sends _ (.response 1 [newcomer 1 1, newcomer 0 1]) (by rfl))
      (.cons ?_ (.nil _ _))
    exact .receives 1 _ _ _ rfl (Or.inl rfl)

end Network

end DistKV
