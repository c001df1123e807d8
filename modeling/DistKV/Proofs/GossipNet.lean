/-
What an event does to a cluster of gossiping servers.

An event leaves everything as it is, or it changes one server and sends some packets; `Act`
lists what it can do there.  Every invariant of the cluster is a case analysis of this list.
-/
import DistKV.GossipNet
import DistKV.Proofs.MergeView

namespace DistKV

namespace Network

/-- What an event makes of its server, and what it sends. -/
inductive Act (config : NodeId → GossipConfig) (s : Network) :
    GossipEvent → Member → List Packet → Prop where
  | construct (i : NodeId) (loaded : UInt32) (now : UInt64)
      (hdown : ∀ m, s.member i = some m → m.phase = .down) :
      Act config s (.construct i loaded now)
        { phase := .constructed
          membership :=
            (GossipMembership.construct i (config i) loaded now).setChangeCallback } []
  | start (i : NodeId) (m : Member) (hm : s.member i = some m) (hphase : m.phase = .constructed) :
      Act config s (.start i)
        { phase := .starting, membership := { m.membership with running := true } } []
  | contactSeed (i : NodeId) (seed : Endpoint) (m : Member) (hm : s.member i = some m)
      (hphase : m.phase = .starting) :
      Act config s (.contactSeed i seed) m [.request i seed m.membership.getMemberView]
  | startLoop (i : NodeId) (m : Member) (hm : s.member i = some m) (hphase : m.phase = .starting) :
      Act config s (.startLoop i) { m with phase := .gossiping } []
  | beat (i : NodeId) (now now' : UInt64) (m : Member) (hm : s.member i = some m)
      (hphase : m.phase = .gossiping ∨ m.phase = .stopped) :
      Act config s (.beat i now now') { m with membership := m.membership.beat now now' } []
  | round (i : NodeId) (draw : Nat) (peer : Endpoint) (m : Member) (hm : s.member i = some m)
      (hphase : m.phase = .gossiping ∨ m.phase = .stopped)
      (hpeer : m.membership.pickRandomPeer draw = some peer) :
      Act config s (.round i draw) m [.request i peer m.membership.getMemberView]
  | serve (i source : NodeId) (peer : Endpoint) (view : List MemberRecord)
      (clock : Nat → UInt64) (m : Member) (hm : s.member i = some m) (hphase : m.phase ≠ .down)
      (hsent : Packet.request source peer view ∈ s.sent) :
      Act config s (.serve i (.request source peer view) clock)
        { m with membership := (m.membership.mergeView clock view).2 }
        [.response source (m.membership.mergeView clock view).1]
  | bootstrap (i : NodeId) (view : List MemberRecord) (clock : Nat → UInt64) (m : Member)
      (hm : s.member i = some m) (hphase : m.phase = .starting)
      (hsent : Packet.response i view ∈ s.sent) :
      Act config s (.receive i (.response i view) clock)
        { m with membership := m.membership.bootstrap clock view } []
  | receive (i : NodeId) (view : List MemberRecord) (clock : Nat → UInt64) (m : Member)
      (hm : s.member i = some m) (hphase : m.phase = .gossiping ∨ m.phase = .stopped)
      (hsent : Packet.response i view ∈ s.sent) :
      Act config s (.receive i (.response i view) clock)
        { m with membership := m.membership.mergeResponse clock view } []
  | stop (i : NodeId) (m : Member) (hm : s.member i = some m) (hphase : m.phase ≠ .down) :
      Act config s (.stop i) { phase := .stopped, membership := m.membership.depart } []
  | crash (i : NodeId) (m : Member) (hm : s.member i = some m) :
      Act config s (.crash i) { m with phase := .down } []

variable {config : NodeId → GossipConfig} {s : Network} {e : GossipEvent} {m : Member}

theorem memberStep_cases (hm : s.member e.at = some m) :
    s.memberStep config m e = s ∨
      ∃ m' packets, s.memberStep config m e = s.set e.at m' packets ∧
        Act config s e m' packets := by
  unfold memberStep
  cases e with
  | construct i loaded now =>
      dsimp only
      split
      · rename_i hphase
        refine Or.inr ⟨_, _, rfl, .construct i loaded now ?_⟩
        intro m' hm'
        rw [show s.member i = some m from hm] at hm'
        cases hm'
        exact hphase
      · exact Or.inl rfl
  | start i =>
      dsimp only
      split
      · rename_i hphase
        exact Or.inr ⟨_, _, rfl, .start i m hm hphase⟩
      · exact Or.inl rfl
  | contactSeed i seed =>
      dsimp only
      split
      · rename_i hphase
        exact Or.inr ⟨_, _, rfl, .contactSeed i seed m hm hphase.1⟩
      · exact Or.inl rfl
  | startLoop i =>
      dsimp only
      split
      · rename_i hphase
        exact Or.inr ⟨_, _, rfl, .startLoop i m hm hphase⟩
      · exact Or.inl rfl
  | beat i now now' =>
      dsimp only
      split
      · rename_i hphase
        exact Or.inr ⟨_, _, rfl, .beat i now now' m hm hphase⟩
      · exact Or.inl rfl
  | round i draw =>
      dsimp only
      split
      · rename_i hphase
        split
        · rename_i peer hpeer
          exact Or.inr ⟨_, _, rfl, .round i draw peer m hm hphase hpeer⟩
        · exact Or.inl rfl
      · exact Or.inl rfl
  | serve i packet clock =>
      cases packet with
      | response dest view => exact Or.inl rfl
      | request source peer view =>
          dsimp only
          split
          · rename_i h
            exact Or.inr ⟨_, _, rfl, .serve i source peer view clock m hm h.1 h.2.2⟩
          · exact Or.inl rfl
  | receive i packet clock =>
      cases packet with
      | request source peer view => exact Or.inl rfl
      | response dest view =>
          dsimp only
          split
          · rename_i h
            rcases h with ⟨rfl, hsent⟩
            unfold receive
            cases hphase : m.phase with
            | constructed => exact Or.inl rfl
            | starting =>
                exact Or.inr ⟨_, _, rfl, hphase ▸ .bootstrap dest view clock m hm hphase hsent⟩
            | gossiping =>
                exact Or.inr ⟨_, _, rfl,
                  hphase ▸ .receive dest view clock m hm (Or.inl hphase) hsent⟩
            | stopped =>
                exact Or.inr ⟨_, _, rfl,
                  hphase ▸ .receive dest view clock m hm (Or.inr hphase) hsent⟩
            | down => exact Or.inl rfl
          · exact Or.inl rfl
  | stop i =>
      dsimp only
      split
      · exact Or.inl rfl
      · rename_i hphase
        exact Or.inr ⟨_, _, rfl, .stop i m hm hphase⟩
  | crash i => exact Or.inr ⟨_, _, rfl, .crash i m hm⟩

theorem step_of_member (hm : s.member e.at = some m) :
    s.step config e = s.memberStep config m e := by
  unfold step
  simp only [hm]

/-- **What an event can do.** -/
theorem step_cases (config : NodeId → GossipConfig) (s : Network) (e : GossipEvent) :
    s.step config e = s ∨
      ∃ m packets, s.step config e = s.set e.at m packets ∧ Act config s e m packets := by
  unfold step
  cases hm : s.member e.at with
  | some m => exact memberStep_cases hm
  | none =>
      cases e with
      | construct i loaded now =>
          refine Or.inr ⟨_, _, rfl, .construct i loaded now ?_⟩
          intro m hm'
          rw [show s.member i = none from hm] at hm'
          cases hm'
      | start i => exact Or.inl rfl
      | contactSeed i seed => exact Or.inl rfl
      | startLoop i => exact Or.inl rfl
      | beat i now now' => exact Or.inl rfl
      | round i draw => exact Or.inl rfl
      | serve i packet clock => exact Or.inl rfl
      | receive i packet clock => exact Or.inl rfl
      | stop i => exact Or.inl rfl
      | crash i => exact Or.inl rfl

theorem member_set_self (i : NodeId) (m : Member) (packets : List Packet) (s : Network) :
    (s.set i m packets).member i = some m := Function.update_self i _ _

theorem member_set_of_ne {i j : NodeId} (h : j ≠ i) (m : Member) (packets : List Packet)
    (s : Network) : (s.set i m packets).member j = s.member j := Function.update_of_ne h _ _

theorem member_step_of_ne {i : NodeId} (h : i ≠ e.at) :
    (s.step config e).member i = s.member i := by
  rcases step_cases config s e with hsame | ⟨m, packets, hset, -⟩
  · rw [hsame]
  · rw [hset]
    exact member_set_of_ne h m packets s

theorem mem_sent_set {packet : Packet} {i : NodeId} {packets : List Packet} :
    packet ∈ (s.set i m packets).sent ↔ packet ∈ s.sent ∨ packet ∈ packets := List.mem_append

end Network

end DistKV
