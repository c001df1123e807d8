/-
A split is permanent.

Gossip goes to members that are taken to be alive, and to seeds while a server starts.  Once
the servers of each side take all the others to be suspect or dead, and no message from before
arrives any more that was sent across or that still calls a server of another side alive,
nothing is sent across again, although every message gets through: only a server that starts
and has a seed on the other side heals the split.
-/
import DistKV.Proofs.Identity

namespace DistKV

open GossipMembership MemberTable Machine

namespace GossipMembership

/-- A peer is somebody who is alive. -/
theorem mem_of_pickRandomPeer {g : GossipMembership} {draw : Nat} {peer : Endpoint}
    (h : g.pickRandomPeer draw = some peer) :
    ∃ r ∈ g.getMemberView, r.status = .alive ∧ r.endpoint = peer := by
  unfold pickRandomPeer at h
  dsimp only at h
  split at h
  · cases h
  · rw [List.getElem?_map, Option.map_eq_some_iff] at h
    rcases h with ⟨entry, hentry, rfl⟩
    have hmem := List.mem_of_getElem? hentry
    unfold alive at hmem
    simp only [List.mem_filter, List.mem_map, decide_eq_true_eq] at hmem
    obtain ⟨⟨⟨pair, hpair, rfl⟩, halive⟩, -⟩ := hmem
    exact ⟨pair.2.record, List.mem_map_of_mem hpair, halive, rfl⟩

end GossipMembership

/-- What is said to be alive is on the side of server `i`. -/
def SameSide {ρ : Type} (side : NodeId → ρ) (i : NodeId) (view : List MemberRecord) : Prop :=
  ∀ r ∈ view, r.status = .alive → side r.nodeId = side i

/-- A message that stays on the side of the server that it is from, or is for, and calls no
server of another side alive. -/
def Packet.Inside {ρ : Type} (config : NodeId → GossipConfig) (side : NodeId → ρ) :
    Packet → Prop
  | .request source peer view =>
      (∀ j, (config j).endpoint = peer → side j = side source) ∧ SameSide side source view
  | .response dest view => SameSide side dest view

namespace Network

variable {ρ : Type} {config : NodeId → GossipConfig} {side : NodeId → ρ} {s : Network}
  {e : GossipEvent} {m m' : Member} {packets : List Packet} {old : List Packet} {i : NodeId}

/-- No server takes one of another side to be alive, and only `old` messages cross. -/
structure Split (config : NodeId → GossipConfig) (side : NodeId → ρ) (old : List Packet)
    (s : Network) : Prop where
  table : ∀ i m, s.member i = some m → m.phase ≠ .down →
    SameSide side i m.membership.getMemberView
  sent : ∀ packet ∈ s.sent, packet ∈ old ∨ packet.Inside config side

/-- No server that starts contacts a seed of another side, and no `old` message arrives that
crosses, or that calls a server of another side alive. -/
def Within (config : NodeId → GossipConfig) (side : NodeId → ρ) (old : List Packet)
    (s : Network) : GossipEvent → Prop
  | .contactSeed i seed => (∃ m, s.member i = some m ∧ m.phase = .starting) →
      ∀ j, (config j).endpoint = seed → side j = side i
  | .serve _ packet _ => packet ∈ old → packet.Inside config side
  | .receive _ packet _ => packet ∈ old → packet.Inside config side
  | _ => True

/-- No endpoint is one of two sides. -/
def EndpointsApart (config : NodeId → GossipConfig) (side : NodeId → ρ) : Prop :=
  ∀ i j, (config i).endpoint = (config j).endpoint → side i = side j

/-- A message that arrives is inside. -/
theorem Split.inside (h : s.Split config side old) {packet : Packet} (hsent : packet ∈ s.sent)
    (hold : packet ∈ old → packet.Inside config side) : packet.Inside config side :=
  (h.sent packet hsent).elim hold fun hinside => hinside

/-- What is alive in the table of a server once it has merged a view was alive in the table, or in
the view. -/
theorem sameSide_of_merge (hview : SameSide side i m.membership.getMemberView)
    {view : List MemberRecord} (hincoming : SameSide side i view)
    (h : ∀ id entry, m'.membership.memberTable.find id = some entry →
      m.membership.memberTable.find id = some entry ∨
        ∃ r ∈ view, r.nodeId = id ∧ r.status = entry.record.status) :
    SameSide side i m'.membership.getMemberView := by
  intro r hr halive
  rcases mem_view.mp hr with ⟨entry, hentry, rfl⟩
  rcases h _ entry hentry with hold | ⟨r, hr, hid, hstatus⟩
  · exact hview _ (mem_view.mpr ⟨entry, hold, rfl⟩) halive
  · rw [← hid]
    exact hincoming r hr (hstatus.trans halive)

/-- A server that changes its own entry, and puts others down. -/
theorem sameSide_of_own (others : MemberEntry → MemberEntry)
    (hview : SameSide side i m.membership.getMemberView)
    (hothers : ∀ entry, (others entry).record.nodeId = entry.record.nodeId ∧
      ((others entry).record.status = .alive → entry.record.status = .alive))
    (hfind : ∀ id entry, m'.membership.memberTable.find id = some entry → id = i ∨
      ∃ entry₀, m.membership.memberTable.find id = some entry₀ ∧ others entry₀ = entry) :
    SameSide side i m'.membership.getMemberView := by
  intro r hr halive
  rcases mem_view.mp hr with ⟨entry, hentry, rfl⟩
  rcases hfind _ entry hentry with hself | ⟨entry₀, hentry₀, rfl⟩
  · rw [hself]
  · rw [(hothers entry₀).1] at hentry₀ ⊢
    exact hview _ (mem_view.mpr ⟨entry₀, hentry₀, rfl⟩) ((hothers entry₀).2 halive)

theorem status_of_version {a b : MemberRecord} (h : a.version = b.version) :
    a.status = b.status := (stamp_eq_of_version h).2

/-- A request is served at the endpoint that it is for. -/
def Arrives (config : NodeId → GossipConfig) : GossipEvent → Prop
  | .serve i (.request _ peer _) _ => peer = (config i).endpoint
  | _ => True

theorem step_of_not_arrives (h : ¬ Arrives config e) : s.step config e = s := by
  cases e with
  | serve i packet clock =>
      cases packet with
      | request source peer view =>
          cases hm : s.member i with
          | none =>
              unfold step
              simp only [GossipEvent.at, hm]
          | some m =>
              rw [step_of_member (e := .serve i _ clock) hm]
              exact if_neg fun hguard => h hguard.2.1
      | response dest view => exact absurd trivial h
  | _ => exact absurd trivial h

/-- Whoever serves a request is on the side of the server that it is from. -/
theorem Split.served (h : s.Split config side old) {source : NodeId} {peer : Endpoint}
    {view : List MemberRecord} {clock : Nat → UInt64}
    (he : s.Within config side old (.serve i (.request source peer view) clock))
    (harrives : peer = (config i).endpoint) (hsent : .request source peer view ∈ s.sent) :
    side i = side source ∧ SameSide side source view := by
  obtain ⟨hpeer, hview⟩ := h.inside hsent he
  exact ⟨hpeer i harrives.symm, hview⟩

/-- What a server has in its table after an event. -/
theorem Split.table_of_act (h : s.Split config side old) (hs : s.Standing)
    (he : s.Within config side old e) (harrives : Arrives config e)
    (hact : Act config s e m' packets) (hup : m'.phase ≠ .down) :
    SameSide side e.at m'.membership.getMemberView := by
  cases hact with
  | construct i loaded now hdown =>
      intro r hr _
      rcases mem_view.mp hr with ⟨entry, hentry, rfl⟩
      have hfind := (find_construct i (config i) loaded now _).symm.trans hentry
      by_cases hi : entry.record.nodeId = i
      · rw [hi]
        rfl
      · rw [if_neg hi] at hfind
        cases hfind
  | start i m hm hphase => exact h.table i m hm (by rw [hphase]; simp)
  | contactSeed i seed m hm hphase => exact h.table i _ hm hup
  | startLoop i m hm hphase => exact h.table i m hm (by rw [hphase]; simp)
  | beat i now now' m hm hphase =>
      rcases hs i m hm with ⟨hi, own, hown⟩
      refine sameSide_of_own (detect m.membership.config now') (h.table i m hm hup) ?_ ?_
      · intro entry
        refine ⟨nodeId_detect _ _ _, fun halive => ?_⟩
        exact ((status_detect_eq_alive _ _ _).mp halive).1
      · intro id entry hentry
        have hfind := (@find_beat m.membership own now now' (hi.symm ▸ hown) id).symm.trans hentry
        rw [hi] at hfind
        by_cases hself : id = i
        · exact Or.inl hself
        · rw [if_neg hself] at hfind
          exact Or.inr (Option.map_eq_some_iff.mp hfind)
  | round i draw peer m hm hphase hpeer => exact h.table i _ hm hup
  | serve i source peer view clock m hm hphase hsent =>
      obtain ⟨hside, hview⟩ := h.served he harrives hsent
      refine sameSide_of_merge (h.table i m hm hup)
        (fun r hr halive => (hview r hr halive).trans hside.symm) ?_
      intro id entry hentry
      rcases find_mergeView hentry with hold | ⟨-, ⟨k, r, hk, hid, hversion, -⟩, -⟩
      · exact Or.inl hold
      · exact Or.inr ⟨r, List.mem_of_getElem? hk, hid, status_of_version hversion⟩
  | bootstrap i view clock m hm hphase hsent =>
      refine sameSide_of_merge (h.table i m hm hup) (h.inside hsent he) ?_
      intro id entry hentry
      rcases find_bootstrap hentry with hold | ⟨-, hmem⟩
      · exact Or.inl hold
      · exact Or.inr ⟨entry.record, hmem,
          (m.membership.bootstrap clock view).memberTable.filed id entry hentry, rfl⟩
  | receive i view clock m hm hphase hsent =>
      refine sameSide_of_merge (h.table i m hm hup) (h.inside hsent he) ?_
      intro id entry hentry
      rcases find_mergeResponse hentry with hold | ⟨-, ⟨k, r, hk, hid, hversion, -⟩, -⟩
      · exact Or.inl hold
      · exact Or.inr ⟨r, List.mem_of_getElem? hk, hid, status_of_version hversion⟩
  | stop i m hm hphase =>
      rcases hs i m hm with ⟨hi, own, hown⟩
      refine sameSide_of_own id (h.table i m hm hphase) (fun _ => ⟨rfl, id⟩) ?_
      intro id entry hentry
      have hfind := (find_depart (hi.symm ▸ hown) id).symm.trans hentry
      rw [hi] at hfind
      by_cases hself : id = i
      · exact Or.inl hself
      · rw [if_neg hself] at hfind
        exact Or.inr ⟨entry, hfind, rfl⟩
  | crash i m hm => exact absurd rfl hup

/-- What a server sends stays on its side. -/
theorem Split.sent_of_act (h : s.Split config side old) (hapart : EndpointsApart config side)
    (hgenuine : s.AllGenuine config) (he : s.Within config side old e)
    (harrives : Arrives config e) (hact : Act config s e m' packets)
    (hview : m'.phase ≠ .down → SameSide side e.at m'.membership.getMemberView) :
    ∀ packet ∈ packets, packet.Inside config side := by
  intro packet hpacket
  cases hact with
  | contactSeed i seed m hm hphase =>
      rw [List.mem_singleton.mp hpacket]
      exact ⟨he ⟨_, hm, hphase⟩, hview (by rw [hphase]; simp)⟩
  | round i draw peer m hm hphase hpeer =>
      have hup : m'.phase ≠ .down := by
        rcases hphase with hphase | hphase
        · rw [hphase]
          simp
        · rw [hphase]
          simp
      rw [List.mem_singleton.mp hpacket]
      refine ⟨?_, hview hup⟩
      -- the peer is the endpoint of a member that is taken to be alive
      obtain ⟨r, hr, halive, hendpoint⟩ := mem_of_pickRandomPeer hpeer
      intro j hj
      have hr' := (hgenuine r (Or.inl ⟨i, _, hm, hr⟩)).endpoint
      rw [hapart j r.nodeId (by rw [hj, ← hendpoint, hr'])]
      exact hview hup r hr halive
  | serve i source peer view clock m hm hphase hsent =>
      rw [List.mem_singleton.mp hpacket]
      obtain ⟨hside, -⟩ := h.served he harrives hsent
      intro r hr halive
      rw [← hside]
      refine hview hphase r ?_ halive
      unfold getMemberView mergeView
      rw [memberTable_settle]
      exact hr
  | _ => simp at hpacket

/-- **A split stays.** -/
theorem Split.step (h : s.Split config side old) (hapart : EndpointsApart config side)
    (hs : s.Standing) (hgenuine : s.AllGenuine config) (he : s.Within config side old e) :
    (s.step config e).Split config side old := by
  by_cases harrives : Arrives config e
  · rcases step_cases config s e with hsame | ⟨m', packets, hset, hact⟩
    · rw [hsame]
      exact h
    · have hview := fun hup => h.table_of_act hs he harrives hact hup
      rw [hset]
      refine ⟨?_, ?_⟩
      · intro j m hm hup
        by_cases hj : j = e.at
        · rw [hj, member_set_self] at hm
          cases hm
          rw [hj]
          exact hview hup
        · rw [member_set_of_ne hj] at hm
          exact h.table j m hm hup
      · intro packet hpacket
        rcases mem_sent_set.mp hpacket with hbefore | hnew
        · exact h.sent packet hbefore
        · exact Or.inr (h.sent_of_act hapart hgenuine he harrives hact hview packet hnew)
  · rw [step_of_not_arrives harrives]
    exact h

/-- **A split is permanent.**  Once every server that runs takes all those of other sides to be
suspect or dead, it does so for ever, whatever is delivered after that, unless a message from
before arrives that was sent across or calls a server of another side alive, or a server that
starts contacts a seed of another side. -/
theorem split_is_permanent (config : NodeId → GossipConfig) (side : NodeId → ρ)
    (hapart : EndpointsApart config side) (pre es : List GossipEvent)
    (hsplit : ∀ i m, (run (step config) empty pre).member i = some m → m.phase ≠ .down →
      SameSide side i m.membership.getMemberView)
    (hes : Along (step config) (Within config side (run (step config) empty pre).sent)
      (run (step config) empty pre) es) (i : NodeId) (m : Member)
    (hm : (run (step config) empty (pre ++ es)).member i = some m) (hup : m.phase ≠ .down) :
    SameSide side i m.membership.getMemberView := by
  rw [run_append] at hm
  have hend := hes.invariant
    (I := fun s => (s.Standing ∧ s.AllGenuine config) ∧
      s.Split config side (run (step config) empty pre).sent)
    ⟨⟨standing_of_run config pre, genuine_of_run config pre⟩, hsplit, fun _ hp => Or.inl hp⟩
    fun s e h he => ⟨⟨h.1.1.step, h.1.2.step h.1.1⟩, h.2.step hapart h.1.1 h.1.2 he⟩
  exact hend.2.table i m hm hup

/-- What server `i` says about itself, and about the other one, with `n` heartbeats. -/
def about (i : NodeId) (status : NodeStatus) (n : UInt64) : MemberRecord where
  nodeId := i
  endpoint := (twoServers i).endpoint
  status := status
  heartbeatCounter := n
  generation := 1

/-- They get to know each other, and then hear nothing for twenty seconds. -/
def parted : List GossipEvent :=
  [.construct 0 0 0, .start 0, .startLoop 0, .construct 1 0 0, .start 1,
   .contactSeed 1 (str "a"), .serve 0 (.request 1 (str "a") [about 1 .alive 0]) fun _ => 0,
   .receive 1 (.response 1 [about 1 .alive 0, about 0 .alive 0]) fun _ => 0, .startLoop 1,
   .beat 0 20000 20000, .beat 1 20000 20000]

/-- What they do then. -/
def alone : List GossipEvent := [.beat 0 21000 21000, .round 0 0, .beat 1 21000 21000, .round 1 0]

/-- Server 0 is on one side, and all others are on the other one. -/
def isFirst (i : NodeId) : Bool := i = 0

theorem view_of_map (view : List MemberRecord)
    (h : ((run (step twoServers) empty parted).member i).map
      (fun m => m.membership.getMemberView) = some view)
    (hm : (run (step twoServers) empty parted).member i = some m) :
    m.membership.getMemberView = view := by
  rw [hm] at h
  exact Option.some.inj h

/-- Neither server takes the other one to be alive. -/
theorem parted_split : ∀ i m, (run (step twoServers) empty parted).member i = some m →
    m.phase ≠ .down → SameSide isFirst i m.membership.getMemberView := by
  intro i m hm _
  by_cases h0 : i = 0
  · subst h0
    rw [view_of_map [about 0 .alive 1, about 1 .dead 0] (by decide +kernel) hm]
    unfold SameSide
    decide
  · by_cases h1 : i = 1
    · subst h1
      rw [view_of_map [about 1 .alive 1, about 0 .dead 0] (by decide +kernel) hm]
      unfold SameSide
      decide
    · rw [member_run_of_ne] at hm
      · cases hm
      · intro e he
        simp only [parted, List.mem_cons, List.not_mem_nil, or_false] at he
        rcases he with rfl | rfl | rfl | rfl | rfl | rfl | rfl | rfl | rfl | rfl | rfl
        all_goals first
          | exact h0
          | exact h1

theorem split_is_permanent_two : ∃ m,
    (run (step twoServers) empty (parted ++ alone)).member 0 = some m ∧
      SameSide isFirst 0 m.membership.getMemberView := by
  have hphase : ((run (step twoServers) empty (parted ++ alone)).member 0).map Member.phase =
      some .gossiping := by decide +kernel
  obtain ⟨m, hm, hgossiping⟩ := Option.map_eq_some_iff.mp hphase
  refine ⟨m, hm, split_is_permanent twoServers isFirst ?_ parted alone parted_split
    ⟨trivial, trivial, trivial, trivial, trivial⟩ 0 m hm (by rw [hgossiping]; simp)⟩
  intro i j hij
  unfold isFirst
  by_cases hi : i = 0
  · by_cases hj : j = 0
    · rw [hi, hj]
    · simp [twoServers, hi, hj, str] at hij
  · by_cases hj : j = 0
    · simp [twoServers, hi, hj, str] at hij
    · simp [hi, hj]

end Network

end DistKV
