/-
No fabricated liveness.

The generation and the heartbeat of a record are its stamp.  A server raises the stamp of
its own record and copies what it hears of others, and a copy keeps its stamp and never
goes back to alive.  So wherever there is a record about a server, the server has come at
least that far itself, and where the record says alive, so did the server's own record
when it had that stamp.
-/
import DistKV.Proofs.GossipNet
import DistKV.Lib.Run

namespace DistKV

open MemberTable Machine

/-- Generation and heartbeat. -/
def MemberRecord.stamp (r : MemberRecord) : Lex (Nat × Nat) :=
  toLex (r.generation.toNat, r.heartbeatCounter.toNat)

theorem stamp_eq_of_version {a b : MemberRecord} (h : a.version = b.version) :
    a.stamp = b.stamp ∧ a.status = b.status := by
  rcases version_eq_iff.mp h with ⟨hgeneration, hheartbeat, hstatus⟩
  unfold MemberRecord.stamp
  rw [hgeneration, hheartbeat]
  exact ⟨rfl, hstatus⟩

namespace Network

variable {config : NodeId → GossipConfig} {s : Network} {e : GossipEvent} {m m' : Member}
  {packets : List Packet} {r : MemberRecord}

/-- A server that no event is about stays as it is. -/
theorem member_run_of_ne {i : NodeId} {es : List GossipEvent} (h : ∀ e ∈ es, i ≠ e.at) :
    (run (step config) s es).member i = s.member i := by
  induction es generalizing s with
  | nil => rfl
  | cons e es ih =>
      refine (ih fun e' he' => h e' (List.mem_cons_of_mem e he')).trans ?_
      exact member_step_of_ne (h e List.mem_cons_self)

/-- A server's record of itself; the last it had, when its process has ended. -/
def own (s : Network) (i : NodeId) : Option MemberRecord :=
  (s.member i).bind fun m => (m.membership.memberTable.find i).map MemberEntry.record

/-- There is such a record in the table of a server, or in a message. -/
def Mentions (s : Network) (r : MemberRecord) : Prop :=
  (∃ i m, s.member i = some m ∧ r ∈ m.membership.getMemberView) ∨
    ∃ packet ∈ s.sent, r ∈ packet.view

/-- Generations rise when a server starts again, and no heartbeat wraps around. -/
def Lawful (s : Network) : GossipEvent → Prop
  | .construct i loaded _ => ∀ o, s.own i = some o → o.generation < loaded + 1
  | .beat i _ _ => ∀ o, s.own i = some o → o.heartbeatCounter.toNat + 1 < 2 ^ 64
  | .stop i => ∀ o, s.own i = some o → o.heartbeatCounter.toNat + 1 < 2 ^ 64
  | _ => True

/-- Every server has an entry of its own. -/
def Standing (s : Network) : Prop :=
  ∀ i m, s.member i = some m → m.membership.selfNodeId = i ∧
    ∃ entry, m.membership.memberTable.find i = some entry

theorem own_eq (hm : s.member i = some m) :
    s.own i = (m.membership.memberTable.find i).map MemberEntry.record := by
  unfold own
  rw [hm]
  rfl

/-- Where a record comes from that is there after an event: from one that was there
before and no more severe, or it is what the server now says about itself. -/
def Traced (s s' : Network) (r : MemberRecord) : Prop :=
  (∃ r₀, s.Mentions r₀ ∧ r₀.nodeId = r.nodeId ∧ r₀.stamp = r.stamp ∧
    r₀.status.toNat ≤ r.status.toNat) ∨ s'.own r.nodeId = some r

/-- What is no more severe than alive is alive. -/
theorem alive_of_le {a b : NodeStatus} (h : a.toNat ≤ b.toNat) (hb : b = .alive) :
    a = .alive := by
  rw [hb] at h
  rcases a with _ | _ | _
  · rfl
  · exact absurd h (by decide)
  · exact absurd h (by decide)

theorem Traced.of_mentions {s' : Network} (h : s.Mentions r) : Traced s s' r :=
  Or.inl ⟨r, h, rfl, rfl, le_rfl⟩

theorem mentions_of_find {id : NodeId} {entry : MemberEntry} (hm : s.member i = some m)
    (hfind : m.membership.memberTable.find id = some entry) : s.Mentions entry.record := by
  refine Or.inl ⟨i, m, hm, mem_view.mpr ⟨entry, ?_, rfl⟩⟩
  rw [m.membership.memberTable.filed id entry hfind]
  exact hfind

/-- What the server of an event may become. -/
structure Follows (s : Network) (e : GossipEvent) (i : NodeId) (m' : Member)
    (packets : List Packet) : Prop where
  self : m'.membership.selfNodeId = i
  /-- It still has an entry of its own, and in a lawful event the stamp of that does not
  fall. -/
  rising : ∃ entry, m'.membership.memberTable.find i = some entry ∧
    (s.Lawful e → ∀ o, s.own i = some o → o.stamp ≤ entry.record.stamp)
  traced : ∀ id entry, m'.membership.memberTable.find id = some entry →
    Traced s (s.set i m' packets) entry.record

/-- A server whose table stays what it is. -/
theorem follows_of_same (hs : s.Standing) (hm : s.member i = some m)
    (hself : m'.membership.selfNodeId = m.membership.selfNodeId)
    (htable : m'.membership.memberTable = m.membership.memberTable) :
    s.Follows e i m' packets := by
  rcases hs i m hm with ⟨hi, entry, hentry⟩
  refine ⟨hself.trans hi, ⟨entry, htable ▸ hentry, ?_⟩, ?_⟩
  · intro _ o ho
    rw [own_eq hm, hentry] at ho
    cases ho
    exact le_rfl
  · intro id entry' hfind
    rw [htable] at hfind
    exact .of_mentions (mentions_of_find hm hfind)

/-- A server that takes in the records of a message. -/
theorem follows_of_merge (hs : s.Standing) (hm : s.member i = some m)
    (hself : m'.membership.selfNodeId = m.membership.selfNodeId) {packet : Packet}
    (hsent : packet ∈ s.sent)
    (hown : m'.membership.memberTable.find m.membership.selfNodeId =
      m.membership.memberTable.find m.membership.selfNodeId)
    (hfind : ∀ id entry, m'.membership.memberTable.find id = some entry →
      m.membership.memberTable.find id = some entry ∨
        ∃ r ∈ packet.view, r.nodeId = id ∧ r.version = entry.record.version) :
    s.Follows e i m' packets := by
  rcases hs i m hm with ⟨hi, entry, hentry⟩
  rw [hi] at hown
  refine ⟨hself.trans hi, ⟨entry, hown.trans hentry, ?_⟩, ?_⟩
  · intro _ o ho
    rw [own_eq hm, hentry] at ho
    cases ho
    exact le_rfl
  · intro id entry' hentry'
    rcases hfind id entry' hentry' with hold | ⟨r, hr, hid, hversion⟩
    · exact .of_mentions (mentions_of_find hm hold)
    · rcases stamp_eq_of_version hversion with ⟨hstamp, hstatus⟩
      refine Or.inl ⟨r, Or.inr ⟨packet, hsent, hr⟩, ?_, hstamp, by rw [hstatus]⟩
      rw [m'.membership.memberTable.filed id entry' hentry']
      exact hid

/-- A server that changes its own record, and puts others down. -/
theorem follows_of_own (hs : s.Standing) (hm : s.member i = some m)
    (hself : m'.membership.selfNodeId = m.membership.selfNodeId) {own : MemberEntry → MemberEntry}
    (hid : ∀ entry, (own entry).record.nodeId = entry.record.nodeId)
    (hraise : s.Lawful e → ∀ entry, m.membership.memberTable.find i = some entry →
      entry.record.stamp ≤ (own entry).record.stamp)
    {others : MemberEntry → MemberEntry}
    (hothers : ∀ entry, others entry = entry ∨
      ∃ status, entry.record.status.toNat < status.toNat ∧
      others entry = { entry with record := { entry.record with status := status } })
    (hfind : ∀ entry, m.membership.memberTable.find i = some entry → ∀ id,
      m'.membership.memberTable.find id = if id = i then some (own entry)
        else (m.membership.memberTable.find id).map others) :
    s.Follows e i m' packets := by
  rcases hs i m hm with ⟨hi, entry, hentry⟩
  have hown : m'.membership.memberTable.find i = some (own entry) := by
    rw [hfind entry hentry, if_pos rfl]
  refine ⟨hself.trans hi, ⟨own entry, hown, ?_⟩, ?_⟩
  · intro hlawful o ho
    rw [own_eq hm, hentry] at ho
    cases ho
    exact hraise hlawful entry hentry
  · intro id entry' hentry'
    rw [hfind entry hentry] at hentry'
    by_cases hi' : id = i
    · rw [if_pos hi'] at hentry'
      cases hentry'
      have hnode : (own entry).record.nodeId = i :=
        (hid entry).trans (m.membership.memberTable.filed i entry hentry)
      refine Or.inr ?_
      rw [hnode, own_eq (member_set_self i m' packets s), hown]
      rfl
    · rw [if_neg hi'] at hentry'
      rcases Option.map_eq_some_iff.mp hentry' with ⟨entry₀, hentry₀, rfl⟩
      have hmentions := mentions_of_find hm hentry₀
      rcases hothers entry₀ with hsame | ⟨status, hstatus, hdown⟩
      · rw [hsame]
        exact .of_mentions hmentions
      · rw [hdown]
        exact Or.inl ⟨entry₀.record, hmentions, rfl, rfl, hstatus.le⟩

theorem stamp_heartbeat {r : MemberRecord} (h : r.heartbeatCounter.toNat + 1 < 2 ^ 64)
    (status : NodeStatus) :
    r.stamp ≤ { r with
      status := status
      heartbeatCounter := r.heartbeatCounter + 1 : MemberRecord }.stamp := by
  unfold MemberRecord.stamp
  rw [Prod.Lex.toLex_le_toLex]
  refine Or.inr ⟨rfl, ?_⟩
  have hone : (1 : UInt64).toNat = 1 := rfl
  show r.heartbeatCounter.toNat ≤ (r.heartbeatCounter + 1).toNat
  rw [UInt64.toNat_add, hone, Nat.mod_eq_of_lt h]
  omega

theorem own_of_find (hm : s.member i = some m) {entry : MemberEntry}
    (hfind : m.membership.memberTable.find i = some entry) : s.own i = some entry.record := by
  rw [own_eq hm, hfind]
  rfl

theorem follows_of_act (hs : s.Standing) (hact : Act config s e m' packets) :
    s.Follows e e.at m' packets := by
  cases hact with
  | construct i loaded now hdown =>
      have hfind := GossipMembership.find_construct i (config i) loaded now
      refine ⟨rfl, ⟨_, (hfind i).trans (if_pos rfl), ?_⟩, ?_⟩
      · intro hlawful o ho
        have hlt := hlawful o ho
        unfold MemberRecord.stamp
        rw [Prod.Lex.toLex_le_toLex]
        exact Or.inl (UInt32.lt_iff_toNat_lt.mp hlt)
      · intro id entry hentry
        have hentry' := (hfind id).symm.trans hentry
        by_cases hid : id = i
        · rw [if_pos hid] at hentry'
          cases hentry'
          refine Or.inr ?_
          exact own_of_find (member_set_self _ _ _ _) ((hfind i).trans (if_pos rfl))
        · rw [if_neg hid] at hentry'
          cases hentry'
  | start i m hm hphase => exact follows_of_same hs hm rfl rfl
  | contactSeed i seed m hm hphase => exact follows_of_same hs hm rfl rfl
  | startLoop i m hm hphase => exact follows_of_same hs hm rfl rfl
  | beat i now now' m hm hphase =>
      rcases hs i m hm with ⟨hi, -⟩
      refine @follows_of_own _ _ _ _ _ _ hs hm (GossipMembership.selfNodeId_beat _ _ _)
        (GossipMembership.beaten now) (fun _ => rfl) ?_ _
        (GossipMembership.detect_cases m.membership.config now') ?_
      · intro hlawful entry hentry
        exact stamp_heartbeat (hlawful _ (own_of_find hm hentry)) entry.record.status
      · intro entry hentry id
        rw [← hi] at hentry ⊢
        exact GossipMembership.find_beat hentry id
  | round i draw peer m hm hphase hpeer => exact follows_of_same hs hm rfl rfl
  | serve i source peer view clock m hm hphase hsent =>
      refine follows_of_merge hs hm (GossipMembership.selfNodeId_mergeView _ _ _) hsent
        GossipMembership.find_mergeView_self ?_
      intro id entry hentry
      rcases GossipMembership.find_mergeView hentry with hold | ⟨-, ⟨k, r, hk, hid, hversion, -⟩, -⟩
      · exact Or.inl hold
      · exact Or.inr ⟨r, List.mem_of_getElem? hk, hid, hversion⟩
  | bootstrap i view clock m hm hphase hsent =>
      refine follows_of_merge hs hm rfl hsent (GossipMembership.find_bootstrap_self _ _ _) ?_
      intro id entry hentry
      rcases GossipMembership.find_bootstrap hentry with hold | ⟨-, hmem⟩
      · exact Or.inl hold
      · exact Or.inr ⟨entry.record, hmem,
          (m.membership.bootstrap clock view).memberTable.filed id entry hentry, rfl⟩
  | receive i view clock m hm hphase hsent =>
      refine follows_of_merge hs hm (GossipMembership.selfNodeId_settle _ _) hsent
        GossipMembership.find_mergeResponse_self ?_
      intro id entry hentry
      rcases GossipMembership.find_mergeResponse hentry with
        hold | ⟨-, ⟨k, r, hk, hid, hversion, -⟩, -⟩
      · exact Or.inl hold
      · exact Or.inr ⟨r, List.mem_of_getElem? hk, hid, hversion⟩
  | stop i m hm hphase =>
      rcases hs i m hm with ⟨hi, -⟩
      refine @follows_of_own _ _ _ _ _ _ hs hm (GossipMembership.selfNodeId_depart _)
        GossipMembership.departed (fun _ => rfl) ?_ id (fun _ => Or.inl rfl) ?_
      · intro hlawful entry hentry
        exact stamp_heartbeat (hlawful _ (own_of_find hm hentry)) .dead
      · intro entry hentry id
        rw [← hi] at hentry ⊢
        rw [Option.map_id]
        exact GossipMembership.find_depart hentry id
  | crash i m hm => exact follows_of_same hs hm rfl rfl

/-- A server sends what is in its table. -/
theorem sent_of_act (hact : Act config s e m' packets) :
    ∀ packet ∈ packets, ∀ r ∈ packet.view, r ∈ m'.membership.getMemberView := by
  intro packet hpacket r hr
  cases hact with
  | contactSeed i seed m hm hphase =>
      rw [List.mem_singleton.mp hpacket] at hr
      exact hr
  | round i draw peer m hm hphase hpeer =>
      rw [List.mem_singleton.mp hpacket] at hr
      exact hr
  | serve i source peer view clock m hm hphase hsent =>
      rw [List.mem_singleton.mp hpacket] at hr
      unfold GossipMembership.getMemberView GossipMembership.mergeView
      rw [GossipMembership.memberTable_settle]
      exact hr
  | _ => simp at hpacket

/-! ### Runs -/

theorem Standing.step (hs : s.Standing) : (s.step config e).Standing := by
  rcases step_cases config s e with hsame | ⟨m', packets, hset, hact⟩
  · rw [hsame]
    exact hs
  · have hfollows := follows_of_act hs hact
    rw [hset]
    intro j m hm
    by_cases hj : j = e.at
    · rw [hj, member_set_self] at hm
      cases hm
      rcases hfollows.rising with ⟨entry, hentry, -⟩
      rw [hj]
      exact ⟨hfollows.self, entry, hentry⟩
    · rw [member_set_of_ne hj] at hm
      exact hs j m hm

theorem Standing.run (hs : s.Standing) (es : List GossipEvent) :
    (Machine.run (Network.step config) s es).Standing :=
  run_keeps (fun _ _ h => h.step) hs es

/-- No server falls behind itself. -/
theorem own_step (config : NodeId → GossipConfig) (hs : s.Standing) (hlawful : s.Lawful e)
    {o : MemberRecord} (ho : s.own i = some o) :
    ∃ o', (s.step config e).own i = some o' ∧ o.stamp ≤ o'.stamp := by
  rcases step_cases config s e with hsame | ⟨m', packets, hset, hact⟩
  · rw [hsame]
    exact ⟨o, ho, le_rfl⟩
  · rw [hset]
    by_cases hi : i = e.at
    · rcases (follows_of_act hs hact).rising with ⟨entry, hentry, hle⟩
      rw [hi] at ho ⊢
      exact ⟨entry.record, own_of_find (member_set_self _ _ _ _) hentry, hle hlawful o ho⟩
    · refine ⟨o, ?_, le_rfl⟩
      unfold own
      rw [member_set_of_ne hi]
      exact ho

/-- Every record there is after an event is accounted for. -/
theorem traced_step (hs : s.Standing) (hr : (s.step config e).Mentions r) :
    Traced s (s.step config e) r := by
  rcases step_cases config s e with hsame | ⟨m', packets, hset, hact⟩
  · rw [hsame] at hr
    exact .of_mentions hr
  · have hfollows := follows_of_act hs hact
    have hview : ∀ r ∈ m'.membership.getMemberView, Traced s (s.set e.at m' packets) r := by
      intro r hr
      rcases mem_view.mp hr with ⟨entry, hentry, rfl⟩
      exact hfollows.traced _ entry hentry
    rw [hset] at hr ⊢
    rcases hr with ⟨j, m, hm, hmem⟩ | ⟨packet, hpacket, hmem⟩
    · by_cases hj : j = e.at
      · rw [hj, member_set_self] at hm
        cases hm
        exact hview r hmem
      · rw [member_set_of_ne hj] at hm
        exact .of_mentions (Or.inl ⟨j, m, hm, hmem⟩)
    · rcases mem_sent_set.mp hpacket with hold | hnew
      · exact .of_mentions (Or.inr ⟨packet, hold, hmem⟩)
      · exact hview r (sent_of_act hact packet hnew r hmem)

/-- The server that a record is about has come as far as the record says after the events
`es`, and it was alive there if the record says so. -/
def Honest (config : NodeId → GossipConfig) (es : List GossipEvent) (r : MemberRecord) : Prop :=
  ∃ o, (run (step config) empty es).own r.nodeId = some o ∧ r.stamp ≤ o.stamp ∧
    (r.status = .alive → ∃ pre, pre <+: es ∧
      ∃ o', (run (step config) empty pre).own r.nodeId = some o' ∧ o'.status = .alive ∧
        o'.stamp = r.stamp)

/-- An honest record stays honest, and so is a copy that says no more. -/
theorem Honest.keep {es : List GossipEvent} {r₀ : MemberRecord} (h : Honest config es r₀)
    (hs : (run (step config) empty es).Standing)
    (hlawful : (run (step config) empty es).Lawful e) (hid : r₀.nodeId = r.nodeId)
    (hstamp : r₀.stamp = r.stamp) (halive : r.status = .alive → r₀.status = .alive) :
    Honest config (es ++ [e]) r := by
  rcases h with ⟨o, ho, hle, hpast⟩
  rcases own_step config hs hlawful ho with ⟨o', ho', hrise⟩
  rw [← @run_snoc _ _ (step config)] at ho'
  refine ⟨o', hid ▸ ho', hstamp ▸ hle.trans hrise, fun hr => ?_⟩
  rcases hpast (halive hr) with ⟨pre, hpre, o'', ho'', halive'', hstamp''⟩
  exact ⟨pre, hpre.trans (List.prefix_append es [e]), o'', hid ▸ ho'', halive'',
    hstamp''.trans hstamp⟩

/-- What a server says about itself is honest. -/
theorem honest_of_own {es : List GossipEvent}
    (h : (run (step config) empty es).own r.nodeId = some r) : Honest config es r :=
  ⟨r, h, le_rfl, fun halive => ⟨es, List.prefix_refl es, r, h, halive, rfl⟩⟩

theorem standing_empty : empty.Standing := by
  intro i m hm
  cases hm

theorem not_mentions_empty (r : MemberRecord) : ¬ empty.Mentions r := by
  rintro (⟨i, m, hm, -⟩ | ⟨packet, hpacket, -⟩)
  · cases hm
  · cases hpacket

theorem standing_of_run (config : NodeId → GossipConfig) (es : List GossipEvent) :
    (run (step config) empty es).Standing := standing_empty.run es

/-- All there is in a run is honest. -/
theorem honest_of_run {es : List GossipEvent} (hes : Along (step config) Lawful empty es) :
    ∀ r, (run (step config) empty es).Mentions r → Honest config es r := by
  refine hes.induction (P := fun es s => ∀ r, s.Mentions r → Honest config es r)
    (fun r hr => absurd hr (not_mentions_empty r)) ?_
  intro es e _ hhonest hlawful r hr
  have hstanding := standing_of_run config es
  rcases traced_step hstanding hr with ⟨r₀, hr₀, hid, hstamp, hstatus⟩ | hown
  · exact (hhonest r₀ hr₀).keep hstanding hlawful hid hstamp (alive_of_le hstatus)
  · rw [← @run_snoc _ _ (step config)] at hown
    exact honest_of_own hown

/-- **No fabricated liveness.**  In every run of the cluster, every record about a server,
in a table or in a message on its way, has a stamp that is at most the server's own
latest one, and if it says alive, the server's own record said so at that stamp. -/
theorem no_fabricated_liveness (config : NodeId → GossipConfig) (es : List GossipEvent)
    (hes : Along (step config) Lawful empty es) (r : MemberRecord)
    (hr : (run (step config) empty es).Mentions r) :
    ∃ o, (run (step config) empty es).own r.nodeId = some o ∧ r.stamp ≤ o.stamp ∧
      (r.status = .alive → ∃ pre, pre <+: es ∧
        ∃ o', (run (step config) empty pre).own r.nodeId = some o' ∧ o'.status = .alive ∧
          o'.stamp = r.stamp) := honest_of_run hes r hr

/-- Two servers, 1 with 0 for a seed. -/
def twoServers (i : NodeId) : GossipConfig where
  endpoint := if i = 0 then str "a" else str "b"
  seedNodes := if i = 0 then [] else [str "a"]
  suspectThresholdMs := 3000
  deadThresholdMs := 10000

/-- What server 1 says about itself when it comes up. -/
def announced (generation : UInt32) : MemberRecord where
  nodeId := 1
  endpoint := str "b"
  status := .alive
  heartbeatCounter := 0
  generation := generation

/-- Server 0 hears of server 1, hears of it again after a restart, and stops. -/
def returning : List GossipEvent :=
  [.construct 0 0 0, .construct 1 0 0, .start 1, .contactSeed 1 (str "a"),
   .serve 0 (.request 1 (str "a") [announced 1]) fun _ => 0, .crash 1, .construct 1 1 0, .start 1,
   .contactSeed 1 (str "a"), .serve 0 (.request 1 (str "a") [announced 2]) fun _ => 0, .stop 0]

theorem lawful_returning : Along (step twoServers) Lawful empty returning := by
  refine ⟨?_, ?_, trivial, trivial, trivial, trivial, ?_, trivial, trivial, trivial, ?_, trivial⟩
  · intro o ho
    cases ho
  · intro o ho
    cases ho
  · intro o ho
    cases ho
    decide
  · intro o ho
    cases ho
    decide

theorem no_fabricated_liveness_returning :
    ∃ o, (run (step twoServers) empty returning).own 1 = some o ∧
      (announced 2).stamp ≤ o.stamp ∧
      ((announced 2).status = .alive → ∃ pre, pre <+: returning ∧
        ∃ o', (run (step twoServers) empty pre).own 1 = some o' ∧ o'.status = .alive ∧
          o'.stamp = (announced 2).stamp) := by
  have hview : ((run (step twoServers) empty returning).member 0).map
      (fun m => decide (announced 2 ∈ m.membership.getMemberView)) = some true := by
    decide +kernel
  rcases Option.map_eq_some_iff.mp hview with ⟨m, hm, hmem⟩
  exact no_fabricated_liveness twoServers returning lawful_returning (announced 2)
    (Or.inl ⟨0, m, hm, of_decide_eq_true hmem⟩)

end Network

end DistKV
