/-
Records name the servers they are about.

A merge may put the endpoint of one record together with the stamp of another one, but never
with the id of another one.  So every record in a table or in a message has the endpoint that
its server is configured with, and is about a server that has run.
-/
import DistKV.Proofs.Liveness

namespace DistKV

open GossipMembership MemberTable Machine

/-- The endpoint that a table has for `id`. -/
def MemberTable.Locates (t : MemberTable) (id : NodeId) (endpoint : Endpoint) : Prop :=
  ∃ entry, t.find id = some entry ∧ entry.record.endpoint = endpoint

namespace GossipMembership

variable {self id : NodeId} {t : MemberTable} {entry : MemberEntry}

/-- Either merge gets every endpoint from the table or from the record that comes in. -/
def Relays (step : MemberTable × Bool → Incoming → MemberTable × Bool) : Prop :=
  ∀ acc e id entry, (step acc e).1.find id = some entry →
    acc.1.Locates id entry.record.endpoint ∨
      e.1.nodeId = id ∧ e.1.endpoint = entry.record.endpoint

theorem relays_put {r : MemberRecord} {taken : MemberEntry}
    (h : (t.put taken).find id = some entry) (hid : taken.record.nodeId = r.nodeId)
    (hendpoint : r.endpoint = taken.record.endpoint ∨
      t.Locates r.nodeId taken.record.endpoint) :
    t.Locates id entry.record.endpoint ∨
      r.nodeId = id ∧ r.endpoint = entry.record.endpoint := by
  rw [find_put, hid] at h
  by_cases hsame : id = r.nodeId
  · rw [if_pos hsame] at h
    cases h
    rw [hsame]
    exact hendpoint.symm.imp (fun hheld => hheld) fun heq => ⟨rfl, heq⟩
  · rw [if_neg hsame] at h
    exact Or.inl ⟨entry, h, rfl⟩

theorem relays_mergeRecord : Relays (mergeRecord self) := by
  intro acc e id entry h
  rcases acc with ⟨t, changed⟩
  rcases e with ⟨r, now⟩
  have hold : t.find id = some entry → t.Locates id entry.record.endpoint ∨
      r.nodeId = id ∧ r.endpoint = entry.record.endpoint := fun h => Or.inl ⟨entry, h, rfl⟩
  unfold mergeRecord at h
  dsimp only at h ⊢
  split at h
  · exact hold h
  · split at h
    · exact relays_put h rfl (Or.inl rfl)
    · rename_i loc hfind
      have hid : loc.record.nodeId = r.nodeId := t.filed _ _ hfind
      split at h
      · exact relays_put h rfl (Or.inl rfl)
      · split at h
        · exact hold h
        · split at h
          · exact relays_put h hid (Or.inr ⟨loc, hfind, rfl⟩)
          · split at h
            · exact relays_put h hid (Or.inr ⟨loc, hfind, rfl⟩)
            · exact hold h

theorem relays_mergeResponseRecord : Relays (mergeResponseRecord self) := by
  intro acc e id entry h
  rcases acc with ⟨t, changed⟩
  rcases e with ⟨r, now⟩
  have hold : t.find id = some entry → t.Locates id entry.record.endpoint ∨
      r.nodeId = id ∧ r.endpoint = entry.record.endpoint := fun h => Or.inl ⟨entry, h, rfl⟩
  unfold mergeResponseRecord at h
  dsimp only at h ⊢
  split at h
  · exact hold h
  · split at h
    · exact relays_put h rfl (Or.inl rfl)
    · split at h
      · exact relays_put h rfl (Or.inl rfl)
      · exact hold h

theorem Relays.fold {step : MemberTable × Bool → Incoming → MemberTable × Bool}
    (hstep : Relays step) (es : List Incoming) {acc : MemberTable × Bool}
    (h : (es.foldl step acc).1.find id = some entry) :
    acc.1.Locates id entry.record.endpoint ∨
      ∃ e ∈ es, e.1.nodeId = id ∧ e.1.endpoint = entry.record.endpoint := by
  induction es generalizing acc with
  | nil => exact Or.inl ⟨entry, h, rfl⟩
  | cons e es ih =>
      rcases ih h with ⟨entry', hfind, hendpoint⟩ | ⟨e', he', hnamed⟩
      · rcases hstep acc e id entry' hfind with hold | hnew
        · rw [hendpoint] at hold
          exact Or.inl hold
        · rw [hendpoint] at hnew
          exact Or.inr ⟨e, List.mem_cons_self, hnew⟩
      · exact Or.inr ⟨e', List.mem_cons_of_mem e he', hnamed⟩

theorem Relays.merge {step : MemberTable × Bool → Incoming → MemberTable × Bool}
    (hstep : Relays step) {clock : Nat → UInt64} {view : List MemberRecord}
    (h : ((timed clock view).foldl step (t, false)).1.find id = some entry) :
    t.Locates id entry.record.endpoint ∨
      ∃ r ∈ view, r.nodeId = id ∧ r.endpoint = entry.record.endpoint := by
  rcases hstep.fold _ h with hold | ⟨e, he, hnamed⟩
  · exact Or.inl hold
  · rcases mem_timed.mp he with ⟨k, hk, -⟩
    exact Or.inr ⟨e.1, List.mem_of_getElem? hk, hnamed⟩

end GossipMembership

namespace Network

variable {config : NodeId → GossipConfig} {s : Network} {e : GossipEvent} {m m' : Member}
  {packets : List Packet} {i : NodeId} {r : MemberRecord}

/-- A record of the right endpoint, about a server that has run. -/
structure Genuine (config : NodeId → GossipConfig) (s : Network) (r : MemberRecord) : Prop where
  endpoint : r.endpoint = (config r.nodeId).endpoint
  ran : (s.member r.nodeId).isSome

/-- Every record that there is. -/
def AllGenuine (config : NodeId → GossipConfig) (s : Network) : Prop :=
  ∀ r, s.Mentions r → Genuine config s r

/-- There is a record of that id and that endpoint. -/
def Names (s : Network) (r : MemberRecord) : Prop :=
  ∃ r₀, s.Mentions r₀ ∧ r₀.nodeId = r.nodeId ∧ r₀.endpoint = r.endpoint

theorem names_of_locates (hm : s.member i = some m) {id : NodeId} {entry : MemberEntry}
    (hid : entry.record.nodeId = id)
    (h : m.membership.memberTable.Locates id entry.record.endpoint) :
    s.Names entry.record := by
  rcases h with ⟨entry₀, hfind, hendpoint⟩
  exact ⟨entry₀.record, mentions_of_find hm hfind,
    (m.membership.memberTable.filed _ _ hfind).trans hid.symm, hendpoint⟩

theorem names_of_view {packet : Packet} (hsent : packet ∈ s.sent) {id : NodeId}
    {entry : MemberEntry} (hid : entry.record.nodeId = id)
    (h : ∃ r ∈ packet.view, r.nodeId = id ∧ r.endpoint = entry.record.endpoint) :
    s.Names entry.record := by
  rcases h with ⟨r, hr, hr', hendpoint⟩
  exact ⟨r, Or.inr ⟨packet, hsent, hr⟩, hr'.trans hid.symm, hendpoint⟩

/-- An entry that only its own stamp and status are changed of. -/
theorem names_of_kept (hm : s.member i = some m) {id : NodeId} {entry entry₀ : MemberEntry}
    (hfind : m.membership.memberTable.find id = some entry₀)
    (hid : entry₀.record.nodeId = entry.record.nodeId)
    (hendpoint : entry₀.record.endpoint = entry.record.endpoint) : s.Names entry.record :=
  ⟨entry₀.record, mentions_of_find hm hfind, hid, hendpoint⟩

/-- What a server has in its table after an event, it has been told, or it is itself. -/
theorem names_of_act (hs : s.Standing) (hact : Act config s e m' packets) {id : NodeId}
    {entry : MemberEntry} (hfind : m'.membership.memberTable.find id = some entry) :
    (id = e.at ∧ entry.record.endpoint = (config e.at).endpoint) ∨ s.Names entry.record := by
  have hid := m'.membership.memberTable.filed id entry hfind
  cases hact with
  | construct i loaded now hdown =>
      have hfind' := (find_construct i (config i) loaded now id).symm.trans hfind
      by_cases hi : id = i
      · rw [if_pos hi] at hfind'
        cases hfind'
        exact Or.inl ⟨hi, rfl⟩
      · rw [if_neg hi] at hfind'
        cases hfind'
  | start i m hm hphase => exact Or.inr (names_of_kept hm hfind rfl rfl)
  | contactSeed i seed m hm hphase => exact Or.inr (names_of_kept hm hfind rfl rfl)
  | startLoop i m hm hphase => exact Or.inr (names_of_kept hm hfind rfl rfl)
  | beat i now now' m hm hphase =>
      rcases hs i m hm with ⟨hi, own, hown⟩
      have hfind' := (@find_beat m.membership own now now' (hi.symm ▸ hown) id).symm.trans hfind
      rw [hi] at hfind'
      by_cases hself : id = i
      · rw [if_pos hself] at hfind'
        cases hfind'
        exact Or.inr (names_of_kept hm hown rfl rfl)
      · rw [if_neg hself] at hfind'
        rcases Option.map_eq_some_iff.mp hfind' with ⟨entry₀, hfind₀, rfl⟩
        rcases detect_cases m.membership.config now' entry₀ with hsame | ⟨status, -, hdown⟩
        · exact Or.inr (names_of_kept hm hfind₀ (by rw [hsame]) (by rw [hsame]))
        · exact Or.inr (names_of_kept hm hfind₀ (by rw [hdown]) (by rw [hdown]))
  | round i draw peer m hm hphase hpeer => exact Or.inr (names_of_kept hm hfind rfl rfl)
  | serve i source peer view clock m hm hphase hsent =>
      rw [mergeView, memberTable_settle] at hfind
      rcases relays_mergeRecord.merge hfind with hold | hnew
      · exact Or.inr (names_of_locates hm hid hold)
      · exact Or.inr (names_of_view hsent hid hnew)
  | bootstrap i view clock m hm hphase hsent =>
      rcases find_bootstrap hfind with hold | ⟨-, hmem⟩
      · exact Or.inr (names_of_kept hm hold rfl rfl)
      · exact Or.inr (names_of_view hsent hid ⟨entry.record, hmem, hid, rfl⟩)
  | receive i view clock m hm hphase hsent =>
      rw [mergeResponse, memberTable_settle] at hfind
      rcases relays_mergeResponseRecord.merge hfind with hold | hnew
      · exact Or.inr (names_of_locates hm hid hold)
      · exact Or.inr (names_of_view hsent hid hnew)
  | stop i m hm hphase =>
      rcases hs i m hm with ⟨hi, own, hown⟩
      have hfind' := (find_depart (hi.symm ▸ hown) id).symm.trans hfind
      rw [hi] at hfind'
      by_cases hself : id = i
      · rw [if_pos hself] at hfind'
        cases hfind'
        exact Or.inr (names_of_kept hm hown rfl rfl)
      · rw [if_neg hself] at hfind'
        exact Or.inr (names_of_kept hm hfind' rfl rfl)
  | crash i m hm => exact Or.inr (names_of_kept hm hfind rfl rfl)

/-- A server that has run has run. -/
theorem ran_step (h : (s.member i).isSome) : ((s.step config e).member i).isSome := by
  rcases step_cases config s e with hsame | ⟨m', packets, hset, -⟩
  · rw [hsame]
    exact h
  · rw [hset]
    by_cases hi : i = e.at
    · rw [hi, member_set_self]
      rfl
    · rw [member_set_of_ne hi]
      exact h

theorem Genuine.of_names (hs : s.AllGenuine config) (h : s.Names r) :
    Genuine config (s.step config e) r := by
  rcases h with ⟨r₀, hr₀, hid, hendpoint⟩
  have hgenuine := hs r₀ hr₀
  refine ⟨?_, ?_⟩
  · rw [← hid, ← hendpoint]
    exact hgenuine.endpoint
  · rw [← hid]
    exact ran_step hgenuine.ran

/-- **Records stay genuine.** -/
theorem AllGenuine.step (h : s.AllGenuine config) (hs : s.Standing) :
    (s.step config e).AllGenuine config := by
  have hkeep : ∀ r, s.Mentions r → Genuine config (s.step config e) r :=
    fun r hr => Genuine.of_names h ⟨r, hr, rfl, rfl⟩
  rcases step_cases config s e with hsame | ⟨m', packets, hset, hact⟩
  · rw [hsame]
    exact h
  · have hmember : (s.step config e).member e.at = some m' := by
      rw [hset]
      exact member_set_self _ _ _ _
    have hview : ∀ r ∈ m'.membership.getMemberView, Genuine config (s.step config e) r := by
      intro r hr
      rcases mem_view.mp hr with ⟨entry, hentry, rfl⟩
      rcases names_of_act hs hact hentry with ⟨hid, hendpoint⟩ | hnames
      · refine ⟨?_, ?_⟩
        · rw [hid]
          exact hendpoint
        · rw [hid, hmember]
          rfl
      · exact Genuine.of_names h hnames
    intro r hr
    rw [hset] at hr
    rcases hr with ⟨j, m, hm, hmem⟩ | ⟨packet, hpacket, hmem⟩
    · by_cases hj : j = e.at
      · rw [hj, member_set_self] at hm
        cases hm
        exact hview r hmem
      · rw [member_set_of_ne hj] at hm
        exact hkeep r (Or.inl ⟨j, m, hm, hmem⟩)
    · rcases mem_sent_set.mp hpacket with hold | hnew
      · exact hkeep r (Or.inr ⟨packet, hold, hmem⟩)
      · exact hview r (sent_of_act hact packet hnew r hmem)

theorem allGenuine_empty : empty.AllGenuine config :=
  fun r hr => absurd hr (not_mentions_empty r)

theorem genuine_of_run (config : NodeId → GossipConfig) (es : List GossipEvent) :
    (run (step config) empty es).AllGenuine config := by
  have hkeeps : ∀ s : Network, ∀ e, s.Standing ∧ s.AllGenuine config →
      (s.step config e).Standing ∧ (s.step config e).AllGenuine config :=
    fun _ _ h => ⟨h.1.step, h.2.step h.1⟩
  exact (run_keeps hkeeps ⟨standing_empty, allGenuine_empty⟩ es).2

end Network

end DistKV
