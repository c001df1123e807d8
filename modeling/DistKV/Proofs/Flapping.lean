/-
How often a server that is gone comes back to life in the view of another.

A server that has crashed raises its heartbeat no more.  Old messages about it may still be on
their way, and each can make another server take it to be alive again, after its failure
detector has given it up.  But that server takes no message twice: every time, its record gets a
heartbeat it has not had before, and there are no more than the crashed server has given out.
-/
import DistKV.Proofs.Departure
import Mathlib.Data.Finset.Card

namespace DistKV

open GossipMembership MemberTable Machine

/-- A record that has become alive again has a later stamp. -/
theorem stamp_lt_of_revived {a b : MemberRecord} (h : a.version ≤ b.version)
    (ha : a.status ≠ .alive) (hb : b.status = .alive) : a.stamp < b.stamp := by
  refine lt_of_not_ge fun hle => ?_
  rcases h.eq_or_lt with heq | hlt
  · exact ha ((version_eq_iff.mp heq).2.2.trans hb)
  · rcases version_lt_iff.mp hlt with hgeneration | ⟨hgeneration, hheartbeat | ⟨-, hstatus⟩⟩
    · rcases stamp_le_iff.mp hle with hback | ⟨hsame, -⟩
      · exact UInt32.lt_asymm hgeneration hback
      · exact UInt32.lt_irrefl _ (hsame ▸ hgeneration)
    · rcases stamp_le_iff.mp hle with hback | ⟨-, hback⟩
      · exact UInt32.lt_irrefl _ (hgeneration ▸ hback)
      · exact UInt64.lt_irrefl _ (UInt64.lt_of_lt_of_le hheartbeat hback)
    · rw [hb] at hstatus
      exact absurd hstatus (Nat.not_lt_zero _)

namespace Network

variable {config : NodeId → GossipConfig} {s : Network} {e : GossipEvent} {m m' : Member}
  {packets : List Packet} {a b : NodeId} {o : MemberRecord} {S : Finset (Lex (Nat × Nat))}

/-- Server `i` takes server `j` to be alive. -/
def takesAlive (i j : NodeId) (s : Network) : Bool :=
  (s.recordAt i j).any fun r => decide (r.status = .alive)

/-- Server `i` goes over to taking server `j` to be alive. -/
def revives (i j : NodeId) (s s' : Network) : Bool := !s.takesAlive i j && s'.takesAlive i j

/-- Server `i` knows that server `j` has come as far as `stamp`. -/
def Reaches (s : Network) (i j : NodeId) (stamp : Lex (Nat × Nat)) : Prop :=
  ∃ r ∈ s.recordAt i j, stamp ≤ r.stamp

instance (s : Network) (i j : NodeId) (stamp : Lex (Nat × Nat)) :
    Decidable (s.Reaches i j stamp) :=
  inferInstanceAs (Decidable (∃ r ∈ s.recordAt i j, stamp ≤ r.stamp))

/-- The stamps that server `a` has had after some part of a run. -/
def givenOut (config : NodeId → GossipConfig) (a : NodeId) (es : List GossipEvent) :
    Finset (Lex (Nat × Nat)) :=
  (es.inits.filterMap fun pre =>
    ((run (step config) empty pre).own a).map MemberRecord.stamp).toFinset

/-- Server `a` does nothing to its record, and server `b` does not come up anew. -/
def Silent (a b : NodeId) (_ : Network) : GossipEvent → Prop
  | .construct i _ _ => i ≠ a ∧ i ≠ b
  | .beat i _ _ => i ≠ a
  | .stop i => i ≠ a
  | _ => True

/-- `o` is what server `a` says about itself, and nobody says that it has come further. -/
structure Beneath (s : Network) (a : NodeId) (o : MemberRecord) : Prop where
  own : s.own a = some o
  bound : ∀ r, s.Mentions r → r.nodeId = a → r.stamp ≤ o.stamp

/-- A server that does not raise its heartbeat has the record of itself that it had. -/
theorem own_of_silent (hs : s.Standing) (hact : Act config s e m' packets)
    (hsilent : s.Silent e.at b e) : (s.set e.at m' packets).own e.at = s.own e.at := by
  rw [own_eq (member_set_self _ _ _ _)]
  cases hact with
  | construct i loaded now hdown => exact absurd rfl hsilent.1
  | beat i now now' m hm hphase => exact absurd rfl hsilent
  | stop i m hm hphase => exact absurd rfl hsilent
  | start i m hm hphase => exact (own_eq hm).symm
  | contactSeed i seed m hm hphase => exact (own_eq hm).symm
  | startLoop i m hm hphase => exact (own_eq hm).symm
  | round i draw peer m hm hphase hpeer => exact (own_eq hm).symm
  | crash i m hm => exact (own_eq hm).symm
  | serve i source peer view clock m hm hphase hsent =>
      rcases hs i m hm with ⟨hi, -⟩
      have hfind := @find_mergeView_self clock view m.membership
      rw [hi] at hfind
      exact (congrArg _ hfind).trans (own_eq hm).symm
  | bootstrap i view clock m hm hphase hsent =>
      rcases hs i m hm with ⟨hi, -⟩
      have hfind := find_bootstrap_self clock view m.membership
      rw [hi] at hfind
      exact (congrArg _ hfind).trans (own_eq hm).symm
  | receive i view clock m hm hphase hsent =>
      rcases hs i m hm with ⟨hi, -⟩
      have hfind := @find_mergeResponse_self clock view m.membership
      rw [hi] at hfind
      exact (congrArg _ hfind).trans (own_eq hm).symm

theorem own_step_of_silent (hs : s.Standing) (hsilent : s.Silent a b e) :
    (s.step config e).own a = s.own a := by
  rcases step_cases config s e with hsame | ⟨m', packets, hset, hact⟩
  · rw [hsame]
  · rw [hset]
    by_cases ha : a = e.at
    · subst ha
      exact own_of_silent hs hact hsilent
    · unfold Network.own
      rw [member_set_of_ne ha]

theorem Beneath.step (h : s.Beneath a o) (hs : s.Standing) (hsilent : s.Silent a b e) :
    (s.step config e).Beneath a o := by
  have hown : (s.step config e).own a = some o := by
    rw [own_step_of_silent hs hsilent]
    exact h.own
  refine ⟨hown, fun r hr hid => ?_⟩
  rcases traced_step hs hr with ⟨r₀, hr₀, hid₀, hstamp, -⟩ | hnow
  · rw [← hstamp]
    exact h.bound r₀ hr₀ (hid₀.trans hid)
  · rw [hid, hown] at hnow
    rw [Option.some.inj hnow]

/-! ### What has been given out -/

/-- Whatever is said of server `a`, by itself or by another one, has one of the stamps `S`. -/
structure Among (s : Network) (a : NodeId) (S : Finset (Lex (Nat × Nat))) : Prop where
  own : ∀ o, s.own a = some o → o.stamp ∈ S
  mentioned : ∀ r, s.Mentions r → r.nodeId = a → r.stamp ∈ S

theorem Among.step (h : s.Among a S) (hs : s.Standing)
    (hown : ∀ o, (s.step config e).own a = some o → o.stamp ∈ S) :
    (s.step config e).Among a S := by
  refine ⟨hown, fun r hr hid => ?_⟩
  rcases traced_step hs hr with ⟨r₀, hr₀, hid₀, hstamp, -⟩ | hnow
  · rw [← hstamp]
    exact h.mentioned r₀ hr₀ (hid₀.trans hid)
  · exact hown r (hid ▸ hnow)

theorem mem_givenOut {es : List GossipEvent} {stamp : Lex (Nat × Nat)} :
    stamp ∈ givenOut config a es ↔
      ∃ pre, pre <+: es ∧ ∃ o, (run (step config) empty pre).own a = some o ∧ o.stamp = stamp := by
  unfold givenOut
  simp only [List.mem_toFinset, List.mem_filterMap, List.mem_inits, Option.map_eq_some_iff]

theorem givenOut_subset {pre es : List GossipEvent} (h : pre <+: es) :
    givenOut config a pre ⊆ givenOut config a es := by
  intro stamp hstamp
  obtain ⟨pre', hpre', o, ho, hsame⟩ := mem_givenOut.mp hstamp
  exact mem_givenOut.mpr ⟨pre', hpre'.trans h, o, ho, hsame⟩

/-- Nothing is ever said of a server but what it has given out. -/
theorem among_of_run (config : NodeId → GossipConfig) (a : NodeId) (es : List GossipEvent) :
    (run (step config) empty es).Among a (givenOut config a es) := by
  induction es using List.reverseRecOn with
  | nil => exact ⟨fun o ho => (by cases ho), fun r hr => absurd hr (not_mentions_empty r)⟩
  | append_singleton es e ih =>
      have hsub : givenOut config a es ⊆ givenOut config a (es ++ [e]) :=
        givenOut_subset (List.prefix_append es [e])
      have hwide : (run (step config) empty es).Among a (givenOut config a (es ++ [e])) :=
        ⟨fun o ho => hsub (ih.own o ho), fun r hr hid => hsub (ih.mentioned r hr hid)⟩
      rw [run_snoc]
      refine hwide.step (standing_of_run config es) fun o ho => ?_
      refine mem_givenOut.mpr ⟨es ++ [e], List.prefix_refl _, o, ?_, rfl⟩
      rw [run_snoc]
      exact ho

/-! ### What the other server knows -/

/-- What a server that has started knows of another one gets no older. -/
theorem record_step (config : NodeId → GossipConfig) (hs : s.Standing) (hab : a ≠ b)
    (hstarted : s.Started b) (hnew : ∀ loaded now, e ≠ .construct b loaded now) :
    (s.step config e).Started b ∧ ∀ r, s.recordAt b a = some r →
      ∃ r', (s.step config e).recordAt b a = some r' ∧ r.version ≤ r'.version := by
  rcases step_cases config s e with hsame | ⟨m', packets, hset, hact⟩
  · rw [hsame]
    exact ⟨hstarted, fun r hr => ⟨r, hr, le_rfl⟩⟩
  · by_cases hb : b = e.at
    · subst hb
      obtain ⟨m, hm, hconstructed, hstarting⟩ := hstarted
      obtain ⟨m₀, hm₀, hkeeps⟩ := rises_of_act hact hnew
      cases Option.some.inj (hm₀.symm.trans hm)
      obtain ⟨hrises, hconstructed', hstarting'⟩ := hkeeps hconstructed hstarting
      have hm' : (s.step config e).member e.at = some m' := by
        rw [hset]
        exact member_set_self _ _ _ _
      refine ⟨⟨m', hm', hconstructed', hstarting'⟩, fun r hr => ?_⟩
      rw [recordAt_eq hm] at hr
      obtain ⟨entry, hentry, rfl⟩ := Option.map_eq_some_iff.mp hr
      have hother : a ≠ m.membership.selfNodeId := by
        rw [(hs e.at m hm).1]
        exact hab
      obtain ⟨entry', hentry', hversion⟩ := hrises a entry hother hentry
      refine ⟨entry'.record, ?_, hversion⟩
      rw [recordAt_eq hm', hentry']
      rfl
    · have hmember : (s.step config e).member b = s.member b := member_step_of_ne hb
      refine ⟨?_, fun r hr => ⟨r, ?_, le_rfl⟩⟩
      · unfold Started
        rw [hmember]
        exact hstarted
      · unfold recordAt
        rw [hmember]
        exact hr

/-- What it has reached, it still reaches. -/
theorem reaches_step (config : NodeId → GossipConfig) (hs : s.Standing) (hab : a ≠ b)
    (hstarted : s.Started b) (hnew : ∀ loaded now, e ≠ .construct b loaded now)
    {stamp : Lex (Nat × Nat)} (h : s.Reaches b a stamp) :
    (s.step config e).Reaches b a stamp := by
  obtain ⟨r, hr, hle⟩ := h
  obtain ⟨r', hr', hversion⟩ := (record_step config hs hab hstarted hnew).2 r hr
  exact ⟨r', hr', hle.trans (stamp_le_of_version_le hversion)⟩

/-- It reaches a further stamp when it comes to take the other one to be alive. -/
theorem reaches_of_revives (hs : s.Standing) (hab : a ≠ b) (hstarted : s.Started b)
    (hnew : ∀ loaded now, e ≠ .construct b loaded now)
    (h : revives b a s (s.step config e) = true) :
    ∃ r', (s.step config e).recordAt b a = some r' ∧ ¬ s.Reaches b a r'.stamp := by
  unfold revives takesAlive at h
  rw [Bool.and_eq_true, Bool.not_eq_true', Option.any_eq_true] at h
  obtain ⟨hbefore, r', hr', halive⟩ := h
  refine ⟨r', hr', ?_⟩
  rintro ⟨r, hr, hle⟩
  obtain ⟨r'', hr'', hversion⟩ := (record_step config hs hab hstarted hnew).2 r hr
  obtain rfl : r' = r'' := Option.some.inj (hr'.symm.trans hr'')
  rw [Option.mem_def.mp hr, Option.any_some, decide_eq_false_iff_not] at hbefore
  exact absurd hle (not_le_of_gt (stamp_lt_of_revived hversion hbefore (of_decide_eq_true halive)))

/-- Server `b` goes on, and server `a` has no more to say than `S`. -/
structure Outlives (s : Network) (b a : NodeId) (S : Finset (Lex (Nat × Nat))) : Prop where
  standing : s.Standing
  started : s.Started b
  among : s.Among a S

/-- How much of `S` server `b` has reached. -/
def reached (S : Finset (Lex (Nat × Nat))) (b a : NodeId) (s : Network) : Nat :=
  (S.filter fun stamp => s.Reaches b a stamp).card

theorem Outlives.step (h : s.Outlives b a S) (hab : a ≠ b) (hsilent : s.Silent a b e) :
    (s.step config e).Outlives b a S ∧
      reached S b a s + (revives b a s (s.step config e)).toNat ≤
        reached S b a (s.step config e) := by
  have hnew : ∀ loaded now, e ≠ .construct b loaded now := by
    rintro loaded now rfl
    exact hsilent.2 rfl
  have hamong : (s.step config e).Among a S := by
    refine h.among.step h.standing fun o ho => h.among.own o ?_
    rw [← own_step_of_silent h.standing hsilent]
    exact ho
  refine ⟨⟨h.standing.step, (record_step config h.standing hab h.started hnew).1, hamong⟩, ?_⟩
  have hsub : (S.filter fun stamp => s.Reaches b a stamp) ⊆
      S.filter fun stamp => (s.step config e).Reaches b a stamp :=
    Finset.monotone_filter_right S fun _ _ =>
      reaches_step config h.standing hab h.started hnew
  unfold reached
  cases hrevives : revives b a s (s.step config e) with
  | false => exact Finset.card_le_card hsub
  | true =>
      -- its new record has a stamp that it has not reached before
      obtain ⟨r', hr', hnot⟩ := reaches_of_revives h.standing hab h.started hnew hrevives
      obtain ⟨hmentions, hid⟩ := mentions_of_recordAt hr'
      refine Finset.card_lt_card (Finset.ssubset_iff_subset_ne.mpr ⟨hsub, fun heq => hnot ?_⟩)
      have hmem : r'.stamp ∈ S.filter fun stamp => (s.step config e).Reaches b a stamp :=
        Finset.mem_filter.mpr ⟨hamong.mentioned r' hmentions hid, r', hr', le_rfl⟩
      rw [← heq] at hmem
      exact (Finset.mem_filter.mp hmem).2

/-- **A dead server does not flap for ever.**  Once server `a` raises its heartbeat no more,
another server that has started comes to take it to be alive at most as often as there are stamps
that `a` has given out and the other one has not reached, whatever messages arrive. -/
theorem revivals_bounded (config : NodeId → GossipConfig) (a b : NodeId) (hab : a ≠ b)
    (pre es : List GossipEvent)
    (hes : Along (step config) (Silent a b) (run (step config) empty pre) es)
    (hstarted : (run (step config) empty pre).Started b) :
    tally (step config) (revives b a) (run (step config) empty pre) es ≤
      ((givenOut config a pre).filter fun stamp =>
        ¬ (run (step config) empty pre).Reaches b a stamp).card := by
  have houtlives : (run (step config) empty pre).Outlives b a (givenOut config a pre) :=
    ⟨standing_of_run config pre, hstarted, among_of_run config a pre⟩
  have htally := tally_le (I := fun s => s.Outlives b a (givenOut config a pre))
    (fun s e h he => h.step hab he) houtlives hes
  have hmost : reached (givenOut config a pre) b a (run (step config)
      (run (step config) empty pre) es) ≤ (givenOut config a pre).card :=
    Finset.card_filter_le _ _
  have hparts := Finset.card_filter_add_card_filter_not (s := givenOut config a pre)
    fun stamp => (run (step config) empty pre).Reaches b a stamp
  unfold reached at htally hmost
  omega

/-- Server 1 gets to know server 0, which sends a last message and crashes. -/
def crashed0 : List GossipEvent :=
  [.construct 0 0 0, .start 0, .startLoop 0, .construct 1 0 0, .start 1, .contactSeed 1 (str "a"),
   .serve 0 (.request 1 (str "a") [newcomer 1 1]) fun _ => 0,
   .receive 1 (.response 1 [newcomer 1 1, newcomer 0 1]) fun _ => 0, .startLoop 1, .beat 0 0 0,
   .round 0 0, .crash 0]

/-- The last that server 0 says about itself. -/
def last0 : MemberRecord := { newcomer 0 1 with heartbeatCounter := 1 }

/-- Server 1 has given server 0 up when the message arrives, and gives it up again. -/
def lateNews : List GossipEvent :=
  [.beat 1 20000 20000, .serve 1 (.request 0 (str "b") [last0, newcomer 1 1]) fun _ => 20000,
   .beat 1 40000 40000, .serve 1 (.request 0 (str "b") [last0, newcomer 1 1]) fun _ => 40000]

/-- Server 0 has given out one stamp that server 1 does not know of, and comes back once. -/
theorem revivals_bounded_once :
    tally (step threeServers) (revives 1 0) (run (step threeServers) empty crashed0) lateNews = 1 ∧
    tally (step threeServers) (revives 1 0) (run (step threeServers) empty crashed0) lateNews ≤
      ((givenOut threeServers 0 crashed0).filter fun stamp =>
        ¬ (run (step threeServers) empty crashed0).Reaches 1 0 stamp).card := by
  refine ⟨by decide +kernel, revivals_bounded threeServers 0 1 (by decide) crashed0 lateNews ?_
    ⟨_, rfl, by simp, by simp⟩⟩
  exact ⟨(by decide : (1 : NodeId) ≠ 0), trivial, (by decide : (1 : NodeId) ≠ 0), trivial, trivial⟩

end Network

end DistKV
