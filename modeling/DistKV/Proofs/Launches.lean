/-
A server that comes up is news to everybody.

The generations that a server takes from its file rise, and nobody speaks of a generation that
the server has not had.  So in a fleet whose directories are left alone a server comes up with a
generation above all that is said about it anywhere, in a table or in a message on its way, and
what is said of a server never goes beyond what it says itself.
-/
import DistKV.Fleet
import DistKV.Proofs.Generation
import DistKV.Proofs.News

namespace DistKV

open Machine WorkDir

/-! ### Careful directories -/

namespace WorkDir

variable {d : WorkDir} {e : LaunchEvent}

theorem findsKept_of_upToDate (h : ∀ i, UpToDate (d.node i)) (hcareful : d.Careful e) :
    d.FindsKept e := by
  intro i he hdown g gs hgs
  constructor
  · refine (h i).closed (fun g' hopened => ?_) g gs hgs
    rw [show d.process i = .opened g' from hopened] at hdown
    cases hdown
  · rw [he] at hcareful
    refine hcareful g ?_
    rw [hgs]
    exact List.mem_cons_self

/-- What holds of every node of a directory that is left alone. -/
structure InOrder (d : WorkDir) : Prop where
  ordered : ∀ i, Ordered (d.node i)
  upToDate : ∀ i, UpToDate (d.node i)

theorem InOrder.step (h : d.InOrder) (hcareful : d.Careful e) : (d.step e).InOrder where
  ordered := ordered_step h.ordered
    ((startsAbove_iff h.ordered).mpr (findsKept_of_upToDate h.upToDate hcareful))
  upToDate := upToDate_step h.upToDate hcareful

theorem inOrder_empty : empty.InOrder := ⟨ordered_empty, upToDate_empty⟩

/-- An incarnation is recorded when its number is written, and at no other time. -/
theorem incarnations_step (d : WorkDir) (e : LaunchEvent) (i : NodeId) :
    (d.step e).incarnations i = d.incarnations i ∨
      e = .write i ∧ ∃ g, d.process i = .opened g ∧
        (d.step e).incarnations i = g :: d.incarnations i := by
  have hchange := step_change d e i
  have hnode : ∀ d : WorkDir, d.incarnations i = (d.node i).2.2 := fun _ => rfl
  have hprocess : d.process i = (d.node i).2.1 := rfl
  rw [hnode, hnode, hprocess]
  generalize d.node i = n at hchange ⊢
  generalize (d.step e).node i = n' at hchange ⊢
  cases hchange with
  | write file g gs => exact Or.inr ⟨rfl, g, rfl, rfl⟩
  | _ => exact Or.inl rfl

/-- A process runs when its number is written, and goes on until it ends. -/
theorem running_step {i : NodeId} {g : UInt32} (h : d.process i = .running g)
    (hstop : e ≠ .stop i) (hcrash : e ≠ .crash i) : (d.step e).process i = .running g := by
  have hchange := step_change d e i
  have hnode : ∀ d : WorkDir, d.process i = (d.node i).2.1 := fun _ => rfl
  rw [hnode] at h ⊢
  generalize d.node i = n at hchange h
  generalize (d.step e).node i = n' at hchange ⊢
  cases hchange with
  | keep => exact h
  | load file gs => cases h
  | openFile file g gs => cases h
  | write file g gs => cases h
  | stop file g gs => exact absurd rfl hstop
  | crash file p gs => exact absurd rfl hcrash
  | cleanUp file p gs => exact h

theorem running_of_write {i : NodeId} {g : UInt32} (h : d.process i = .opened g) :
    (d.step (.write i)).process i = .running g ∧
      (d.step (.write i)).incarnations i = g :: d.incarnations i := by
  dsimp only [step]
  rw [h]
  exact ⟨if_pos rfl, if_pos rfl⟩

end WorkDir

/-! ### What the network makes of it -/

namespace Network

variable {config : NodeId → GossipConfig} {s : Network} {e : GossipEvent} {m' : Member}
  {i : NodeId} {r : MemberRecord}

/-- A server keeps its generation until it comes up anew. -/
theorem generation_step (hs : s.Standing) (hnew : ∀ loaded now, e ≠ .construct i loaded now)
    (hr : (s.step config e).own i = some r) :
    ∃ o, s.own i = some o ∧ r.generation = o.generation := by
  rcases step_cases config s e with hsame | ⟨m', packets, hset, hact⟩
  · rw [hsame] at hr
    exact ⟨r, hr, rfl⟩
  · rw [hset] at hr
    by_cases hi : i = e.at
    · subst hi
      rcases own_of_act hs hact hr with hold | ⟨j, loaded, now, rfl, -⟩ | ⟨o, ho, hgeneration, -⟩
      · exact ⟨r, hold, rfl⟩
      · exact absurd rfl (hnew loaded now)
      · exact ⟨o, ho, hgeneration⟩
    · unfold own at hr
      rw [member_set_of_ne hi] at hr
      exact ⟨r, hr, rfl⟩

/-- What happens while processes run brings no server up. -/
theorem up_of_step (he : e.isOfRunning = true) (hm' : (s.step config e).member i = some m')
    (hup : m'.phase ≠ .down) : ∃ m, s.member i = some m ∧ m.phase ≠ .down := by
  rcases step_cases config s e with hsame | ⟨m₁, packets, hset, hact⟩
  · rw [hsame] at hm'
    exact ⟨m', hm', hup⟩
  · by_cases hi : i = e.at
    · subst hi
      cases hact with
      | construct i loaded now hdown => cases he
      | crash i m hm => cases he
      | start i m hm hphase => exact ⟨m, hm, by simp [hphase]⟩
      | contactSeed i seed m hm hphase => exact ⟨_, hm, by simp [hphase]⟩
      | startLoop i m hm hphase => exact ⟨m, hm, by simp [hphase]⟩
      | beat i now now' m hm hphase =>
          exact ⟨m, hm, by rcases hphase with hphase | hphase <;> simp [hphase]⟩
      | round i draw peer m hm hphase hpeer =>
          exact ⟨_, hm, by rcases hphase with hphase | hphase <;> simp [hphase]⟩
      | serve i source peer view clock m hm hphase hsent => exact ⟨m, hm, hphase⟩
      | bootstrap i view clock m hm hphase hsent => exact ⟨m, hm, by simp [hphase]⟩
      | receive i view clock m hm hphase hsent =>
          exact ⟨m, hm, by rcases hphase with hphase | hphase <;> simp [hphase]⟩
      | stop i m hm hphase => exact ⟨m, hm, hphase⟩
    · rw [hset, member_set_of_ne hi] at hm'
      exact ⟨m', hm', hup⟩

theorem down_of_crash (hm' : (s.step config (.crash i)).member i = some m') :
    m'.phase = .down := by
  cases hm : s.member i with
  | none =>
      unfold Network.step at hm'
      rw [show s.member (GossipEvent.at (.crash i)) = none from hm] at hm'
      exact absurd (hm.symm.trans hm') (by simp)
  | some m =>
      rw [step_of_member (e := .crash i) hm] at hm'
      rw [← Option.some.inj ((member_set_self i { m with phase := .down } [] s).symm.trans hm')]

/-- A server that is down comes up with the generation it has been given. -/
theorem own_of_construct (config : NodeId → GossipConfig) (generation : UInt32) (now : UInt64)
    (hdown : ∀ m, s.member i = some m → m.phase = .down) :
    ∃ o, (s.step config (.construct i (generation - 1) now)).own i = some o ∧
      o.generation = generation ∧ o.status = .alive := by
  have hstep : s.step config (.construct i (generation - 1) now) = s.set i
      { phase := .constructed
        membership := (GossipMembership.construct i (config i) (generation - 1) now
          ).setChangeCallback } [] := by
    cases hm : s.member i with
    | none =>
        unfold Network.step
        rw [show s.member (GossipEvent.at (.construct i (generation - 1) now)) = none from hm]
    | some m =>
        rw [step_of_member (e := .construct i (generation - 1) now) hm]
        exact if_pos (hdown m hm)
  have hfind := GossipMembership.find_construct i (config i) (generation - 1) now i
  rw [if_pos rfl] at hfind
  rw [hstep]
  exact ⟨_, own_of_find (member_set_self _ _ _ _) hfind, UInt32.sub_add_cancel generation 1, rfl⟩

end Network

/-! ### Fleets -/

namespace Fleet

variable {μ : Type} [DecidableEq μ] {config : NodeId → GossipConfig} {place : NodeId → μ}
  {s : Fleet μ} {e : FleetEvent μ} {i : NodeId}

/-- Directories are left alone, no process ends with its file open, and no number wraps. -/
def Careful (place : NodeId → μ) (s : Fleet μ) : FleetEvent μ → Prop
  | .load i => (s.dir (place i)).Careful (.load i)
  | .finish i => (s.dir (place i)).Careful (.crash i)
  | .cleanUp _ => False
  | .gossip e => e.isOfRunning = true → s.network.Lawful e
  | _ => True

/-- The directories and the network tell the same story. -/
structure Linked (place : NodeId → μ) (s : Fleet μ) : Prop where
  bounded : s.network.Bounded
  inOrder : ∀ machine, (s.dir machine).InOrder
  /-- A server is of a generation that its directory has seen. -/
  recorded : ∀ i o, s.network.own i = some o →
    o.generation ∈ (s.dir (place i)).incarnations i
  /-- A server that is up has a process that runs. -/
  running : ∀ i m, s.network.member i = some m → m.phase ≠ .down →
    ∃ g, (s.dir (place i)).process i = .running g

theorem dir_launch (machine machine' : μ) (e : LaunchEvent) (s : Fleet μ) :
    (s.launch machine e).dir machine' =
      if machine' = machine then (s.dir machine').step e else s.dir machine' := by
  unfold launch
  dsimp only
  by_cases h : machine' = machine
  · subst h
    rw [if_pos rfl, Function.update_self]
  · rw [if_neg h, Function.update_of_ne h]

theorem inOrder_launch (h : ∀ machine, (s.dir machine).InOrder) {machine : μ} {e : LaunchEvent}
    (hcareful : (s.dir machine).Careful e) (machine' : μ) :
    ((s.launch machine e).dir machine').InOrder := by
  rw [dir_launch]
  by_cases heq : machine' = machine
  · rw [if_pos heq]
    exact (h machine').step (heq ▸ hcareful)
  · rw [if_neg heq]
    exact h machine'

/-- What has been recorded stays so. -/
theorem incarnations_launch (machine machine' : μ) (e : LaunchEvent) {g : UInt32}
    (hg : g ∈ (s.dir machine').incarnations i) :
    g ∈ ((s.launch machine e).dir machine').incarnations i := by
  rw [dir_launch]
  split
  · rcases incarnations_step (s.dir machine') e i with hsame | ⟨-, g', -, hmore⟩
    · rw [hsame]
      exact hg
    · rw [hmore]
      exact List.mem_cons_of_mem g' hg
  · exact hg

theorem running_launch (machine machine' : μ) {e : LaunchEvent} {g : UInt32}
    (hg : (s.dir machine').process i = .running g) (hstop : e ≠ .stop i) (hcrash : e ≠ .crash i) :
    ((s.launch machine e).dir machine').process i = .running g := by
  rw [dir_launch]
  split
  · exact running_step hg hstop hcrash
  · exact hg

/-- An event of a directory alone. -/
theorem Linked.launch (h : s.Linked place) {machine : μ} {e : LaunchEvent}
    (hcareful : (s.dir machine).Careful e) (hstop : ∀ i, e ≠ .stop i)
    (hcrash : ∀ i, e ≠ .crash i) : (s.launch machine e).Linked place where
  bounded := h.bounded
  inOrder := inOrder_launch h.inOrder hcareful
  recorded := fun i o ho => incarnations_launch machine _ e (h.recorded i o ho)
  running := fun i m hm hup => by
    obtain ⟨g, hg⟩ := h.running i m hm hup
    exact ⟨g, running_launch machine _ hg (hstop i) (hcrash i)⟩

omit [DecidableEq μ] in
/-- A server comes up with the number that has been written. -/
theorem Linked.construct (h : s.Linked place) (config : NodeId → GossipConfig) {g : UInt32}
    (now : UInt64) (hg : (s.dir (place i)).process i = .opened g) :
    s.network.Lawful (.construct i (g - 1) now) ∧
      (∀ r, s.network.Mentions r → r.nodeId = i → r.generation < g) ∧
      (∃ o, (s.network.step config (.construct i (g - 1) now)).own i = some o ∧
        o.generation = g ∧ o.status = .alive) := by
  have hpending := (((h.inOrder (place i)).ordered i).pending g (Or.inr hg)).2
  have hown : ∀ o, s.network.own i = some o → o.generation < g :=
    fun o ho => hpending o.generation (h.recorded i o ho)
  refine ⟨?_, ?_, Network.own_of_construct config g now ?_⟩
  · intro o ho
    rw [UInt32.sub_add_cancel]
    exact hown o ho
  · intro r hr hid
    obtain ⟨o, ho, hle⟩ := h.bounded.bound r hr
    rw [hid] at ho
    rcases stamp_le_iff.mp hle with hlt | ⟨heq, -⟩
    · exact UInt32.lt_trans hlt (hown o ho)
    · rw [heq]
      exact hown o ho
  · intro m hm
    by_contra hup
    obtain ⟨g', hg'⟩ := h.running i m hm hup
    rw [hg] at hg'
    cases hg'

/-- **One event.** -/
theorem Linked.step (h : s.Linked place) (hcareful : s.Careful place e) :
    (s.step config place e).Linked place := by
  cases e with
  | load i => exact h.launch hcareful (by simp) (by simp)
  | openFile i => exact h.launch trivial (by simp) (by simp)
  | cleanUp machine => exact hcareful.elim
  | gossip e =>
      unfold Fleet.step
      dsimp only
      split
      · rename_i he
        have hnew : ∀ i loaded now, e ≠ .construct i loaded now := by
          rintro i loaded now rfl
          cases he
        refine ⟨h.bounded.step (hcareful he), h.inOrder, fun i r hr => ?_, fun i m hm hup => ?_⟩
        · obtain ⟨o, ho, hgeneration⟩ :=
            Network.generation_step h.bounded.standing (hnew i) hr
          rw [hgeneration]
          exact h.recorded i o ho
        · obtain ⟨m₀, hm₀, hup₀⟩ := Network.up_of_step he hm hup
          exact h.running i m₀ hm₀ hup₀
      · exact h
  | finish i =>
      have hnew : ∀ j loaded now, GossipEvent.crash i ≠ .construct j loaded now := by simp
      refine ⟨h.bounded.step trivial, inOrder_launch h.inOrder hcareful, fun j r hr => ?_,
        fun j m hm hup => ?_⟩
      · obtain ⟨o, ho, hgeneration⟩ := Network.generation_step h.bounded.standing (hnew j) hr
        rw [hgeneration]
        exact incarnations_launch _ _ _ (h.recorded j o ho)
      · by_cases hj : j = i
        · subst hj
          exact absurd (Network.down_of_crash hm) hup
        · have hm₀ : s.network.member j = some m := by
            rw [← hm]
            exact (Network.member_step_of_ne hj).symm
          obtain ⟨g, hg⟩ := h.running j m hm₀ hup
          exact ⟨g, running_launch _ _ hg (by simp) (by simpa using Ne.symm hj)⟩
  | construct i now =>
      unfold Fleet.step
      dsimp only
      split
      · rename_i g hg
        obtain ⟨hlawful, -, o, ho, hgeneration, -⟩ := h.construct config now hg
        obtain ⟨hrunning, hincarnations⟩ := running_of_write hg
        have hdir : (s.launch (place i) (.write i)).dir (place i) =
            (s.dir (place i)).step (.write i) := by
          rw [dir_launch, if_pos rfl]
        refine ⟨h.bounded.step hlawful, inOrder_launch h.inOrder trivial, fun j r hr => ?_,
          fun j m hm hup => ?_⟩
        · by_cases hj : j = i
          · subst hj
            rw [ho] at hr
            cases hr
            show o.generation ∈ ((s.launch (place j) (.write j)).dir (place j)).incarnations j
            rw [hdir, hincarnations, hgeneration]
            exact List.mem_cons_self
          · have hnew : ∀ loaded now', GossipEvent.construct i (g - 1) now ≠
                .construct j loaded now' := by
              intro loaded now' heq
              cases heq
              exact hj rfl
            obtain ⟨o', ho', hsame⟩ := Network.generation_step h.bounded.standing hnew hr
            rw [hsame]
            exact incarnations_launch _ _ _ (h.recorded j o' ho')
        · by_cases hj : j = i
          · subst hj
            refine ⟨g, ?_⟩
            show ((s.launch (place j) (.write j)).dir (place j)).process j = _
            rw [hdir]
            exact hrunning
          · have hm₀ : s.network.member j = some m := by
              rw [← hm]
              exact (Network.member_step_of_ne hj).symm
            obtain ⟨g', hg'⟩ := h.running j m hm₀ hup
            exact ⟨g', running_launch _ _ hg' (by simp) (by simp)⟩
      · exact h

omit [DecidableEq μ] in
theorem linked_start (place : NodeId → μ) : (start : Fleet μ).Linked place where
  bounded := ⟨Network.standing_empty, fun r hr => absurd hr (Network.not_mentions_empty r)⟩
  inOrder := fun _ => inOrder_empty
  recorded := fun _ _ ho => by cases ho
  running := fun _ _ hm => by cases hm

/-- **A server that comes up is news to everybody.**  In a fleet whose directories are left
alone, a server comes up alive and with the generation it has written to its file, and that is
above every generation in a record about it, wherever that is; and in the end nothing that is
said of a server goes beyond what it says itself. -/
theorem launches_are_news (config : NodeId → GossipConfig) (place : NodeId → μ)
    (es : List (FleetEvent μ)) (hes : Along (step config place) (Careful place) start es) :
    (∀ pre i now g, pre ++ [.construct i now] <+: es →
      ((run (step config place) start pre).dir (place i)).process i = .opened g →
      (∃ o, (run (step config place) start (pre ++ [.construct i now])).network.own i = some o ∧
        o.generation = g ∧ o.status = .alive) ∧
      ∀ r, (run (step config place) start pre).network.Mentions r → r.nodeId = i →
        r.generation < g) ∧
    ∀ r, (run (step config place) start es).network.Mentions r →
      ∃ o, (run (step config place) start es).network.own r.nodeId = some o ∧
        r.stamp ≤ o.stamp := by
  have hlinked : ∀ pre, pre <+: es → (run (step config place) start pre).Linked place :=
    fun pre hpre => (hes.initial hpre).invariant (I := Linked place) (linked_start place)
      fun _ _ h he => h.step he
  refine ⟨fun pre i now g hpre hg => ?_, (hlinked es (List.prefix_refl es)).bounded.bound⟩
  obtain ⟨-, hless, o, ho, hgeneration, halive⟩ :=
    (hlinked pre ((List.prefix_append pre _).trans hpre)).construct config now hg
  refine ⟨⟨o, ?_, hgeneration, halive⟩, hless⟩
  rw [run_snoc]
  generalize run (step config place) start pre = s at hg ho ⊢
  dsimp only [step]
  rw [hg]
  exact ho

/-- A server of generation 1 sends a message, ends and begins again. -/
def relaunched : List (FleetEvent Unit) :=
  [.load 1, .openFile 1, .construct 1 0, .gossip (.start 1), .gossip (.contactSeed 1 (str "a")),
   .finish 1, .load 1, .openFile 1, .construct 1 0]

theorem launches_are_news_again :
    ∃ o, (run (step Network.threeServers fun _ => ()) start relaunched).network.own 1 = some o ∧
      o.generation = 2 ∧ o.status = .alive := by
  refine ((launches_are_news Network.threeServers (fun _ => ()) relaunched ?_).1
    (relaunched.take 8) 1 0 2 (List.prefix_refl _) (by decide +kernel)).1
  refine ⟨?_, trivial, trivial, fun _ => trivial, fun _ => trivial, ?_, ?_, trivial, trivial,
    trivial⟩
  · intro g hg
    cases hg
  · intro g hg
    cases hg
  · intro g hg
    rw [List.mem_singleton.mp hg]
    decide

end Fleet

end DistKV
