/-
Where requests go.

A client knows the servers of its configuration, and those that an answer of a server was
about.  Such an answer is a view of a member table, so it names servers that have run, at the
endpoints they have announced; what has been waiting for the lock when it is taken over does
so still.
-/
import DistKV.Proofs.System
import DistKV.Proofs.Identity

namespace DistKV

open Machine

namespace System

variable {κ : Type} {config : NodeId → GossipConfig} {setting : κ → Setting} {s : System κ}
  {i : κ}

/-- Node `n` at an endpoint: as the client is configured, or as a server that has run has it. -/
def Located (config : NodeId → GossipConfig) (setting : Setting) (network : Network)
    (n : NodeId) (endpoint : Endpoint) : Prop :=
  (∃ k : Nat, n = k ∧ setting.endpoints[k]? = some endpoint) ∨
    (network.member n).isSome ∧ endpoint = stripScheme (config n).endpoint

/-- Every node of a map is somewhere. -/
def Charted (config : NodeId → GossipConfig) (setting : Setting) (network : Network)
    (m : NodeMap) : Prop :=
  ∀ n endpoint, m.lookup n = some endpoint → Located config setting network n endpoint

/-- What a client knows. -/
structure Oriented (config : NodeId → GossipConfig) (setting : κ → Setting) (s : System κ) :
    Prop where
  standing : s.network.Standing
  genuine : s.network.AllGenuine config
  charted : ∀ i, Charted config (setting i) s.network (s.clients.client i).dist.nodeToIp
  answer : ∀ i members rest, s.thread i = .answered members rest →
    ∀ r ∈ members, Network.Genuine config s.network r

/-- What an answer makes of a map. -/
theorem charted_fetch {d : KVDistributor} {setting : Setting} {network : Network}
    {members : List MemberRecord}
    (hd : Charted config setting network d.nodeToIp)
    (hmembers : ∀ r ∈ members, Network.Genuine config network r) :
    Charted config setting network (d.fetchMembershipFromServer (some members)).2.nodeToIp := by
  obtain ⟨hsame, -⟩ | ⟨ms, hms, -, htaken⟩ := KvmClient.fetchMembership_cases (some members) d
  · rw [hsame]
    exact hd
  · cases hms
    rw [htaken]
    intro n endpoint hlookup
    have hlive : (liveMap members).lookup n = some endpoint := hlookup
    rw [lookup_liveMap] at hlive
    obtain ⟨r, hr, rfl⟩ := Option.map_eq_some_iff.mp hlive
    have hmem := List.mem_of_getLast? hr
    simp only [List.mem_filter, decide_eq_true_eq] at hmem
    have hgenuine := hmembers r hmem.1.1
    rw [← hmem.2]
    exact Or.inr ⟨hgenuine.ran, by rw [hgenuine.endpoint]⟩

/-- A server that runs answers with the view of its table. -/
theorem membershipAt_eq_some {fullEp : Endpoint} {server : NodeId} {members : List MemberRecord} :
    s.membershipAt config fullEp server = some members ↔
      ∃ m, s.network.member server = some m ∧ m.phase ≠ .down ∧
        (config server).endpoint = fullEp ∧ m.membership.getMemberView = members := by
  unfold membershipAt
  constructor
  · intro h
    split at h
    · rename_i m hm
      split at h
      · rename_i hfound
        exact ⟨m, hm, hfound.1, hfound.2, Option.some.inj h⟩
      · cases h
    · cases h
  · rintro ⟨m, hm, hup, hfound, rfl⟩
    simp only [hm]
    rw [if_pos ⟨hup, hfound⟩]

theorem mentions_of_membershipAt {fullEp : Endpoint} {server : NodeId}
    {members : List MemberRecord} (h : s.membershipAt config fullEp server = some members) :
    ∀ r ∈ members, s.network.Mentions r := by
  obtain ⟨m, hm, -, -, rfl⟩ := membershipAt_eq_some.mp h
  exact fun r hr => Or.inl ⟨server, m, hm, hr⟩

theorem oriented_start (config : NodeId → GossipConfig) (setting : κ → Setting)
    (cluster : Cluster) : Oriented config setting (start setting cluster) where
  standing := Network.standing_empty
  genuine := Network.allGenuine_empty
  charted := by
    intro i n endpoint hlookup
    exact Or.inl (KVDistributor.lookup_ofConfig hlookup)
  answer := by
    intro i members rest hanswered
    cases hanswered

/-- Sound, whatever the values are. -/
abbrev Orderly (s : System κ) : Prop :=
  s.clients.Sound (fun _ => ()) (fun _ => ()) fun _ _ _ => True

theorem orderly_start (setting : κ → Setting) (cluster : Cluster) :
    Orderly (start setting cluster) :=
  sound_start setting fun e => (cluster e).host.holds_stored.mono fun _ _ _ => trivial

variable [DecidableEq κ] [Fintype κ]

/-- What has been located stays located. -/
theorem ran_step {n : NodeId} (h : (s.network.member n).isSome) (e : SystemEvent κ) :
    ((s.step config setting e).network.member n).isSome := by
  have hact := act_step config setting s e
  generalize s.step config setting e = after at hact
  cases hact with
  | gossip e => exact Network.ran_step h
  | reboot i ending boot hmapped => exact Network.ran_step h
  | _ => exact h

theorem Oriented.step {ρ : Type} {region : Endpoint → ρ} {home : κ → ρ}
    {W : ρ → Key → Bytes → Prop} (h : Oriented config setting s)
    (hsound : s.clients.Sound region home W) (e : SystemEvent κ) :
    Oriented config setting (s.step config setting e) := by
  have hran : ∀ n, (s.network.member n).isSome →
      ((s.step config setting e).network.member n).isSome := fun n hn => ran_step hn e
  have hact := act_step config setting s e
  generalize s.step config setting e = after at hact hran
  have hcharted : ∀ i, Charted config (setting i) after.network
      (s.clients.client i).dist.nodeToIp := fun i n endpoint hlookup =>
    (h.charted i n endpoint hlookup).imp_right fun hn => ⟨hran n hn.1, hn.2⟩
  have hgenuine : ∀ {members : List MemberRecord},
      (∀ r ∈ members, Network.Genuine config s.network r) →
      ∀ r ∈ members, Network.Genuine config after.network r :=
    fun hmembers r hr => ⟨(hmembers r hr).endpoint, hran _ (hmembers r hr).ran⟩
  -- a thread that is asking has not been answered
  have hasking : ∀ {i j : κ} {endpoints rest : List Endpoint} {members : List MemberRecord}
      {s' : System κ}, s'.thread = s.thread →
      (s'.setThread j (.asking endpoints)).thread i = .answered members rest →
      ∀ r ∈ members, Network.Genuine config s.network r := by
    intro i j endpoints rest members s' hsame hanswered
    by_cases hi : i = j
    · rw [hi, thread_setThread_self] at hanswered
      cases hanswered
    · rw [thread_setThread_of_ne _ hi, hsame] at hanswered
      exact h.answer i members rest hanswered
  -- nor has one that somebody has answered been answered by anybody else
  have hanswer : ∀ {i j : κ} {rest rest' : List Endpoint} {members members' : List MemberRecord},
      (∀ r ∈ members', Network.Genuine config s.network r) →
      (s.setThread j (.answered members' rest')).thread i = .answered members rest →
      ∀ r ∈ members, Network.Genuine config s.network r := by
    intro i j rest rest' members members' hnew hanswered
    by_cases hi : i = j
    · rw [hi, thread_setThread_self] at hanswered
      cases hanswered
      exact hnew
    · rw [thread_setThread_of_ne _ hi] at hanswered
      exact h.answer i members rest hanswered
  cases hact with
  | rest e => exact h
  | gossip e =>
      exact ⟨h.standing.step, h.genuine.step h.standing, hcharted,
        fun i members rest hanswered => hgenuine (h.answer i members rest hanswered)⟩
  | turn t =>
      refine ⟨h.standing, h.genuine, ?_, h.answer⟩
      intro i
      rw [hsound.dist_step t i]
      exact h.charted i
  | reboot i ending boot hmapped =>
      exact ⟨h.standing.step, h.genuine.step h.standing, hcharted,
        fun i members rest hanswered => hgenuine (h.answer i members rest hanswered)⟩
  | getAllEndpoints i hthread hfree =>
      exact ⟨h.standing, h.genuine, h.charted, fun j members rest => hasking rfl⟩
  | fail i endpoint rest hthread =>
      exact ⟨h.standing, h.genuine, h.charted,
        fun j members rest => hanswer fun r hr => absurd hr List.not_mem_nil⟩
  | getMembership i endpoint rest server members hthread hview =>
      exact ⟨h.standing, h.genuine, h.charted,
        fun j members rest => hanswer fun r hr =>
          h.genuine r (mentions_of_membershipAt hview r hr)⟩
  | next i members rest hthread =>
      exact ⟨h.standing, h.genuine, h.charted, fun j members rest => hasking rfl⟩
  | fetchMembership i members rest hthread hfree =>
      refine ⟨h.standing, h.genuine, ?_, fun j members rest => hasking rfl⟩
      intro j
      by_cases hj : j = i
      · subst hj
        simpa [setDist] using charted_fetch (h.charted j) (h.answer j members rest hthread)
      · simpa [setDist, hj] using h.charted j

theorem Orderly.step (h : Orderly s) (e : SystemEvent κ) :
    Orderly (s.step config setting e) := by
  refine sound_step (fun _ _ _ _ => trivial) (fun _ => within_unit _) h ?_
  cases e with
  | turn t =>
      cases t with
      | begin i op => exact fun _ _ _ => trivial
      | advance i c => trivial
  | _ => trivial

/-- In every run the clients are in order and know where they go. -/
theorem oriented_of_run (config : NodeId → GossipConfig) (setting : κ → Setting)
    (cluster : Cluster) (es : List (SystemEvent κ)) :
    Orderly (run (step config setting) (start setting cluster) es) ∧
      Oriented config setting (run (step config setting) (start setting cluster) es) :=
  run_keeps (P := fun s => Orderly s ∧ Oriented config setting s)
    (fun _ e h => ⟨h.1.step e, h.2.step h.1 e⟩)
    ⟨orderly_start setting cluster, oriented_start config setting cluster⟩ es

/-- **Where requests go.**  Whatever has happened, the next request of a call is about the key of
the call, and goes to one of the two replicas the client's ring has for it: to the attached store
if that is the local node, and if it is not, to the endpoint that the node has in the configuration
of the client, or that it has announced itself when it came up. -/
theorem request_goes_to_replica (config : NodeId → GossipConfig) (setting : κ → Setting)
    (cluster : Cluster) (es : List (SystemEvent κ)) (i : κ) (op : Op) (r : Request)
    (k : Reply → Prog Request Reply (Option Bytes × KVDistributor))
    (hrun : ((run (step config setting) (start setting cluster) es).clients.client i).running =
      some (op, .request r k)) :
    r.op.key = op.key ∧ ∃ n,
      (n = ((run (step config setting) (start setting cluster) es).clients.client i).dist.primary
          op.key ∨
        n = ((run (step config setting) (start setting cluster) es).clients.client i).dist.buddy
          op.key) ∧
      (r.target = .attached ∧ n = ((run (step config setting) (start setting cluster)
          es).clients.client i).dist.localNodeId ∨
        n ≠ ((run (step config setting) (start setting cluster)
            es).clients.client i).dist.localNodeId ∧
          ∃ endpoint, r.target = .remote endpoint ∧ Located config (setting i)
            (run (step config setting) (start setting cluster) es).network n endpoint) := by
  obtain ⟨horderly, horiented⟩ := oriented_of_run config setting cluster es
  obtain ⟨⟨n, hreplica, hmem, htarget⟩, hkey, -⟩ := (horderly.conforms i op _ hrun).1
  refine ⟨hkey, n, hreplica, ?_⟩
  unfold KVDistributor.target KVDistributor.isLocalNode at htarget
  by_cases hlocal : n = ((run (step config setting) (start setting cluster)
      es).clients.client i).dist.localNodeId
  · rw [if_pos (decide_eq_true hlocal)] at htarget
    exact Or.inl ⟨htarget, hlocal⟩
  · rw [if_neg fun h => hlocal (of_decide_eq_true h)] at htarget
    obtain ⟨endpoint, hlookup⟩ := Option.isSome_iff_exists.mp (AList.lookup_isSome.mpr hmem)
    rw [hlookup] at htarget
    exact Or.inr ⟨hlocal, endpoint, htarget, horiented.charted i n endpoint hlookup⟩

/-- Two servers, 1 with 0 for a seed. -/
def twoAddresses (i : NodeId) : GossipConfig where
  endpoint := if i = 0 then str "tcp://a" else str "tcp://b"
  seedNodes := if i = 0 then [] else [str "tcp://a"]
  suspectThresholdMs := 3000
  deadThresholdMs := 10000

/-- What server 1 says about itself when it comes up. -/
def arriving : MemberRecord where
  nodeId := 1
  endpoint := str "tcp://b"
  status := .alive
  heartbeatCounter := 0
  generation := 1

/-- Server 0 hears of server 1, and a client that is configured with server 0 alone of both. -/
def toldOfBoth : List (SystemEvent Bool) :=
  [.gossip (.construct 0 0 0), .gossip (.construct 1 0 0), .gossip (.start 1),
   .gossip (.contactSeed 1 (str "tcp://a")),
   .gossip (.serve 0 (.request 1 (str "tcp://a") [arriving]) fun _ => 0),
   .getAllEndpoints true, .getMembership true (some 0), .fetchMembership true,
   .turn (.begin true (.get 2))]

theorem request_goes_to_replica_told : ∃ n endpoint,
    Located twoAddresses (oneEach true) (run (step twoAddresses oneEach)
      (start oneEach fun _ => Server.fresh) toldOfBoth).network n endpoint := by
  obtain ⟨-, n, -, ⟨htarget, -⟩ | ⟨-, endpoint, -, hlocated⟩⟩ :=
    request_goes_to_replica twoAddresses oneEach (fun _ => Server.fresh) toldOfBoth true (.get 2)
      { target := .remote (str "b"), op := .find 2 } _ rfl
  · cases htarget
  · exact ⟨n, endpoint, hlocated⟩

end System

end DistKV
