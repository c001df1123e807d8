/-
What a split means for the clients.

The clients of a side ask the servers of their side for the membership, and are told of nobody
else.  So all their requests stay on that side, and so does all that is written: no `get` of a
client returns a value that only the other side has been given since.
-/
import DistKV.Proofs.Destinations
import DistKV.Proofs.Split

namespace DistKV

open Machine

/-- A scheme that is put before an endpoint is stripped again. -/
theorem stripScheme_fullEp {setting : Setting} (h : 58 ∉ setting.protocol) (endpoint : Endpoint) :
    stripScheme (setting.fullEp endpoint) = endpoint := by
  have hfirst : ∀ protocol : Bytes, 58 ∉ protocol →
      afterScheme (protocol ++ (str "://" ++ endpoint)) = some endpoint := by
    intro protocol
    induction protocol with
    | nil => intro _; rfl
    | cons c rest ih =>
        intro hc
        rw [List.cons_append]
        unfold afterScheme
        rw [if_neg, ih fun hmem => hc (List.mem_cons_of_mem c hmem)]
        intro hprefix
        have hhead : c = 58 := by
          simp [str, List.isPrefixOf] at hprefix
          exact hprefix.1.symm
        exact hc (hhead ▸ List.mem_cons_self)
  unfold stripScheme Setting.fullEp
  rw [List.append_assoc, hfirst _ h]
  rfl

namespace System

variable {κ ρ : Type} {config : NodeId → GossipConfig} {setting : κ → Setting} {side : NodeId → ρ}
  {home : κ → ρ} {region : Endpoint → ρ} {s : System κ} {old : List Packet}

/-- Every endpoint is in one region, and the servers of a side are in the region of that side. -/
structure Drawn (config : NodeId → GossipConfig) (setting : κ → Setting) (side : NodeId → ρ)
    (region : Endpoint → ρ) : Prop where
  server : ∀ n, region (stripScheme (config n).endpoint) = side n
  protocol : ∀ i, 58 ∉ (setting i).protocol

theorem Drawn.apart (h : Drawn config setting side region) :
    Network.EndpointsApart config side := by
  intro i j hij
  rw [← h.server i, ← h.server j, hij]

/-- The server that a client finds at an endpoint is of the region of the endpoint. -/
theorem Drawn.side_eq (h : Drawn config setting side region) {i : κ} {j : NodeId}
    {endpoint : Endpoint} (hj : (config j).endpoint = (setting i).fullEp endpoint) :
    side j = region endpoint := by
  rw [← h.server j, hj, stripScheme_fullEp (h.protocol i)]

/-- The endpoints that a thread has still to ask, and the members it has been told of. -/
def ThreadWithin (side : NodeId → ρ) (region : Endpoint → ρ) (b : ρ) : MembershipThread → Prop
  | .asking endpoints => ∀ e ∈ endpoints, region e = b
  | .answered members rest =>
      (∀ e ∈ rest, region e = b) ∧ ∀ r ∈ members, r.status = .alive → side r.nodeId = b

/-- Every client knows its own side only. -/
structure Sided (side : NodeId → ρ) (home : κ → ρ) (region : Endpoint → ρ) (s : System κ) :
    Prop where
  within : ∀ i, (s.clients.client i).Within region (home i)
  thread : ∀ i, ThreadWithin side region (home i) (s.thread i)

/-- A map that is taken over from an answer. -/
theorem within_fetch (hdrawn : Drawn config setting side region) {client : Client} {b : ρ}
    (h : client.Within region b) {members : List MemberRecord}
    (hmembers : ∀ r ∈ members, r.status = .alive → side r.nodeId = b)
    (hgenuine : ∀ r ∈ members, r.endpoint = (config r.nodeId).endpoint) :
    ({ client with dist :=
      (client.dist.fetchMembershipFromServer (some members)).2 } : Client).Within region b where
  attached := h.attached
  map := by
    obtain ⟨hsame, -⟩ | ⟨ms, hms, -, htaken⟩ :=
      KvmClient.fetchMembership_cases (some members) client.dist
    · rw [hsame]
      exact h.map
    · cases hms
      rw [htaken]
      intro n endpoint hlookup
      have hlive : (liveMap members).lookup n = some endpoint := hlookup
      rw [lookup_liveMap] at hlive
      obtain ⟨r, hr, rfl⟩ := Option.map_eq_some_iff.mp hlive
      have hmem := List.mem_of_getLast? hr
      simp only [List.mem_filter, decide_eq_true_eq] at hmem
      rw [hgenuine r hmem.1.1, hdrawn.server]
      exact hmembers r hmem.1.1 hmem.1.2

variable [DecidableEq κ]

theorem threadWithin_set (h : ∀ i, ThreadWithin side region (home i) (s.thread i)) {j : κ}
    {t : MembershipThread} (ht : ThreadWithin side region (home j) t) (i : κ) :
    ThreadWithin side region (home i) ((s.setThread j t).thread i) := by
  by_cases hi : i = j
  · rw [hi, thread_setThread_self]
    exact ht
  · rw [thread_setThread_of_ne _ hi]
    exact h i

variable [Fintype κ]

/-- What the servers do stays within their sides: no server that starts contacts a seed of another
side, and no `old` message arrives that crosses, or that calls a server of another side alive. -/
def Inward (config : NodeId → GossipConfig) (side : NodeId → ρ) (old : List Packet)
    (s : System κ) : SystemEvent κ → Prop
  | .gossip e => s.network.Within config side old e
  | _ => True

theorem split_step (hdrawn : Drawn config setting side region)
    (horiented : Oriented config setting s) (h : s.network.Split config side old)
    {e : SystemEvent κ} (he : Inward config side old s e) :
    (s.step config setting e).network.Split config side old := by
  have hact := act_step config setting s e
  generalize s.step config setting e = after at hact
  cases hact with
  | gossip e => exact h.step hdrawn.apart horiented.standing horiented.genuine he
  | reboot i ending boot hmapped =>
      exact h.step hdrawn.apart horiented.standing horiented.genuine trivial
  | _ => exact h

/-- **Clients stay on their side.** -/
theorem Sided.step {W : ρ → Key → Bytes → Prop} (hdrawn : Drawn config setting side region)
    (horiented : Oriented config setting s) (hsplit : s.network.Split config side old)
    (hsound : s.clients.Sound region home W) (h : Sided side home region s) (e : SystemEvent κ) :
    Sided side home region (s.step config setting e) := by
  have hact := act_step config setting s e
  generalize s.step config setting e = after at hact
  cases hact with
  | rest e => exact h
  | gossip e => exact ⟨h.within, h.thread⟩
  | turn t =>
      refine ⟨?_, h.thread⟩
      intro i
      refine ⟨?_, ?_⟩
      · rw [hsound.dist_step t i]
        exact (h.within i).map
      · rw [Clients.attached_step]
        exact (h.within i).attached
  | reboot i ending boot hmapped => exact ⟨h.within, h.thread⟩
  | getAllEndpoints i hthread hfree =>
      refine ⟨h.within, threadWithin_set h.thread ?_⟩
      intro e he
      obtain ⟨pair, hpair, rfl⟩ := List.mem_map.mp he
      rw [((setting i).iteration.perm _).mem_iff] at hpair
      exact (h.within i).map pair.1 pair.2
        ((List.mem_dlookup_iff (s.clients.client i).dist.nodeToIp.nodupKeys).mpr hpair)
  | fail i endpoint rest hthread =>
      have hasking := h.thread i
      rw [hthread] at hasking
      exact ⟨h.within, threadWithin_set h.thread
        ⟨fun e he => hasking e (List.mem_cons_of_mem _ he), fun r hr => absurd hr List.not_mem_nil⟩⟩
  | getMembership i endpoint rest server members hthread hview =>
      have hasking := h.thread i
      rw [hthread] at hasking
      refine ⟨h.within, threadWithin_set h.thread
        ⟨fun e he => hasking e (List.mem_cons_of_mem _ he), ?_⟩⟩
      obtain ⟨m, hm, hup, hfound, rfl⟩ := membershipAt_eq_some.mp hview
      intro r hr halive
      rw [← hasking endpoint List.mem_cons_self, ← hdrawn.side_eq hfound]
      exact hsplit.table server m hm hup r hr halive
  | next i members rest hthread =>
      have hanswered := h.thread i
      rw [hthread] at hanswered
      exact ⟨h.within, threadWithin_set h.thread hanswered.1⟩
  | fetchMembership i members rest hthread hfree =>
      have hanswered := h.thread i
      rw [hthread] at hanswered
      refine ⟨?_, threadWithin_set h.thread fun e he => absurd he List.not_mem_nil⟩
      have hgenuine := horiented.answer i members rest hthread
      have htaken := within_fetch hdrawn (h.within i) hanswered.2 fun r hr =>
        (hgenuine r hr).endpoint
      intro j
      by_cases hj : j = i
      · subst hj
        simpa [setDist] using htaken
      · simpa [setDist, hj] using h.within j

/-! ### Nothing crosses -/

/-- A value that was in a segment of a side, or that a client of the side has brought since. -/
def BroughtOn (config : NodeId → GossipConfig) (setting : κ → Setting) (home : κ → ρ)
    (region : Endpoint → ρ) (s : System κ) (es : List (SystemEvent κ)) (b : ρ) (key : Key)
    (value : Bytes) : Prop :=
  (∃ e, region e = b ∧ (s.clients.cluster e).host.Stored key value) ∨
    ∃ i op given, home i = b ∧ Begun config setting s es i op ∧ op.key = key ∧
      op.value = some given ∧ value = cStr given

theorem broughtOn_cStr {es : List (SystemEvent κ)} (b : ρ) (key : Key) (value : Bytes)
    (h : BroughtOn config setting home region s es b key value) :
    BroughtOn config setting home region s es b key (cStr value) := by
  rcases h with ⟨e, he, hstored⟩ | ⟨i, op, given, hi, hbegun, hkey, hgiven, rfl⟩
  · exact Or.inl ⟨e, he, hstored.cStr⟩
  · exact Or.inr ⟨i, op, given, hi, hbegun, hkey, hgiven, Server.cStr_cStr given⟩

/-- **Nothing crosses a split.**  When the servers of each side take nobody else to be alive, and
each client knows its own side only and has no call in progress, then whatever a `get` returns
from then on was in a segment of its own side, or has been brought by a client of its side. -/
theorem nothing_crosses (config : NodeId → GossipConfig) (setting : κ → Setting)
    (cluster : Cluster) (side : NodeId → ρ) (home : κ → ρ) (region : Endpoint → ρ)
    (hdrawn : Drawn config setting side region) (pre es : List (SystemEvent κ))
    (hsplit : ∀ i m, (run (step config setting) (start setting cluster) pre).network.member i =
      some m → m.phase ≠ .down → SameSide side i m.membership.getMemberView)
    (hsided : Sided side home region (run (step config setting) (start setting cluster) pre))
    (hquiet : (run (step config setting) (start setting cluster) pre).clients.Quiet)
    (hes : Along (step config setting)
      (Inward config side (run (step config setting) (start setting cluster) pre).network.sent)
      (run (step config setting) (start setting cluster) pre) es)
    (i : κ) (key : Key) (value : Bytes) (d : KVDistributor)
    (hreturn : ((run (step config setting) (start setting cluster)
      (pre ++ es)).clients.client i).running = some (.get key, .done (some value, d))) :
    value = rpcFailed ∨ BroughtOn config setting home region
      (run (step config setting) (start setting cluster) pre) es (home i) key value := by
  obtain ⟨horderly, horiented⟩ := oriented_of_run config setting cluster pre
  rw [run_append] at hreturn
  generalize run (step config setting) (start setting cluster) pre = s₀ at *
  have hbrings : Along (step config setting)
      (Brings home (BroughtOn config setting home region s₀ es)) s₀ es :=
    brings_of_begun fun j op given hbegun hgiven =>
      Or.inr ⟨j, op, given, rfl, hbegun, rfl, hgiven, rfl⟩
  have hsound : s₀.clients.Sound region home (BroughtOn config setting home region s₀ es) := by
    refine ⟨?_, horderly.ring, fun j => conforms_idle (hquiet j)⟩
    exact fun e => (s₀.clients.cluster e).host.holds_stored.mono fun _ _ hstored =>
      Or.inl ⟨e, rfl, hstored⟩
  have hend := (hes.and hbrings).invariant
    (I := fun s => (Oriented config setting s ∧ s.network.Split config side s₀.network.sent) ∧
      Sided side home region s ∧
      s.clients.Sound region home (BroughtOn config setting home region s₀ es))
    ⟨⟨horiented, hsplit, fun _ hp => Or.inl hp⟩, hsided, hsound⟩ ?_
  · exact (hend.2.2.conforms i _ _ hreturn).1 value rfl
  · intro s e h he
    obtain ⟨⟨hor, hsp⟩, hsi, hso⟩ := h
    exact ⟨⟨hor.step hso e, split_step hdrawn hor hsp he.1⟩, hsi.step hdrawn hor hsp hso e,
      sound_step broughtOn_cStr hsi.within hso he.2⟩

/-- The side of server 0. -/
def atFirst (e : Endpoint) : Bool := e = str "a"

theorem network_run_gossip (es : List GossipEvent) :
    (run (step config setting) s (es.map .gossip)).network =
      run (Network.step config) s.network es := by
  induction es generalizing s with
  | nil => rfl
  | cons e es ih => exact ih

theorem clients_run_gossip (es : List GossipEvent) :
    (run (step config setting) s (es.map .gossip)).clients = s.clients ∧
      (run (step config setting) s (es.map .gossip)).thread = s.thread := by
  induction es generalizing s with
  | nil => exact ⟨rfl, rfl⟩
  | cons e es ih => exact ih

theorem nothing_crosses_two : str "x" = rpcFailed ∨
    BroughtOn Network.twoServers oneEach id atFirst
      (run (step Network.twoServers oneEach) (start oneEach fun _ => Server.fresh)
        (Network.parted.map .gossip)) putThenGet true 1 (str "x") := by
  have hunchanged := @clients_run_gossip Bool Network.twoServers oneEach
    (start oneEach fun _ => Server.fresh) _ _ Network.parted
  refine nothing_crosses Network.twoServers oneEach (fun _ => Server.fresh) Network.isFirst id
    atFirst ⟨?_, ?_⟩ (Network.parted.map .gossip) putThenGet ?_ ⟨?_, ?_⟩ ?_
    ⟨trivial, trivial, trivial, trivial, trivial, trivial⟩ true 1 (str "x") _ rfl
  · intro n
    by_cases hn : n = 0
    · rw [hn]
      decide
    · simp only [Network.twoServers, Network.isFirst, if_neg hn, decide_eq_false hn]
      decide
  · intro i
    exact (by decide : 58 ∉ str "tcp")
  · rw [network_run_gossip]
    exact Network.parted_split
  · intro i
    rw [hunchanged.1]
    refine ⟨?_, by cases i <;> decide⟩
    intro n endpoint hlookup
    obtain ⟨k, -, hk⟩ := KVDistributor.lookup_ofConfig hlookup
    have hmem := List.mem_of_getElem? hk
    rw [List.mem_singleton.mp hmem]
    cases i <;> decide
  · intro i
    rw [hunchanged.2]
    exact fun e he => absurd he List.not_mem_nil
  · intro i
    rw [hunchanged.1]
    rfl

end System

end DistKV
