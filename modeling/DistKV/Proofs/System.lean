/-
What holds of the whole system, whatever happens in it.

`Sound` is kept by every event: the hosts hold only values that calls have brought, and every
call in progress goes to the replicas of its key and asks nothing else.  Endpoints and clients
may be told apart by regions; where no request leaves the region of its client, each region has
values of its own.
-/
import DistKV.Proofs.Provenance
import DistKV.Proofs.Refresh
import DistKV.Proofs.Start

namespace DistKV

open Machine

variable {ρ : Type} {region : Endpoint → ρ} {W : ρ → Key → Bytes → Prop} {b : ρ}

/-- The region that a request goes to. -/
def Request.regionOf (region : Endpoint → ρ) (attached : Endpoint) (r : Request) : ρ :=
  match r.target with
  | .attached => region attached
  | .remote endpoint => region endpoint

namespace Cluster

/-- The hosts of each region hold values of that region. -/
def Holds (region : Endpoint → ρ) (W : ρ → Key → Bytes → Prop) (cluster : Cluster) : Prop :=
  ∀ e, (cluster e).host.Holds (W (region e))

variable {cluster : Cluster} {c : Conditions} {attached endpoint : Endpoint} {r : Request}

theorem holds_serve (hs : cluster.Holds region W)
    (hop : ∀ value, r.op.value = some value → W (region endpoint) r.op.key (cStr value)) :
    (cluster.serve c endpoint r).2.Holds region W := by
  have hserved : ((cluster endpoint).serve (c.memory r (cluster endpoint)) r.op).2 =
      (cluster endpoint).write (c.memory r (cluster endpoint)) r.op := by
    cases r.op <;> rfl
  intro e
  show (Function.update cluster endpoint _ e).host.Holds (W (region e))
  by_cases he : e = endpoint
  · rw [he, Function.update_self, hserved]
    exact Server.holds_write (hs endpoint) hop
  · rw [Function.update_of_ne he]
    exact hs e

theorem tells_serve (hs : cluster.Holds region W) :
    KVDistributor.Tells (W (region endpoint) r.op.key) r (cluster.serve c endpoint r).1 := by
  intro value hfound
  unfold serve at hfound
  dsimp only at hfound
  cases hop : r.op with
  | find key =>
      rw [hop] at hfound
      exact Server.holds_found (hs endpoint) hfound
  | insert key v => rw [hop] at hfound; cases hfound
  | update key v => rw [hop] at hfound; cases hfound
  | delete key => rw [hop] at hfound; cases hfound

theorem holds_handle (hs : cluster.Holds region W) (hop : ∀ value, r.op.value = some value →
      W (r.regionOf region attached) r.op.key (cStr value)) :
    (cluster.handle c attached r).2.Holds region W := by
  unfold handle
  unfold Request.regionOf at hop
  split
  · rename_i htarget
    rw [htarget] at hop
    exact holds_serve hs hop
  · rename_i endpoint htarget
    rw [htarget] at hop
    split
    · exact holds_serve hs hop
    · exact holds_serve hs hop
    · exact hs

/-- What comes back is what a host holds. -/
theorem tells_handle (hs : cluster.Holds region W) :
    KVDistributor.Tells (W (r.regionOf region attached) r.op.key) r
      (cluster.handle c attached r).1 := by
  unfold handle Request.regionOf
  cases htarget : r.target with
  | attached => exact tells_serve hs
  | remote endpoint =>
      dsimp only
      split
      · exact tells_serve hs
      · exact fun value h => by cases h
      · exact fun value h => by cases h

end Cluster

/-- The call in progress, if there is one, is one of a distributor at its own map, and what it
brings and finds is a value of region `b`. -/
def Client.Conforms (W : ρ → Key → Bytes → Prop) (b : ρ) (client : Client) : Prop :=
  ∀ op p, client.running = some (op, p) →
    p.Assures (client.dist.Asks op.key fun value => W b op.key (cStr value))
      (KVDistributor.Tells (W b op.key))
      fun t => KVDistributor.Returns (W b op.key) t.1 ∧ t.2 = client.dist

/-- All that a client knows is in region `b`. -/
structure Client.Within (region : Endpoint → ρ) (b : ρ) (client : Client) : Prop where
  map : ∀ n endpoint, client.dist.nodeToIp.lookup n = some endpoint → region endpoint = b
  attached : region client.attached = b

theorem conforms_idle {client : Client} (h : client.running = none) : client.Conforms W b := by
  intro op p hrun
  rw [h] at hrun
  cases hrun

/-- A request of a client stays where the client is. -/
theorem Client.Within.regionOf {client : Client} (h : client.Within region b) {key : Key}
    {V : Bytes → Prop} {r : Request} (hr : client.dist.Asks key V r) :
    r.regionOf region client.attached = b := by
  obtain ⟨n, -, hmem, htarget⟩ := hr.target
  unfold Request.regionOf
  rw [htarget]
  unfold KVDistributor.target
  split
  · rename_i hattached
    exact h.attached
  · rename_i endpoint hremote
    split at hremote
    · cases hremote
    · obtain ⟨e, hlookup⟩ := Option.isSome_iff_exists.mp (AList.lookup_isSome.mpr hmem)
      rw [hlookup] at hremote
      cases hremote
      exact h.map n e hlookup

namespace Clients

variable {κ : Type} [DecidableEq κ] {s : Clients κ} {home : κ → ρ}

/-- What holds of clients and servers. -/
structure Sound (region : Endpoint → ρ) (home : κ → ρ) (W : ρ → Key → Bytes → Prop)
    (s : Clients κ) : Prop where
  host : s.cluster.Holds region W
  ring : ∀ i, (s.client i).dist.RingOfMap
  conforms : ∀ i, (s.client i).Conforms W (home i)

/-- A client that changes. -/
theorem Sound.update (h : s.Sound region home W) {i : κ} {client : Client} {cluster : Cluster}
    (hhost : cluster.Holds region W) (hring : client.dist.RingOfMap)
    (hconforms : client.Conforms W (home i)) :
    Sound region home W { client := Function.update s.client i client, cluster := cluster } where
  host := hhost
  ring := by
    intro j
    by_cases hj : j = i
    · rw [hj]
      simpa using hring
    · simpa [hj] using h.ring j
  conforms := by
    intro j
    by_cases hj : j = i
    · rw [hj]
      simpa using hconforms
    · simpa [hj] using h.conforms j

/-- The calls that a turn begins bring values of the client's region. -/
def Brings (home : κ → ρ) (W : ρ → Key → Bytes → Prop) (s : Clients κ) : Turn κ → Prop
  | .begin i op => (s.client i).running = none →
      ∀ value, op.value = some value → W (home i) op.key (cStr value)
  | .advance _ _ => True

theorem Sound.step (hW : ∀ b key value, W b key value → W b key (cStr value))
    (hwithin : ∀ i, (s.client i).Within region (home i)) (h : s.Sound region home W) {t : Turn κ}
    (ht : s.Brings home W t) : (s.step t).Sound region home W := by
  cases t with
  | begin i op =>
      unfold Clients.step
      dsimp only
      split
      · exact h
      · rename_i hidle
        refine h.update h.host (h.ring i) ?_
        intro op' p hrun
        cases hrun
        exact (h.ring i).obeys_perform op (ht hidle) fun value => hW (home i) op.key value
  | advance i c =>
      unfold Clients.step
      dsimp only
      split
      · exact h
      · rename_i op result dist hrun
        have hdone := h.conforms i op _ hrun
        refine h.update h.host ?_ (conforms_idle rfl)
        rw [show dist = (s.client i).dist from hdone.2]
        exact h.ring i
      · rename_i op r k hrun
        have hasks := h.conforms i op _ hrun
        have hregion := (hwithin i).regionOf hasks.1
        have hkey := hasks.1.key
        refine h.update (Cluster.holds_handle h.host ?_) (h.ring i) ?_
        · rw [hregion, hkey]
          exact hasks.1.value
        · intro op' p hrun'
          cases hrun'
          refine hasks.2 _ ?_
          rw [← hkey, ← hregion]
          exact Cluster.tells_handle h.host

/-- A call leaves its distributor as it is. -/
theorem Sound.dist_step (h : s.Sound region home W) (t : Turn κ) (i : κ) :
    ((s.step t).client i).dist = (s.client i).dist := by
  cases t with
  | begin j op =>
      unfold Clients.step
      dsimp only
      split
      · rfl
      · by_cases hi : i = j
        · simp [hi]
        · simp [hi]
  | advance j c =>
      unfold Clients.step
      dsimp only
      split
      · rfl
      · rename_i op result dist hrun
        have hdone := h.conforms j op _ hrun
        by_cases hi : i = j
        · simp only [hi, Function.update_self]
          exact hdone.2
        · simp [hi]
      · by_cases hi : i = j
        · simp [hi]
        · simp [hi]

theorem attached_step (s : Clients κ) (t : Turn κ) (i : κ) :
    ((s.step t).client i).attached = (s.client i).attached := by
  cases t with
  | begin j op =>
      unfold Clients.step
      dsimp only
      split
      · rfl
      · by_cases hi : i = j
        · simp [hi]
        · simp [hi]
  | advance j c =>
      unfold Clients.step
      dsimp only
      split
      · rfl
      · by_cases hi : i = j
        · simp [hi]
        · simp [hi]
      · by_cases hi : i = j
        · simp [hi]
        · simp [hi]

end Clients

namespace System

theorem sound_start {κ : Type} (setting : κ → Setting) {cluster : Cluster} {region : Endpoint → ρ}
    {home : κ → ρ} (h : cluster.Holds region W) :
    (start setting cluster).clients.Sound region home W where
  host := h
  ring := fun _ => KVDistributor.ringOfMap_ofConfig _ _ _
  conforms := fun _ => conforms_idle rfl

variable {κ : Type} [DecidableEq κ] {config : NodeId → GossipConfig} {setting : κ → Setting}
  {s : System κ} {i : κ}

/-! ### What an event can do -/

@[simp] theorem network_setThread (s : System κ) (i : κ) (t : MembershipThread) :
    (s.setThread i t).network = s.network := rfl

@[simp] theorem clients_setThread (s : System κ) (i : κ) (t : MembershipThread) :
    (s.setThread i t).clients = s.clients := rfl

@[simp] theorem thread_setThread_self (s : System κ) (i : κ) (t : MembershipThread) :
    (s.setThread i t).thread i = t := by
  simp [setThread]

@[simp] theorem thread_setThread_of_ne (s : System κ) {i j : κ} (h : j ≠ i)
    (t : MembershipThread) : (s.setThread i t).thread j = s.thread j := by
  simp [setThread, h]

@[simp] theorem network_setDist (s : System κ) (i : κ) (d : KVDistributor) :
    (s.setDist i d).network = s.network := rfl

@[simp] theorem thread_setDist (s : System κ) (i : κ) (d : KVDistributor) :
    (s.setDist i d).thread = s.thread := rfl

/-- What an event makes of the system. -/
inductive Act (config : NodeId → GossipConfig) (setting : κ → Setting) (s : System κ) :
    SystemEvent κ → System κ → Prop where
  | rest (e : SystemEvent κ) : Act config setting s e s
  | gossip (e : GossipEvent) :
      Act config setting s (.gossip e) { s with network := s.network.step config e }
  | turn (t : Turn κ) : Act config setting s (.turn t) { s with clients := s.clients.step t }
  | reboot (i : NodeId) (ending : Server.Ending) (boot : Boot)
      (hmapped : ¬ s.Mapped (storeOf config i)) :
      Act config setting s (.reboot i ending boot) { s with
        network := s.network.step config (.crash i)
        clients := { s.clients with
          cluster := Function.update s.clients.cluster (storeOf config i)
            ((s.clients.cluster (storeOf config i)).reboot ending boot) } }
  | getAllEndpoints (i : κ) (hthread : s.thread i = .asking [])
      (hfree : (s.clients.client i).running = none) :
      Act config setting s (.getAllEndpoints i)
        (s.setThread i
          (.asking ((s.clients.client i).dist.getAllEndpoints (setting i).iteration)))
  | fail (i : κ) (endpoint : Endpoint) (rest : List Endpoint)
      (hthread : s.thread i = .asking (endpoint :: rest)) :
      Act config setting s (.getMembership i none) (s.setThread i (.answered [] rest))
  | getMembership (i : κ) (endpoint : Endpoint) (rest : List Endpoint) (server : NodeId)
      (members : List MemberRecord) (hthread : s.thread i = .asking (endpoint :: rest))
      (hanswer : s.membershipAt config ((setting i).fullEp endpoint) server = some members) :
      Act config setting s (.getMembership i (some server))
        (s.setThread i (.answered members rest))
  | next (i : κ) (members : List MemberRecord) (rest : List Endpoint)
      (hthread : s.thread i = .answered members rest) :
      Act config setting s (.fetchMembership i) (s.setThread i (.asking rest))
  | fetchMembership (i : κ) (members : List MemberRecord) (rest : List Endpoint)
      (hthread : s.thread i = .answered members rest)
      (hfree : (s.clients.client i).running = none) :
      Act config setting s (.fetchMembership i)
        ((s.setDist i
          ((s.clients.client i).dist.fetchMembershipFromServer (some members)).2).setThread
          i (.asking []))

variable [Fintype κ]

/-- **What an event can do.** -/
theorem act_step (config : NodeId → GossipConfig) (setting : κ → Setting) (s : System κ)
    (e : SystemEvent κ) : Act config setting s e (s.step config setting e) := by
  cases e with
  | gossip e => exact .gossip e
  | turn t => exact .turn t
  | reboot i ending boot =>
      unfold step
      dsimp only
      split
      · exact .rest _
      · rename_i hmapped
        exact .reboot i ending boot hmapped
  | getAllEndpoints i =>
      unfold step
      dsimp only
      split
      · rename_i hthread
        split
        · rename_i hfree
          exact .getAllEndpoints i hthread (Option.isNone_iff_eq_none.mp hfree)
        · exact .rest _
      · exact .rest _
  | getMembership i server =>
      unfold step
      dsimp only
      split
      · rename_i endpoint rest hthread
        split
        · exact .fail i endpoint rest hthread
        · split
          · rename_i server members hanswer
            exact .getMembership i endpoint rest _ members hthread hanswer
          · exact .rest _
      · exact .rest _
  | fetchMembership i =>
      unfold step
      dsimp only
      split
      · rename_i members rest hthread
        split
        · exact .next i members rest hthread
        · rename_i d hfetch
          split
          · rename_i hfree
            have hd : d = ((s.clients.client i).dist.fetchMembershipFromServer
                (some members)).2 := by rw [hfetch]
            rw [hd]
            exact .fetchMembership i members rest hthread (Option.isNone_iff_eq_none.mp hfree)
          · exact .rest _
      · exact .rest _

variable {home : κ → ρ}

/-- The calls that an event begins bring values of the client's region. -/
def Brings (home : κ → ρ) (W : ρ → Key → Bytes → Prop) (s : System κ) : SystemEvent κ → Prop
  | .turn t => s.clients.Brings home W t
  | _ => True

theorem ringOfMap_fetch {d : KVDistributor} (h : d.RingOfMap)
    (members : Option (List MemberRecord)) :
    (d.fetchMembershipFromServer members).2.RingOfMap := by
  obtain ⟨hsame, -⟩ | ⟨ms, -, -, htaken⟩ := KvmClient.fetchMembership_cases members d
  · rw [hsame]
    exact h
  · rw [htaken]
    exact KVDistributor.ringOfMap_rebuildRing _ _ d

/-- **Soundness is kept by every event.** -/
theorem sound_step (hW : ∀ b key value, W b key value → W b key (cStr value))
    (hwithin : ∀ i, (s.clients.client i).Within region (home i))
    (h : s.clients.Sound region home W) {e : SystemEvent κ} (he : s.Brings home W e) :
    (s.step config setting e).clients.Sound region home W := by
  have hact := act_step config setting s e
  generalize s.step config setting e = after at hact
  cases hact with
  | rest e => exact h
  | gossip e => exact h
  | turn t => exact h.step hW hwithin he
  | reboot i ending boot hmapped =>
      refine ⟨?_, h.ring, h.conforms⟩
      intro e
      by_cases heq : e = storeOf config i
      · rw [heq]
        simpa using Server.holds_reboot (h.host (storeOf config i)) ending boot
      · simpa [heq] using h.host e
  | getAllEndpoints i hthread hfree => exact h
  | fail i endpoint rest hthread => exact h
  | getMembership i endpoint rest server members hthread hanswer => exact h
  | next i members rest hthread => exact h
  | fetchMembership i members rest hthread hfree =>
      exact h.update h.host (ringOfMap_fetch (h.ring i) _) (conforms_idle hfree)

/-! ### Values come from writes -/

/-- A client begins a call after the events `es`. -/
def Begun (config : NodeId → GossipConfig) (setting : κ → Setting) (s : System κ)
    (es : List (SystemEvent κ)) (i : κ) (op : Op) : Prop :=
  ∃ pre, pre ++ [.turn (.begin i op)] <+: es ∧
    ((run (step config setting) s pre).clients.client i).running = none

/-- A value that was in a segment, or that a client has brought. -/
def Brought (config : NodeId → GossipConfig) (setting : κ → Setting) (s : System κ)
    (es : List (SystemEvent κ)) (key : Key) (value : Bytes) : Prop :=
  (∃ e, (s.clients.cluster e).host.Stored key value) ∨
    ∃ i op given, Begun config setting s es i op ∧ op.key = key ∧ op.value = some given ∧
      value = cStr given

theorem brought_cStr {es : List (SystemEvent κ)} (key : Key) (value : Bytes)
    (h : Brought config setting s es key value) :
    Brought config setting s es key (cStr value) := by
  rcases h with ⟨e, hstored⟩ | ⟨i, op, given, hbegun, hkey, hgiven, rfl⟩
  · exact Or.inl ⟨e, hstored.cStr⟩
  · exact Or.inr ⟨i, op, given, hbegun, hkey, hgiven, Server.cStr_cStr given⟩

/-- The calls of a run bring what the run says they have brought. -/
theorem brings_of_begun {es : List (SystemEvent κ)}
    (h : ∀ i op value, Begun config setting s es i op → op.value = some value →
      W (home i) op.key (cStr value)) :
    Along (step config setting) (Brings home W) s es := by
  refine along_iff.mpr ?_
  intro pre e hpre
  cases e with
  | turn t =>
      cases t with
      | begin i op => exact fun hidle value hvalue => h i op value ⟨pre, hpre, hidle⟩ hvalue
      | advance i c => trivial
  | _ => trivial

/-- In one region, everything is within it. -/
theorem within_unit (client : Client) : client.Within (fun _ => ()) () := ⟨fun _ _ _ => rfl, rfl⟩

/-- **Values come from writes.**  Whatever the servers and the clients do and whatever fails, a
`get` that is about to return has found nothing, or returns a value that was brought for its
key by a call begun before, or stood in a segment when all began. -/
theorem get_returns_brought (config : NodeId → GossipConfig) (setting : κ → Setting)
    (cluster : Cluster) (es : List (SystemEvent κ)) (i : κ) (key : Key) (value : Bytes)
    (d : KVDistributor)
    (hreturn : ((run (step config setting) (start setting cluster) es).clients.client i).running =
      some (.get key, .done (some value, d))) :
    value = rpcFailed ∨ Brought config setting (start setting cluster) es key value := by
  have hbrings : Along (step config setting) (Brings (fun _ => ())
      fun _ : Unit => Brought config setting (start setting cluster) es)
      (start setting cluster) es :=
    brings_of_begun fun i op value hbegun hvalue => Or.inr ⟨i, op, value, hbegun, rfl, hvalue, rfl⟩
  have hstart : cluster.Holds (fun _ => ())
      fun _ : Unit => Brought config setting (start setting cluster) es :=
    fun e => (cluster e).host.holds_stored.mono fun _ _ hstored => Or.inl ⟨e, hstored⟩
  have hsound := hbrings.invariant
    (I := fun s => s.clients.Sound (fun _ => ()) (fun _ => ())
      fun _ => Brought config setting (start setting cluster) es)
    (sound_start setting hstart)
    fun s e h he => sound_step (fun _ => brought_cStr) (fun i => within_unit _) h he
  exact (hsound.conforms i _ _ hreturn).1 value rfl

/-- Server 0 at one endpoint, and all others at another one. -/
def twoEndpoints (i : NodeId) : GossipConfig where
  endpoint := if i = 0 then str "a" else str "b"
  seedNodes := []
  suspectThresholdMs := 3000
  deadThresholdMs := 10000

/-- A client for each of two stores. -/
def oneEach (c : Bool) : Setting where
  protocol := str "tcp"
  endpoints := [if c then str "a" else str "b"]
  localIp := if c then str "a" else str "b"
  attached := if c then str "a" else str "b"

/-- One of them stores a value, and asks for it. -/
def putThenGet : List (SystemEvent Bool) :=
  [.turn (.begin true (.insert 1 (str "x"))), .turn (.advance true .fine),
   .turn (.advance true .fine), .turn (.begin true (.get 1)), .turn (.advance true .fine)]

theorem get_returns_brought_x : str "x" = rpcFailed ∨
    Brought twoEndpoints oneEach (start oneEach fun _ => Server.fresh) putThenGet 1 (str "x") :=
  get_returns_brought twoEndpoints oneEach (fun _ => Server.fresh) putThenGet true 1 (str "x") _ rfl

end System

end DistKV
