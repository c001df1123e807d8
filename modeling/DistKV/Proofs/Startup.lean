/-
Servers that know which node they are.

A server whose address is configured finds the node that has it, whatever else is configured,
and any other server takes itself for node 0.  Where all servers find themselves, what they
announce is what every client has been configured with: no refresh ever moves a node, and two
clients never look for it at two places.
-/
import DistKV.Startup
import DistKV.Proofs.Destinations
import DistKV.Proofs.Sides

namespace DistKV

open Machine

variable {file : Config} {gossip : Option GossipSection} {localIp portStr : Bytes} {port : Int}
  {count i : Nat} {n : NodeId} {eps : List Endpoint}

/-- A loop that finds a node has come past its endpoint. -/
theorem findNodeIdFrom_eq (h : findNodeIdFrom file localIp portStr count i = some n) :
    n = -1 ∨ ∃ k : Nat, n = k ∧ k < i + count ∧ file.getEndpoint k = some (localIp ++ portStr) := by
  induction count generalizing i with
  | zero => exact Or.inl (Option.some.inj h).symm
  | succ count ih =>
      unfold findNodeIdFrom at h
      cases hep : file.getEndpoint i with
      | none =>
          rw [hep] at h
          cases h
      | some ep =>
          rw [hep, Option.bind_eq_bind, Option.bind_some] at h
          split at h
          · rename_i hfound
            refine Or.inr ⟨i, (Option.some.inj h).symm, by omega, ?_⟩
            rw [hep, ← hfound.2.1, ← hfound.2.2, List.takeWhile_append_dropWhile]
          · rcases ih h with hnone | ⟨k, hk, hlt, hep⟩
            · exact Or.inl hnone
            · exact Or.inr ⟨k, hk, by omega, hep⟩

/-- An endpoint that is the address is found, if every endpoint before it is configured. -/
theorem exists_findNodeIdFrom (hip : 58 ∉ localIp) {k : Nat}
    (hall : ∀ k' < k, (file.getEndpoint k').isSome) (hk : i ≤ k) (hlt : k < i + count)
    (hep : file.getEndpoint k = some (localIp ++ (str ":" ++ portStr))) :
    ∃ j : Nat, findNodeIdFrom file localIp (str ":" ++ portStr) count i = some (j : NodeId) := by
  induction count generalizing i with
  | zero => omega
  | succ count ih =>
      obtain ⟨ep, hi⟩ : ∃ ep, file.getEndpoint i = some ep := by
        rcases Nat.lt_or_eq_of_le hk with hbefore | rfl
        · exact Option.isSome_iff_exists.mp (hall i hbefore)
        · exact ⟨_, hep⟩
      unfold findNodeIdFrom
      rw [hi, Option.bind_eq_bind, Option.bind_some]
      by_cases hfound : 58 ∈ ep ∧ ep.takeWhile (· ≠ 58) = localIp ∧
          ep.dropWhile (· ≠ 58) = str ":" ++ portStr
      · rw [if_pos hfound]
        exact ⟨i, rfl⟩
      · rw [if_neg hfound]
        have hne : i ≠ k := by
          rintro rfl
          rw [hi] at hep
          cases hep
          have hpass : ∀ b ∈ localIp, decide (b ≠ 58) = true :=
            fun b hb => decide_eq_true fun heq => hip (heq ▸ hb)
          refine hfound ⟨List.mem_append_right _ (List.mem_append_left _ ?_), ?_, ?_⟩
          · exact List.mem_singleton.mpr rfl
          · rw [List.takeWhile_append_of_pos hpass]
            exact List.append_nil localIp
          · rw [List.dropWhile_append_of_pos hpass]
            rfl
        exact ih (by omega) (by omega)

/-- **A server finds itself** if its address is configured. -/
theorem findNodeId_eq (hfile : file.endpoints = some eps) (hip : 58 ∉ localIp)
    (hlisted : localIp ++ (str ":" ++ toStdString port) ∈ eps) :
    ∃ k : Nat, findNodeId file localIp port = some (k : NodeId) ∧
      eps[k]? = some (localIp ++ (str ":" ++ toStdString port)) := by
  obtain ⟨k, hk⟩ := List.mem_iff_getElem?.mp hlisted
  obtain ⟨hlt, hep⟩ := (Config.getElem?_endpoints hfile k _).mp hk
  have hall : ∀ k' < k, (file.getEndpoint k').isSome := by
    intro k' hlt'
    have hbound : k' < eps.length := hlt'.trans (List.getElem?_eq_some_iff.mp hk).1
    obtain ⟨-, hep'⟩ := (Config.getElem?_endpoints hfile k' _).mp (List.getElem?_eq_getElem hbound)
    exact Option.isSome_iff_exists.mpr ⟨_, hep'⟩
  have hcount : k < 0 + file.countOfNode.toNat := by omega
  obtain ⟨j, hj⟩ := exists_findNodeIdFrom hip hall (Nat.zero_le k) hcount hep
  refine ⟨j, hj, ?_⟩
  rcases findNodeIdFrom_eq hj with hnone | ⟨k', hk', hlt', hep'⟩
  · have hnone : (j : Int) = -1 := hnone
    omega
  · obtain rfl : j = k' := Int.ofNat.inj hk'
    exact (Config.getElem?_endpoints hfile j _).mpr ⟨by omega, hep'⟩

theorem stripScheme_serverAddress {protocol : Bytes} (h : 58 ∉ protocol) (localIp : Bytes)
    (port : Int) : stripScheme (serverAddress protocol localIp port) =
      localIp ++ (str ":" ++ toStdString port) := by
  have hstrip := @stripScheme_fullEp ⟨protocol, [], [], [], .plain⟩ h
    (localIp ++ (str ":" ++ toStdString port))
  unfold Setting.fullEp at hstrip
  unfold serverAddress
  rw [List.append_assoc, List.append_assoc (_ ++ _)]
  exact hstrip

namespace KvmServer

/-- A server of the network that has been started with an address that is configured. -/
structure Listed (file : Config) (eps : List Endpoint) (gossip : Option GossipSection)
    (localIp : Bytes) (args : List Bytes) (n : NodeId) (c : GossipConfig) : Prop where
  launched : ∃ server, launch file gossip localIp args = some server ∧ server.nodeId = n ∧
    server.gossip = c
  localIp : 58 ∉ localIp
  protocol : 58 ∉ args.getD 0 (str "ofi+tcp")
  endpoint : stripScheme c.endpoint ∈ eps

variable {c : GossipConfig} {args : List Bytes}

/-- Such a server is the node that its endpoint is configured for. -/
theorem Listed.found (h : Listed file eps gossip localIp args n c)
    (hfile : file.endpoints = some eps) :
    ∃ k : Nat, n = k ∧ eps[k]? = some (stripScheme c.endpoint) := by
  obtain ⟨⟨server, hlaunch, rfl, rfl⟩, hip, hprotocol, hlisted⟩ := h
  unfold launch at hlaunch
  dsimp only at hlaunch
  cases hfound : findNodeId file localIp ((args[1]?.bind stoi).getD 8080) with
  | none =>
      rw [hfound] at hlaunch
      cases hlaunch
  | some found =>
      rw [hfound] at hlaunch
      cases hlaunch
      have haddress : stripScheme (readGossipConfig gossip (serverAddress
          (args.getD 0 (str "ofi+tcp")) localIp ((args[1]?.bind stoi).getD 8080))).endpoint =
          localIp ++ (str ":" ++ toStdString ((args[1]?.bind stoi).getD 8080)) := by
        cases gossip with
        | none => exact stripScheme_serverAddress hprotocol _ _
        | some g => exact stripScheme_serverAddress hprotocol _ _
      dsimp only at hlisted ⊢
      rw [haddress] at hlisted ⊢
      obtain ⟨k, hk, hep⟩ := findNodeId_eq hfile hip hlisted
      rw [hfound] at hk
      cases hk
      exact ⟨k, if_neg (by simp), hep⟩

end KvmServer

/-! ### Maps that are never changed -/

namespace Network

variable {config : NodeId → GossipConfig} {s : Network} {e : GossipEvent}

/-- Only by coming up does a server become one that has run. -/
theorem member_of_step (h : ((s.step config e).member n).isSome) :
    (s.member n).isSome ∨ ∃ loaded now, e = .construct n loaded now := by
  by_cases hn : n = e.at
  · cases hm : s.member n with
    | some m => exact Or.inl rfl
    | none =>
        refine Or.inr ?_
        rw [hn] at hm
        cases e with
        | construct i loaded now => exact ⟨loaded, now, by rw [hn]; rfl⟩
        | _ =>
            unfold step at h
            rw [hm] at h
            dsimp only at h
            rw [hn, hm] at h
            cases h
  · rcases step_cases config s e with hsame | ⟨m', packets, hset, -⟩
    · rw [hsame] at h
      exact Or.inl h
    · rw [hset, member_set_of_ne hn] at h
      exact Or.inl h

end Network

namespace System

variable {κ : Type} [DecidableEq κ] [Fintype κ] {config : NodeId → GossipConfig}
  {setting : κ → Setting}

theorem construct_of_member (cluster : Cluster) (es : List (SystemEvent κ))
    (h : ((run (step config setting) (start setting cluster) es).network.member n).isSome) :
    ∃ loaded now, .gossip (.construct n loaded now) ∈ es := by
  induction es using List.reverseRecOn with
  | nil => cases h
  | append_singleton es e ih =>
      have hold : ((run (step config setting) (start setting cluster) es).network.member n).isSome →
          ∃ loaded now, .gossip (.construct n loaded now) ∈ es ++ [e] := fun hm => by
        obtain ⟨loaded, now, hmem⟩ := ih hm
        exact ⟨loaded, now, List.mem_append_left _ hmem⟩
      rw [run_snoc] at h
      generalize run (step config setting) (start setting cluster) es = s at h hold
      have hact := act_step config setting s e
      generalize s.step config setting e = after at hact h
      cases hact with
      | gossip e =>
          rcases Network.member_of_step h with hm | ⟨loaded, now, rfl⟩
          · exact hold hm
          · exact ⟨loaded, now, List.mem_append_right _ (List.mem_singleton.mpr rfl)⟩
      | reboot i ending boot hmapped =>
          rcases Network.member_of_step h with hm | ⟨loaded, now, hcrash⟩
          · exact hold hm
          · cases hcrash
      | _ => exact hold h

/-- **No refresh ever moves a node.**  If the clients and the servers read the same
configuration, and every server that comes up has an address in it, then at any time whatever a
client takes the endpoint of a node to be is what is configured, and the requests of its calls go
to the attached store or to where a replica of the key is configured. -/
theorem no_refresh_moves_a_node (file : Config) (eps : List Endpoint)
    (gossip : Option GossipSection) (hfile : file.endpoints = some eps)
    (config : NodeId → GossipConfig) (setting : κ → Setting)
    (hsetting : ∀ i, (setting i).endpoints = eps) (cluster : Cluster) (es : List (SystemEvent κ))
    (hes : ∀ n loaded now, .gossip (.construct n loaded now) ∈ es →
      ∃ localIp args, KvmServer.Listed file eps gossip localIp args n (config n)) (i : κ) :
    (∀ n endpoint, ((run (step config setting) (start setting cluster) es).clients.client
        i).dist.nodeToIp.lookup n = some endpoint → ∃ k : Nat, n = k ∧ eps[k]? = some endpoint) ∧
    ∀ op r next, ((run (step config setting) (start setting cluster) es).clients.client
        i).running = some (op, .request r next) →
      r.target = .attached ∨ ∃ (k : Nat) (endpoint : Endpoint), r.target = .remote endpoint ∧
        eps[k]? = some endpoint ∧
        (((run (step config setting) (start setting cluster) es).clients.client i).dist.primary
            op.key = k ∨
          ((run (step config setting) (start setting cluster) es).clients.client i).dist.buddy
            op.key = k) := by
  obtain ⟨horderly, horiented⟩ := oriented_of_run config setting cluster es
  have hmap : ∀ n endpoint, ((run (step config setting) (start setting cluster) es).clients.client
      i).dist.nodeToIp.lookup n = some endpoint → ∃ k : Nat, n = k ∧ eps[k]? = some endpoint := by
    intro n endpoint hlookup
    rcases horiented.charted i n endpoint hlookup with ⟨k, hk, hep⟩ | ⟨hran, rfl⟩
    · exact ⟨k, hk, hsetting i ▸ hep⟩
    · obtain ⟨loaded, now, hmem⟩ := construct_of_member cluster es hran
      obtain ⟨localIp, args, hlisted⟩ := hes n loaded now hmem
      exact hlisted.found hfile
  refine ⟨hmap, fun op r next hrun => ?_⟩
  obtain ⟨⟨n, hreplica, hmem, htarget⟩, -, -⟩ := (horderly.conforms i op _ hrun).1
  unfold KVDistributor.target at htarget
  split at htarget
  · exact Or.inl htarget
  · obtain ⟨endpoint, hlookup⟩ := Option.isSome_iff_exists.mp (AList.lookup_isSome.mpr hmem)
    obtain ⟨k, rfl, hep⟩ := hmap n endpoint hlookup
    rw [hlookup] at htarget
    exact Or.inr ⟨k, endpoint, htarget, hep, hreplica.imp Eq.symm Eq.symm⟩

/-- Two servers on one host. -/
def twoPorts : Config where
  countOfNode := 2
  ipAddresses := fun i => if i = 0 then some (str "h:1") else some (str "h:2")
  localIp := []

/-- The servers of `twoPorts`. -/
def onTwoPorts (i : NodeId) : GossipConfig :=
  readGossipConfig none (serverAddress (str "tcp") (str "h") (if i = 0 then 1 else 2))

/-- A client of both. -/
def ofTwoPorts (_ : Unit) : Setting where
  protocol := str "tcp"
  endpoints := [str "h:1", str "h:2"]
  localIp := []
  attached := []

/-- What server 0 is when it has come up. -/
def firstOfTwo : KvmServer where
  nodeId := 0
  gossip := onTwoPorts 0
  nodeTag := str "1"
  mode := .memory

theorem no_refresh_moves_a_node_two :
    ∃ k : Nat, (0 : NodeId) = k ∧ [str "h:1", str "h:2"][k]? = some (str "h:1") := by
  refine (no_refresh_moves_a_node twoPorts [str "h:1", str "h:2"] none (by decide) onTwoPorts
    ofTwoPorts (fun _ => rfl) (fun _ => Server.fresh)
    [.gossip (.construct 0 0 0), .getAllEndpoints (), .getMembership () (some 0),
      .fetchMembership ()] ?_ ()).1 0 (str "h:1") (by decide)
  intro n loaded now hmem
  simp only [List.mem_cons, SystemEvent.gossip.injEq, GossipEvent.construct.injEq, reduceCtorEq,
    List.not_mem_nil, or_false] at hmem
  obtain ⟨rfl, -, -⟩ := hmem
  exact ⟨str "h", [str "tcp", str "1"], ⟨firstOfTwo, rfl, rfl, rfl⟩, by decide, by decide,
    by decide⟩

end System

end DistKV
