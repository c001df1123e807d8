/-
Kills leave no trace in the stores.

A server in persistent mode whose process is killed finds its file as it was.  If the calls
that open it and make the mutex pass, the server that comes up in its place does whatever the
one before would have done (`Alike`).  So a kill costs no more than what the server knew of the
other ones: a run of the system in which servers are killed and come up again is, as far as a
client can tell, the run in which only their membership is lost.
-/
import DistKV.Proofs.Colocated
import DistKV.Proofs.System

namespace DistKV

open Hoare Machine

/-! ### Coming up on a file with a map in it -/

namespace KvStore

open Boost

variable {v : View} {name mutexName nodeTag : Bytes} {total size : Nat}
  {outcomes : List (Option Exn)} {X : Exn → BoostState → Prop}

theorem openExistingFile_kept (hmap : HasMap v.image) (hopen : Passes outcomes)
    (hfind : Passes outcomes.tail) :
    Spec (At ⟨.persistent, name, mutexName, total⟩ v outcomes) openExistingFile
      (fun found s => At ⟨.persistent, name, mutexName, total⟩
        { v with storage := true, mapPtr := true } outcomes.tail.tail s ∧ found = true) X := by
  obtain ⟨seg, m, hseg, hm⟩ := hmap
  refine catchInterprocess_spec (M := fun _ _ => False) ?_ (fun _ _ h => h.elim)
    fun _ _ h => h.elim
  refine Spec.bind _ (openOnly_spec.weaken_error fun _ s h => h.2 ⟨hopen, seg, hseg⟩) fun _ =>
    Spec.of_and fun _ => ?_
  refine Spec.bind (fun _ => At ⟨.persistent, name, mutexName, total⟩ { v with storage := true }
    outcomes.tail) (modifyKv_spec fun s hs => hs.setStorage true) fun _ => ?_
  refine Spec.bind _ ((findMap_spec (v := { v with storage := true }) hseg).weaken_error
    fun _ s h => h.2 hfind) fun found => Spec.of_and fun hfound => Spec.of_and fun _ => ?_
  rw [hfound, hm]
  refine Spec.bind (fun _ => At ⟨.persistent, name, mutexName, total⟩
    { v with storage := true, mapPtr := true } outcomes.tail.tail)
    (modifyKv_spec fun s hs => hs.setMapPtr true) fun _ => ?_
  exact Spec.pure fun s hs => ⟨hs, rfl⟩

theorem createPersistentStorage_kept (hmap : HasMap v.image) (hopen : Passes outcomes)
    (hfind : Passes outcomes.tail) :
    Spec (At ⟨.persistent, name, mutexName, total⟩ v outcomes) (createPersistentStorage size)
      (fun _ => At ⟨.persistent, name, mutexName, total⟩
        { v with storage := true, mapPtr := true } outcomes.tail.tail) X := by
  refine Spec.get_bind fun s₀ hs₀ => ?_
  have hfile : (s₀.host.files s₀.kv.persistentFilePath).isSome = true := by
    have hname : s₀.kv.persistentFilePath = name := hs₀.name
    have himage : s₀.host.files name = v.image := hs₀.image
    obtain ⟨seg, m, hseg, -⟩ := hmap
    rw [hname, himage, hseg]
    rfl
  rw [if_pos hfile]
  refine Spec.bind _ ((openExistingFile_kept hmap hopen hfind).at hs₀) fun found =>
    Spec.of_and fun hfound => ?_
  subst hfound
  exact Spec.pure fun s hs => hs

theorem setUp_kept (size : Nat) {host : Host}
    (hmap : HasMap (host.image .persistent (segmentNameOf .persistent nodeTag)))
    (hopen : Passes outcomes) (hfind : Passes outcomes.tail)
    (hmutex : Passes outcomes.tail.tail) :
    Spec
      (fun s => s =
        { kv := { totalMemorySize := size, storageMode := .persistent, connMode := .server }
          host := host
          outcomes := outcomes })
      (setUp size .persistent .server nodeTag)
      (fun _ => At (siteOf size .persistent nodeTag)
        { image := host.image .persistent (segmentNameOf .persistent nodeTag)
          mutex := true
          storage := true
          mapPtr := true } outcomes.tail.tail.tail) X := by
  refine setUp_of_provide ?_
  unfold provide
  simp only [if_true]
  refine Spec.bind _ (createPersistentStorage_kept hmap hopen hfind) fun _ => ?_
  refine Spec.bind _ (removeMutex_spec (c := siteOf size .persistent nodeTag)) fun _ => ?_
  exact (openOrCreateMutex_spec (c := siteOf size .persistent nodeTag)).weaken
    (fun _ h => h) (fun _ _ h => h.1) fun _ _ h => absurd hmutex h.2

/-- The constructor returns, and the store has the map that stood there before. -/
theorem construct_kept (size : Nat) (host : Host)
    (hmap : HasMap (host.image .persistent (segmentNameOf .persistent nodeTag)))
    (hopen : Passes outcomes) (hfind : Passes outcomes.tail)
    (hmutex : Passes outcomes.tail.tail) :
    ∃ b, (construct size .persistent .server nodeTag).run
        { kv := { totalMemorySize := size, storageMode := .persistent, connMode := .server }
          host := host
          outcomes := outcomes } = .ok () b ∧
      At (siteOf size .persistent nodeTag)
        { image := host.image .persistent (segmentNameOf .persistent nodeTag)
          mutex := true
          storage := true
          mapPtr := true } outcomes.tail.tail.tail b := by
  have hspec := setUp_kept size (X := fun _ _ => False) hmap hopen hfind hmutex _ rfl
  unfold construct
  rw [run_catchInterprocess]
  generalize (setUp size .persistent .server nodeTag).run _ = result at hspec ⊢
  cases result with
  | ok _ b => exact ⟨b, rfl, hspec⟩
  | error e b => exact hspec.elim

end KvStore

/-! ### A server that is killed -/

/-- A server that comes up in the same place, and the three calls that matter there pass. -/
structure Boot.Smooth (nodeTag : Bytes) (boot : Boot) : Prop where
  mode : boot.mode = .persistent
  nodeTag : boot.nodeTag = nodeTag
  opens : Passes boot.outcomes
  finds : Passes boot.outcomes.tail
  mutex : Passes boot.outcomes.tail.tail

namespace Server

/-- A server in persistent mode that is up, under the names of its tag. -/
structure UpAs (nodeTag : Bytes) (s : Server) : Prop extends s.Up where
  mode : s.kv.storageMode = .persistent
  name : s.kv.segmentName .persistent = segmentNameOf .persistent nodeTag
  mutexName : s.kv.mutexName = mutexNameOf nodeTag

variable {s s' : Server} {nodeTag : Bytes}

theorem Alike.refl : s.Alike s := ⟨rfl, rfl, rfl, rfl, rfl, rfl, rfl⟩

theorem Alike.trans {s'' : Server} (h : s.Alike s') (h' : s'.Alike s'') : s.Alike s'' :=
  ⟨h.mode.trans h'.mode, h.name.trans h'.name, h.mutexName.trans h'.mutexName,
    h.mapPtr.trans h'.mapPtr, h.storage.trans h'.storage, h.image.trans h'.image,
    h.mutex.trans h'.mutex⟩

theorem UpAs.of_alike (h : s.UpAs nodeTag) (ha : s.Alike s') : s'.UpAs nodeTag where
  toServing := ha.serving h.toServing
  storage := ha.storage ▸ h.storage
  mode := ha.mode ▸ h.mode
  name := by
    have hname := ha.name
    rw [← ha.mode, h.mode] at hname
    exact hname ▸ h.name
  mutexName := ha.mutexName ▸ h.mutexName

theorem UpAs.write (h : s.UpAs nodeTag) (env : MemEnv) (op : StoreOp) :
    (s.write env op).UpAs nodeTag where
  toUp := h.toUp.write env op
  mode := (kv_write env s op).symm ▸ h.mode
  name := (kv_write env s op).symm ▸ h.name
  mutexName := (kv_write env s op).symm ▸ h.mutexName

/-- **A kill leaves no trace.**  The server that comes up does what the one before would do. -/
theorem UpAs.alike_reboot (h : s.UpAs nodeTag) {boot : Boot} (hboot : boot.Smooth nodeTag) :
    (s.reboot .kill boot).Alike s := by
  obtain ⟨m, hm⟩ := h.map
  obtain ⟨hptr, seg, hseg, hmap⟩ := KvStore.sharedMap_eq_some.mp hm
  rw [h.mode] at hptr
  rw [h.mode, h.name] at hseg
  have hstorage := h.storage
  rw [h.mode] at hstorage
  have hmutex := h.mutex
  rw [h.mutexName] at hmutex
  obtain ⟨size, mode, tag, outcomes⟩ := boot
  obtain ⟨hmode, htag, hopen, hfind, hpass⟩ := hboot
  dsimp only at hmode htag hopen hfind hpass
  subst hmode
  subst htag
  obtain ⟨b, hrun, hat⟩ := KvStore.construct_kept (if 0 < size then size else defaultMemorySize)
    s.host ⟨seg, m, hseg, hmap⟩ hopen hfind hpass
  have hreboot : s.reboot .kill ⟨size, .persistent, tag, outcomes⟩ =
      { kv := b.kv, host := b.host } := by
    unfold reboot
    dsimp only [finish]
    rw [hrun]
  rw [hreboot]
  have hname : b.kv.segmentName .persistent = segmentNameOf .persistent tag := hat.name
  have hmode : b.kv.storageMode = .persistent := hat.mode
  have hmutexName : b.kv.mutexName = mutexNameOf tag := hat.mutexName
  refine ⟨hmode.trans h.mode.symm, ?_, hmutexName.trans h.mutexName.symm, ?_, ?_, ?_, ?_⟩
  · rw [hmode, h.mode, hname, h.name]
  · rw [hmode, h.mode, hptr]
    exact hat.mapPtr
  · rw [hmode, h.mode, hstorage]
    exact hat.storage
  · rw [hmode, h.mode, hname, h.name]
    exact hat.image
  · rw [hmutexName, h.mutexName, hmutex]
    exact hat.mutex

theorem Alike.serve (ha : s.Alike s') (hs : s.Serving) (env : MemEnv) (op : StoreOp) :
    (s.serve env op).1 = (s'.serve env op).1 ∧
      (s.serve env op).2.Alike (s'.serve env op).2 := by
  cases op with
  | find key => exact ⟨congrArg Reply.value (ha.find key), ha⟩
  | insert key value => exact ⟨rfl, ha.write hs env (.insert key value)⟩
  | update key newValue => exact ⟨rfl, ha.write hs env (.update key newValue)⟩
  | delete key => exact ⟨rfl, ha.write hs env (.delete key)⟩

theorem UpAs.serve (h : s.UpAs nodeTag) (env : MemEnv) (op : StoreOp) :
    (s.serve env op).2.UpAs nodeTag := by
  cases op with
  | find key => exact h
  | insert key value => exact h.write env (.insert key value)
  | update key newValue => exact h.write env (.update key newValue)
  | delete key => exact h.write env (.delete key)

end Server

/-! ### Clusters that do the same -/

/-- What memory a store finds depends on nothing but what it works with. -/
def Conditions.Fair (c : Conditions) : Prop :=
  ∀ r s s', s.Alike s' → c.memory r s = c.memory r s'

namespace Cluster

/-- Servers that do the same at every endpoint, and that are up. -/
structure Alike (tag : Endpoint → Bytes) (a b : Cluster) : Prop where
  alike : ∀ e, (a e).Alike (b e)
  up : ∀ e, (a e).UpAs (tag e)

variable {tag : Endpoint → Bytes} {a b : Cluster} {c : Conditions}

theorem Alike.serve (h : a.Alike tag b) (hc : c.Fair) (e : Endpoint) (r : Request) :
    (a.serve c e r).1 = (b.serve c e r).1 ∧ (a.serve c e r).2.Alike tag (b.serve c e r).2 := by
  unfold Cluster.serve
  dsimp only
  rw [← hc r (a e) (b e) (h.alike e)]
  obtain ⟨hreply, halike⟩ := (h.alike e).serve (h.up e).toServing (c.memory r (a e)) r.op
  refine ⟨hreply, ?_, ?_⟩
  · intro e'
    by_cases he : e' = e
    · subst he
      rw [Function.update_self, Function.update_self]
      exact halike
    · rw [Function.update_of_ne he, Function.update_of_ne he]
      exact h.alike e'
  · intro e'
    by_cases he : e' = e
    · subst he
      rw [Function.update_self]
      exact (h.up e').serve _ _
    · rw [Function.update_of_ne he]
      exact h.up e'

theorem Alike.handle (h : a.Alike tag b) (hc : c.Fair) (attached : Endpoint) (r : Request) :
    (a.handle c attached r).1 = (b.handle c attached r).1 ∧
      (a.handle c attached r).2.Alike tag (b.handle c attached r).2 := by
  unfold Cluster.handle
  cases r.target with
  | attached => exact h.serve hc attached r
  | remote endpoint =>
      dsimp only
      cases c.fate r with
      | answered => exact h.serve hc endpoint r
      | unanswered => exact ⟨rfl, (h.serve hc endpoint r).2⟩
      | lost => exact ⟨rfl, h⟩

end Cluster

namespace Clients

variable {κ : Type} [DecidableEq κ] {tag : Endpoint → Bytes} {a b : Clients κ}

/-- A turn of the same clients on servers that do the same. -/
theorem step_alike (hclient : a.client = b.client) (h : a.cluster.Alike tag b.cluster)
    (turn : Turn κ) (hfair : ∀ i c, turn = .advance i c → c.Fair) :
    (a.step turn).client = (b.step turn).client ∧
      (a.step turn).cluster.Alike tag (b.step turn).cluster := by
  obtain ⟨client, cluster⟩ := a
  obtain ⟨_, cluster'⟩ := b
  cases hclient
  cases turn with
  | begin i op =>
      unfold step
      dsimp only
      cases (client i).running with
      | some call => exact ⟨rfl, h⟩
      | none => exact ⟨rfl, h⟩
  | advance i c =>
      unfold step
      dsimp only
      rcases (client i).running with _ | ⟨op, r | ⟨r, k⟩⟩
      · exact ⟨rfl, h⟩
      · exact ⟨rfl, h⟩
      · obtain ⟨hreply, hcluster⟩ := h.handle (hfair i c rfl) (client i).attached r
        exact ⟨by dsimp only; rw [hreply], hcluster⟩

end Clients

namespace System

variable {κ : Type} [DecidableEq κ] [Fintype κ] {config : NodeId → GossipConfig}
  {setting : κ → Setting} {tag : Endpoint → Bytes} {s t : System κ} {e : SystemEvent κ}

/-- Two systems with nothing but stores that do the same to tell them apart. -/
structure Like (tag : Endpoint → Bytes) (s t : System κ) : Prop where
  network : s.network = t.network
  thread : s.thread = t.thread
  client : s.clients.client = t.clients.client
  cluster : s.clients.cluster.Alike tag t.clients.cluster

/-- Of a server that ends and comes up again, its part in the gossip alone ends. -/
def sparing : SystemEvent κ → SystemEvent κ
  | .reboot i _ _ => .gossip (.crash i)
  | e => e

/-- Servers end by being killed while no client has their segment mapped, and come up in the same
place. -/
def Kills (config : NodeId → GossipConfig) (tag : Endpoint → Bytes) (s : System κ) :
    SystemEvent κ → Prop
  | .turn (.advance _ c) => c.Fair
  | .reboot i ending boot =>
      ending = .kill ∧ boot.Smooth (tag (storeOf config i)) ∧ ¬ s.Mapped (storeOf config i)
  | _ => True

/-- A kill is the loss of a membership. -/
theorem Like.reboot (h : Like tag s t) {i : NodeId} {boot : Boot}
    (hboot : boot.Smooth (tag (storeOf config i))) (hmapped : ¬ s.Mapped (storeOf config i)) :
    Like tag (s.step config setting (.reboot i .kill boot))
      (t.step config setting (.gossip (.crash i))) := by
  unfold System.step
  dsimp only
  rw [if_neg hmapped]
  have hbefore := h.cluster.alike (storeOf config i)
  have hafter := (h.cluster.up (storeOf config i)).alike_reboot hboot
  refine ⟨congrArg (fun n => n.step config (.crash i)) h.network, h.thread, h.client, ?_, ?_⟩
  · intro e
    dsimp only
    by_cases heq : e = storeOf config i
    · rw [heq, Function.update_self]
      exact hafter.trans hbefore
    · rw [Function.update_of_ne heq]
      exact h.cluster.alike e
  · intro e
    dsimp only
    by_cases heq : e = storeOf config i
    · rw [heq, Function.update_self]
      exact (h.cluster.up _).of_alike hafter.symm
    · rw [Function.update_of_ne heq]
      exact h.cluster.up e

theorem Like.step (h : Like tag s t) (he : Kills config tag s e) :
    Like tag (s.step config setting e) (t.step config setting (sparing e)) := by
  obtain ⟨network, ⟨client, cluster⟩, thread⟩ := s
  obtain ⟨_, ⟨_, cluster'⟩, _⟩ := t
  obtain ⟨hnetwork, hthread, hclient, hcluster⟩ := h
  cases hnetwork
  cases hthread
  cases hclient
  cases e with
  | gossip e => exact ⟨rfl, rfl, rfl, hcluster⟩
  | turn turn =>
      obtain ⟨hsame, halike⟩ := Clients.step_alike (a := ⟨client, cluster⟩)
        (b := ⟨client, cluster'⟩) rfl hcluster turn (by rintro i c rfl; exact he)
      exact ⟨rfl, rfl, hsame, halike⟩
  | reboot i ending boot =>
      obtain ⟨rfl, hboot, hmapped⟩ := he
      have hlike : Like tag ⟨network, ⟨client, cluster⟩, thread⟩
          ⟨network, ⟨client, cluster'⟩, thread⟩ := ⟨rfl, rfl, rfl, hcluster⟩
      exact hlike.reboot hboot hmapped
  | getAllEndpoints i =>
      unfold System.step sparing
      dsimp only
      rcases thread i with (_ | ⟨endpoint, rest⟩) | ⟨members, rest⟩
      · dsimp only
        have hsame : System.unlocked ⟨network, ⟨client, cluster⟩, thread⟩ i =
            System.unlocked ⟨network, ⟨client, cluster'⟩, thread⟩ i := rfl
        rw [hsame]
        split
        · exact ⟨rfl, rfl, rfl, hcluster⟩
        · exact ⟨rfl, rfl, rfl, hcluster⟩
      · exact ⟨rfl, rfl, rfl, hcluster⟩
      · exact ⟨rfl, rfl, rfl, hcluster⟩
  | getMembership i server =>
      unfold System.step sparing
      dsimp only [membershipAt]
      rcases thread i with (_ | ⟨endpoint, rest⟩) | ⟨members, rest⟩
      · exact ⟨rfl, rfl, rfl, hcluster⟩
      · cases server with
        | none => exact ⟨rfl, rfl, rfl, hcluster⟩
        | some j =>
            dsimp only
            split
            · exact ⟨rfl, rfl, rfl, hcluster⟩
            · exact ⟨rfl, rfl, rfl, hcluster⟩
      · exact ⟨rfl, rfl, rfl, hcluster⟩
  | fetchMembership i =>
      unfold System.step sparing
      dsimp only
      rcases thread i with rest | ⟨members, rest⟩
      · exact ⟨rfl, rfl, rfl, hcluster⟩
      · dsimp only
        rcases (client i).dist.fetchMembershipFromServer (some members) with ⟨_ | _, d⟩
        · exact ⟨rfl, rfl, rfl, hcluster⟩
        · dsimp only
          have hsame : System.unlocked ⟨network, ⟨client, cluster⟩, thread⟩ i =
              System.unlocked ⟨network, ⟨client, cluster'⟩, thread⟩ i := rfl
          rw [hsame]
          split
          · exact ⟨rfl, rfl, rfl, hcluster⟩
          · exact ⟨rfl, rfl, rfl, hcluster⟩

/-- **Kills leave no trace in the stores.**  In a run whose servers are up in persistent mode at
first, and end in no other way than by being killed and come up in the same place, every client is
at every moment where it would be had every server lost its membership only, and every store has
for every key what it would have. -/
theorem kills_leave_no_trace (config : NodeId → GossipConfig) (setting : κ → Setting)
    (cluster : Cluster) (tag : Endpoint → Bytes) (hup : ∀ e, (cluster e).UpAs (tag e))
    (es : List (SystemEvent κ))
    (hes : Along (step config setting) (Kills config tag) (start setting cluster) es) :
    (run (step config setting) (start setting cluster) es).clients.client =
        (run (step config setting) (start setting cluster) (es.map sparing)).clients.client ∧
      ∀ endpoint key,
        ((run (step config setting) (start setting cluster) es).clients.cluster endpoint).find key =
          ((run (step config setting) (start setting cluster)
            (es.map sparing)).clients.cluster endpoint).find key := by
  have hstart : Like tag (start setting cluster) (start setting cluster) :=
    ⟨rfl, rfl, rfl, fun _ => Server.Alike.refl, hup⟩
  have hend : Like tag (run (step config setting) (start setting cluster) es)
      (run (step config setting) (start setting cluster) (es.map sparing)) :=
    hes.relates (fun _ _ _ he h => h.step he) hstart
  exact ⟨hend.client, fun endpoint key => (hend.cluster.alike endpoint).find key⟩

/-- A client of a store on another machine. -/
def fromAfar (_ : Unit) : Setting where
  protocol := str "tcp"
  endpoints := [str "a"]
  localIp := str "b"
  attached := str "b"

/-- Its server gossips, is killed after a write and comes up before a read. -/
def killedBetween : List (SystemEvent Unit) :=
  [.gossip (.construct 0 0 0), .turn (.begin () (.insert 1 (str "x"))), .turn (.advance () .fine),
   .turn (.advance () .fine), .reboot 0 .kill ⟨100, .persistent, str "8080", []⟩,
   .gossip (.construct 0 1 9), .turn (.begin () (.get 1)), .turn (.advance () .fine)]

theorem fair_fine : Conditions.fine.Fair := fun _ _ _ _ => rfl

theorem kills_leave_no_trace_between :
    ((run (step twoEndpoints fromAfar) (start fromAfar fun _ => Server.server8080)
        killedBetween).clients.cluster (str "a")).find 1 =
      ((run (step twoEndpoints fromAfar) (start fromAfar fun _ => Server.server8080)
        (killedBetween.map sparing)).clients.cluster (str "a")).find 1 := by
  refine (kills_leave_no_trace twoEndpoints fromAfar (fun _ => Server.server8080)
    (fun _ => str "8080") (fun _ => ⟨⟨⟨⟨∅, rfl⟩, rfl⟩, rfl⟩, rfl, rfl, rfl⟩) killedBetween ?_).2
    (str "a") 1
  have hsmooth : Boot.Smooth (str "8080") ⟨100, .persistent, str "8080", []⟩ :=
    ⟨rfl, rfl, trivial, trivial, trivial⟩
  refine ⟨trivial, trivial, fair_fine, fair_fine, ⟨rfl, hsmooth, ?_⟩, trivial, trivial, fair_fine,
    trivial⟩
  decide

end System

end DistKV
