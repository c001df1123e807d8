/-
Clients that take turns.

While a write is on its way from the primary to the buddy, the primary is ahead by what
it has carried out and the buddy has not.  If no write overtakes another one where that
makes a difference, the buddy catches up, and when no call is in progress the two
replicas of a key hold the same.  A `get` that writes back what it found at the buddy
does no harm as long as the key is at the primary by then.
-/
import DistKV.Clients
import DistKV.Proofs.Start
import DistKV.Lib.Run

namespace DistKV

open Replica Machine

/-- What a write does to the entry of its key at a node that carries it out. -/
def Op.stored (op : Op) : Option (Write Bytes) := op.storeOp.bind StoreOp.write

theorem Op.eq_deleteKey {op : Op} (h : op.stored = some .delete) : op = .deleteKey op.key := by
  cases op with
  | insert key value => cases h
  | update key value => cases h
  | deleteKey key => rfl
  | get key => cases h

theorem Op.stored_of_storeOp {op : Op} {request : StoreOp} (h : op.storeOp = some request) :
    request.key = op.key ∧ ∃ w, request.write = some w ∧ op.stored = some w := by
  cases op with
  | insert key value => cases h; exact ⟨rfl, _, rfl, rfl⟩
  | update key value => cases h; exact ⟨rfl, _, rfl, rfl⟩
  | deleteKey key => cases h; exact ⟨rfl, _, rfl, rfl⟩
  | get key => cases h

/-- The ring of a map. -/
def ringOf (m : NodeMap) (V : Int) : ConsistentHashRing := ({} : ConsistentHashRing).rebuild m V

namespace Clients

variable {κ : Type} {D : Deployment} {V : Int} {m : NodeMap}

/-- What one of the clients sees. -/
def view (s : Clients κ) (i : κ) : Session where
  dist := (s.client i).dist
  attached := (s.client i).attached
  cluster := s.cluster

/-- The call that a client has in progress. -/
def calling (s : Clients κ) (i : κ) : Option Op := (s.client i).running.map Prod.fst

/-- The key that a client is about to write back, with its next request. -/
def writingBack (s : Clients κ) (i : κ) : Option Key :=
  match (s.client i).running with
  | some (.get key, .request r _) =>
      match r.op with
      | .insert _ _ => some key
      | _ => none
  | _ => none

/-- Clients over one and the same ring, and servers that are up. -/
structure Sharing (D : Deployment) (V : Int) (m : NodeMap) (s : Clients κ) : Prop where
  ring : ∀ i, (s.client i).dist.hashRing = ringOf m V
  map : ∀ i, (s.client i).dist.nodeToIp = m
  locates : D.Locates m
  attached : ∀ i, 0 ≤ (s.client i).dist.localNodeId →
    (s.client i).attached = D.endpoint (s.client i).dist.localNodeId
  up : ∀ e, (s.cluster e).Up

/-- Primary and buddy of every key lack it both, or hold the same value. -/
def Agree (D : Deployment) (V : Int) (m : NodeMap) (s : Clients κ) : Prop :=
  ∀ key, s.cluster.column D key ((ringOf m V).getPrimaryNode key) =
    s.cluster.column D key ((ringOf m V).getBuddyNode key)

variable {s : Clients κ} {i j : κ} {c : Conditions}

/-- A ring that gives every key two replicas. -/
structure TwoReplicas (r : ConsistentHashRing) (m : NodeMap) : Prop where
  primary : ∀ key, r.getPrimaryNode key ∈ m
  buddy : ∀ key, r.getBuddyNode key ∈ m
  distinct : ∀ key, r.getBuddyNode key ≠ r.getPrimaryNode key

theorem twoReplicas (hV : 1 ≤ V) {a b : NodeId} (ha : a ∈ m) (hb : b ∈ m) (hab : a ≠ b) :
    TwoReplicas (ringOf m V) m where
  primary := ConsistentHashRing.primary_mem hV ha
  buddy := ConsistentHashRing.buddy_mem hV ha
  distinct := by
    intro key
    refine (ConsistentHashRing.buddy_ne_primary_iff hV key).mpr ?_
    by_cases h : a = (ringOf m V).getPrimaryNode key
    · exact ⟨b, hb, fun hbp => hab (h.trans hbp.symm)⟩
    · exact ⟨a, ha, h⟩

/-- What is left of a `get` whose primary had nothing to say. -/
def fallback (d : KVDistributor) (key : Key) (p b : NodeId) :
    Prog Request Reply (Option Bytes × KVDistributor) :=
  .request (d.requestTo b (.find key)) fun a =>
    match KVDistributor.found a with
    | some value => .request (d.requestTo p (.insert key value)) fun _ => .done (some value, d)
    | none => .done (some rpcFailed, d)

namespace Sharing

theorem wired (hs : s.Sharing D V m) (i : κ) : (s.view i).Wired D V where
  ring := ⟨{}, by
    show (s.client i).dist.hashRing = ({} : ConsistentHashRing).rebuild (s.client i).dist.nodeToIp V
    rw [hs.map i, hs.ring i]
    rfl⟩
  map := by
    show D.Locates (s.client i).dist.nodeToIp
    rw [hs.map i]
    exact hs.locates
  attached := hs.attached i
  up := hs.up

theorem mem (hs : s.Sharing D V m) {n : NodeId} (hn : n ∈ m) (i : κ) :
    n ∈ (s.view i).dist.nodeToIp := by
  show n ∈ (s.client i).dist.nodeToIp
  rw [hs.map i]
  exact hn

theorem primary_eq (hs : s.Sharing D V m) (i : κ) (key : Key) :
    (s.client i).dist.primary key = (ringOf m V).getPrimaryNode key :=
  congrArg (ConsistentHashRing.getPrimaryNode · key) (hs.ring i)

theorem buddy_eq (hs : s.Sharing D V m) (i : κ) (key : Key) :
    (s.client i).dist.buddy key = (ringOf m V).getBuddyNode key :=
  congrArg (ConsistentHashRing.getBuddyNode · key) (hs.ring i)

/-- A client's replicas are nodes it knows. -/
theorem known (hs : s.Sharing D V m) (hr : TwoReplicas (ringOf m V) m) (i : κ) (key : Key) :
    (s.client i).dist.Known ((s.client i).dist.primary key) ∧
      (s.client i).dist.Known ((s.client i).dist.buddy key) := by
  rw [hs.primary_eq i, hs.buddy_eq i]
  exact ⟨(hs.wired i).known (hs.mem (hr.primary key) i),
    (hs.wired i).known (hs.mem (hr.buddy key) i)⟩

/-- The program of a client's `get`. -/
theorem perform_get (hs : s.Sharing D V m) (hr : TwoReplicas (ringOf m V) m) {i : κ} {key : Key} :
    (Op.get key).perform.run (s.client i).dist =
      .request ((s.client i).dist.requestTo ((ringOf m V).getPrimaryNode key) (.find key))
        fun a =>
          match KVDistributor.found a with
          | some value => .done (some value, (s.client i).dist)
          | none => fallback (s.client i).dist key ((ringOf m V).getPrimaryNode key)
              ((ringOf m V).getBuddyNode key) := by
  rcases hs.known hr i key with ⟨hp, hb⟩
  rw [KVDistributor.run_get hp hb, hs.primary_eq i, hs.buddy_eq i]
  unfold KVDistributor.getProgram
  simp only [if_neg (hr.distinct key)]
  rfl

/-- The program of a client's write. -/
theorem perform_write (hs : s.Sharing D V m) (hr : TwoReplicas (ringOf m V) m) {i : κ} {op : Op}
    {request : StoreOp} (hw : op.storeOp = some request) :
    op.perform.run (s.client i).dist =
      .request ((s.client i).dist.requestTo ((ringOf m V).getPrimaryNode op.key) request) fun _ =>
        .request ((s.client i).dist.requestTo ((ringOf m V).getBuddyNode op.key) request) fun _ =>
          .done (none, (s.client i).dist) := by
  rcases hs.known hr i op.key with ⟨hp, hb⟩
  rw [KVDistributor.run_write hw hp hb, hs.primary_eq i, hs.buddy_eq i]
  unfold KVDistributor.writeProgram
  simp only [if_neg (hr.distinct op.key)]

/-- A write request of a client is carried out at its node. -/
theorem column_write (hs : s.Sharing D V m) (hc : c.Ample) (hd : c.Delivered) {n : NodeId}
    (hn : n ∈ m) {request : StoreOp} {w : Write Bytes} (hw : request.write = some w) (key : Key) :
    (s.cluster.handle c (s.client i).attached
        ((s.client i).dist.requestTo n request)).2.column D key =
      if key = request.key then
        Function.update (s.cluster.column D key) n (w.apply (s.cluster.column D key n))
      else s.cluster.column D key := by
  have hwired := hs.wired i
  have htakes := (Session.serves_of_smooth hc hd (s.view i).dist n).takes hwired request
  refine (Session.handle_write (c := c) hwired (hs.mem hn i) hs.up hw key).trans ?_
  unfold put
  rw [show Session.takes c D (s.view i).dist s.cluster request n = true from htakes, if_pos rfl]

/-- A read changes no server. -/
theorem handle_find (hs : s.Sharing D V m) {n : NodeId} (hn : n ∈ m) (key : Key) :
    (s.cluster.handle c (s.client i).attached
      ((s.client i).dist.requestTo n (.find key))).2 = s.cluster :=
  Session.handle_find (hs.wired i) (hs.mem hn i) key s.cluster

/-- Nor does the insert of a key that is there. -/
theorem handle_insert_present (hs : s.Sharing D V m) {n : NodeId} (hn : n ∈ m) {key : Key}
    (h : s.cluster.column D key n ≠ none) (value : Bytes) :
    (s.cluster.handle c (s.client i).attached
      ((s.client i).dist.requestTo n (.insert key value))).2 = s.cluster :=
  Session.handle_insert_present (hs.wired i) (hs.mem hn i) h value

theorem up_handle (hs : s.Sharing D V m) {n : NodeId} (hn : n ∈ m) (request : StoreOp)
    (e : Endpoint) :
    ((s.cluster.handle c (s.client i).attached
      ((s.client i).dist.requestTo n request)).2 e).Up :=
  Session.handle_up (hs.wired i) (hs.mem hn i) hs.up request e

end Sharing

/-! ### Writes on their way -/

/-- Clients, and the writes that have been carried out at the primary and not yet at the
buddy, in the order in which the primary carried them out. -/
abbrev Watched (κ : Type) := Clients κ × List (κ × Op)

/-- The writes of a key that are on their way. -/
def onTheWay (q : List (κ × Op)) (key : Key) : List (Write Bytes) :=
  q.filterMap fun e => if e.2.key = key then e.2.stored else none

theorem onTheWay_append (q q' : List (κ × Op)) (key : Key) :
    onTheWay (q ++ q') key = onTheWay q key ++ onTheWay q' key := List.filterMap_append

theorem onTheWay_cons {i : κ} {op : Op} {w : Write Bytes} (hw : op.stored = some w)
    (q : List (κ × Op)) (key : Key) :
    onTheWay ((i, op) :: q) key = if op.key = key then w :: onTheWay q key else onTheWay q key := by
  unfold onTheWay
  by_cases hk : op.key = key
  · simp [hk, hw]
  · simp [hk]

theorem mem_onTheWay {q : List (κ × Op)} {key : Key} {w : Write Bytes}
    (h : w ∈ onTheWay q key) : ∃ e ∈ q, e.2.key = key ∧ e.2.stored = some w := by
  rcases List.mem_filterMap.mp h with ⟨e, he, hw⟩
  by_cases hk : e.2.key = key
  · rw [if_pos hk] at hw
    exact ⟨e, he, hk, hw⟩
  · rw [if_neg hk] at hw
    cases hw

/-! ### Where a call has got to -/

variable {t : Watched κ} {q : List (κ × Op)} {key : Key} {op : Op}

/-- The points of a client's program, and what is known at each. -/
inductive Stage (r : ConsistentHashRing) (q : List (κ × Op)) (i : κ) (client : Client) :
    Prop where
  | idle (hrun : client.running = none) (hq : ∀ op, (i, op) ∉ q)
  | begun (op : Op) (hrun : client.running = some (op, op.perform.run client.dist))
      (hq : ∀ op, (i, op) ∉ q)
  | replicating (op : Op) (w : StoreOp) (hw : op.storeOp = some w)
      (hrun : client.running = some (op, .request
        (client.dist.requestTo (r.getBuddyNode op.key) w) fun _ => .done (none, client.dist)))
      (hq : (i, op) ∈ q)
  | fallingBack (key : Key)
      (hrun : client.running = some (.get key,
        fallback client.dist key (r.getPrimaryNode key) (r.getBuddyNode key)))
      (hq : ∀ op, (i, op) ∉ q)
  | writingBack (key : Key) (value : Bytes)
      (hrun : client.running = some (.get key, .request
        (client.dist.requestTo (r.getPrimaryNode key) (.insert key value))
          fun _ => .done (some value, client.dist)))
      (hq : ∀ op, (i, op) ∉ q)
  | returning (op : Op) (result : Option Bytes)
      (hrun : client.running = some (op, .done (result, client.dist)))
      (hq : ∀ op, (i, op) ∉ q)

/-- What every turn keeps. -/
structure Tracked (D : Deployment) (V : Int) (m : NodeMap) (t : Watched κ) : Prop where
  sharing : t.1.Sharing D V m
  stage : ∀ i, Stage (ringOf m V) t.2 i (t.1.client i)
  nodup : (t.2.map Prod.fst).Nodup
  ahead : ∀ key, t.1.cluster.column D key ((ringOf m V).getPrimaryNode key) =
    carry (onTheWay t.2 key) (t.1.cluster.column D key ((ringOf m V).getBuddyNode key))

namespace Tracked

/-- A write on its way is the call that its client has in progress. -/
theorem calling_of_mem (h : Tracked D V m t) (hmem : (i, op) ∈ t.2) :
    t.1.calling i = some op := by
  cases h.stage i with
  | idle hrun hq => exact absurd hmem (hq op)
  | begun op' hrun hq => exact absurd hmem (hq op)
  | replicating op' w hw hrun hq =>
      have heq : (i, op) = (i, op') := List.inj_on_of_nodup_map h.nodup hmem hq rfl
      rw [(Prod.mk.inj heq).2]
      unfold calling
      rw [hrun]
      rfl
  | fallingBack key hrun hq => exact absurd hmem (hq op)
  | writingBack key value hrun hq => exact absurd hmem (hq op)
  | returning op' result hrun hq => exact absurd hmem (hq op)

theorem not_mem_of_idle (h : Tracked D V m t) (hrun : (t.1.client i).running = none) (op : Op) :
    (i, op) ∉ t.2 := by
  intro hmem
  have hcalling := h.calling_of_mem hmem
  unfold calling at hcalling
  rw [hrun] at hcalling
  cases hcalling

end Tracked

/-! ### Turns -/

variable [DecidableEq κ]

/-- A write that has made a request and has another one to make is on its way. -/
def watch (t : Watched κ) : Turn κ → Watched κ
  | .begin i op => (t.1.step (.begin i op), t.2)
  | .advance i c =>
      (t.1.step (.advance i c),
        match (t.1.client i).running with
        | some (op, .request r k) =>
            match op.storeOp, k (t.1.cluster.handle c (t.1.client i).attached r).1 with
            | some _, .request _ _ => t.2 ++ [(i, op)]
            | _, _ => t.2.erase (i, op)
        | _ => t.2)

/-- Watching the clients does not disturb them. -/
theorem run_watch (t : Watched κ) (turns : List (Turn κ)) :
    (run watch t turns).1 = run step t.1 turns := by
  induction turns generalizing t with
  | nil => rfl
  | cons turn turns ih =>
      rw [run_cons, run_cons, ih]
      cases turn with
      | begin i op => rfl
      | advance i c => rfl

/-- Every request is delivered, and none is rejected for memory. -/
def Delivers (_ : Watched κ) : Turn κ → Prop
  | .begin _ _ => True
  | .advance _ c => c.Ample ∧ c.Delivered

/-- A write that reaches the buddy before others of its key that were first at the primary
may do so: from what the buddy holds, they lead to the same whether it comes before them
or after them. -/
def KeepsOrder (D : Deployment) (V : Int) (m : NodeMap) (t : Watched κ) : Turn κ → Prop
  | .begin _ _ => True
  | .advance i _ => ∀ op ws ws' w, t.2 = ws ++ (i, op) :: ws' → op.stored = some w →
      carry (onTheWay ws op.key)
          (w.apply (t.1.cluster.column D op.key ((ringOf m V).getBuddyNode op.key))) =
        w.apply (carry (onTheWay ws op.key)
          (t.1.cluster.column D op.key ((ringOf m V).getBuddyNode op.key)))

/-- A `get` that writes back what it found at the buddy finds the key at the primary. -/
def RevivesNothing (D : Deployment) (V : Int) (m : NodeMap) (t : Watched κ) : Turn κ → Prop
  | .begin _ _ => True
  | .advance i _ => ∀ key, t.1.writingBack i = some key →
      t.1.cluster.column D key ((ringOf m V).getPrimaryNode key) ≠ none

namespace Tracked

/-- A turn of client `i` that leaves the clients tracked, whatever it does. -/
theorem replace (h : Tracked D V m t) {client : Client} {cluster : Cluster}
    {q : List (κ × Op)} (hdist : client.dist = (t.1.client i).dist)
    (hattached : client.attached = (t.1.client i).attached)
    (hup : ∀ e, (cluster e).Up) (hstage : Stage (ringOf m V) q i client)
    (hnodup : (q.map Prod.fst).Nodup) (hq : ∀ j, j ≠ i → ∀ op, (j, op) ∈ q ↔ (j, op) ∈ t.2)
    (hahead : ∀ key, cluster.column D key ((ringOf m V).getPrimaryNode key) =
      carry (onTheWay q key) (cluster.column D key ((ringOf m V).getBuddyNode key))) :
    Tracked D V m (⟨Function.update t.1.client i client, cluster⟩, q) where
  sharing := by
    have hsame : ∀ j, (Function.update t.1.client i client j).dist = (t.1.client j).dist ∧
        (Function.update t.1.client i client j).attached = (t.1.client j).attached := by
      intro j
      by_cases hj : j = i
      · rw [hj, Function.update_self]
        exact ⟨hdist, hattached⟩
      · rw [Function.update_of_ne hj]
        exact ⟨rfl, rfl⟩
    refine ⟨fun j => ?_, fun j => ?_, h.sharing.locates, fun j hlocal => ?_, hup⟩
    · exact (congrArg KVDistributor.hashRing (hsame j).1).trans (h.sharing.ring j)
    · exact (congrArg KVDistributor.nodeToIp (hsame j).1).trans (h.sharing.map j)
    · change 0 ≤ (Function.update t.1.client i client j).dist.localNodeId at hlocal
      show (Function.update t.1.client i client j).attached =
        D.endpoint (Function.update t.1.client i client j).dist.localNodeId
      rw [(hsame j).1] at hlocal
      rw [(hsame j).1, (hsame j).2]
      exact h.sharing.attached j hlocal
  stage := by
    intro j
    show Stage (ringOf m V) q j (Function.update t.1.client i client j)
    by_cases hj : j = i
    · rw [hj, Function.update_self]
      exact hstage
    · rw [Function.update_of_ne hj]
      have hnot : (∀ op, (j, op) ∉ t.2) → ∀ op, (j, op) ∉ q :=
        fun hno op hmem => hno op ((hq j hj op).mp hmem)
      cases h.stage j with
      | idle hrun hno => exact .idle hrun (hnot hno)
      | begun op hrun hno => exact .begun op hrun (hnot hno)
      | replicating op w hw hrun hmem => exact .replicating op w hw hrun ((hq j hj op).mpr hmem)
      | fallingBack key hrun hno => exact .fallingBack key hrun (hnot hno)
      | writingBack key value hrun hno => exact .writingBack key value hrun (hnot hno)
      | returning op result hrun hno => exact .returning op result hrun (hnot hno)
  nodup := hnodup
  ahead := hahead

/-- A turn that changes no server and puts no write on its way. -/
theorem move (h : Tracked D V m t) {client : Client}
    (hdist : client.dist = (t.1.client i).dist)
    (hattached : client.attached = (t.1.client i).attached)
    (hstage : Stage (ringOf m V) t.2 i client) :
    Tracked D V m (⟨Function.update t.1.client i client, t.1.cluster⟩, t.2) :=
  h.replace hdist hattached h.sharing.up hstage h.nodup (fun _ _ _ => Iff.rfl) h.ahead

/-- A client begins its next call. -/
theorem begin (h : Tracked D V m t) : Tracked D V m (watch t (.begin i op)) := by
  cases hrun : (t.1.client i).running with
  | some call =>
      have hsame : watch t (.begin i op) = t := by
        unfold watch step
        simp only [hrun]
      rw [hsame]
      exact h
  | none =>
      have hwatch : watch t (.begin i op) =
          (⟨Function.update t.1.client i { t.1.client i with
            running := some (op, op.perform.run (t.1.client i).dist) }, t.1.cluster⟩, t.2) := by
        unfold watch step
        simp only [hrun]
      rw [hwatch]
      exact h.move rfl rfl (.begun op rfl (h.not_mem_of_idle hrun))

/-- What a turn does that carries out a request. -/
theorem watch_request {r : Request} {k : Reply → Prog Request Reply (Option Bytes × KVDistributor)}
    (hrun : (t.1.client i).running = some (op, .request r k)) :
    watch t (.advance i c) =
      (⟨Function.update t.1.client i { t.1.client i with
          running := some (op, k (t.1.cluster.handle c (t.1.client i).attached r).1) },
        (t.1.cluster.handle c (t.1.client i).attached r).2⟩,
        match op.storeOp, k (t.1.cluster.handle c (t.1.client i).attached r).1 with
        | some _, .request _ _ => t.2 ++ [(i, op)]
        | _, _ => t.2.erase (i, op)) := by
  unfold watch step
  simp only [hrun]

/-- A read, or a request that changes nothing: the client just goes on. -/
theorem go_on (h : Tracked D V m t) {r : Request}
    {k : Reply → Prog Request Reply (Option Bytes × KVDistributor)}
    (hrun : (t.1.client i).running = some (.get key, .request r k))
    (hq : ∀ op, (i, op) ∉ t.2)
    (hcluster : (t.1.cluster.handle c (t.1.client i).attached r).2 = t.1.cluster)
    (hstage : Stage (ringOf m V) t.2 i { t.1.client i with
      running := some (.get key, k (t.1.cluster.handle c (t.1.client i).attached r).1) }) :
    Tracked D V m (watch t (.advance i c)) := by
  rw [watch_request hrun, hcluster]
  dsimp only [Op.storeOp]
  rw [List.erase_of_not_mem (hq (.get key))]
  exact h.move rfl rfl hstage

/-- The first request of a `get`. -/
theorem read_primary (h : Tracked D V m t) (hr : TwoReplicas (ringOf m V) m)
    (hrun : (t.1.client i).running =
      some (.get key, (Op.get key).perform.run (t.1.client i).dist))
    (hq : ∀ op, (i, op) ∉ t.2) : Tracked D V m (watch t (.advance i c)) := by
  rw [h.sharing.perform_get hr] at hrun
  refine h.go_on hrun hq (h.sharing.handle_find (hr.primary key) key) ?_
  cases hfound : KVDistributor.found (t.1.cluster.handle c (t.1.client i).attached
      ((t.1.client i).dist.requestTo ((ringOf m V).getPrimaryNode key) (.find key))).1 with
  | some value => exact .returning (.get key) (some value) rfl hq
  | none => exact .fallingBack key rfl hq

/-- The second request of a `get`. -/
theorem read_buddy (h : Tracked D V m t) (hr : TwoReplicas (ringOf m V) m)
    (hrun : (t.1.client i).running = some (.get key, fallback (t.1.client i).dist key
      ((ringOf m V).getPrimaryNode key) ((ringOf m V).getBuddyNode key)))
    (hq : ∀ op, (i, op) ∉ t.2) : Tracked D V m (watch t (.advance i c)) := by
  unfold fallback at hrun
  refine h.go_on hrun hq (h.sharing.handle_find (hr.buddy key) key) ?_
  cases hfound : KVDistributor.found (t.1.cluster.handle c (t.1.client i).attached
      ((t.1.client i).dist.requestTo ((ringOf m V).getBuddyNode key) (.find key))).1 with
  | some value => exact .writingBack key value rfl hq
  | none => exact .returning (.get key) (some rpcFailed) rfl hq

/-- The write back of a `get` that finds the key at the primary. -/
theorem write_back (h : Tracked D V m t) (hr : TwoReplicas (ringOf m V) m) {value : Bytes}
    (hrun : (t.1.client i).running = some (.get key, .request ((t.1.client i).dist.requestTo
      ((ringOf m V).getPrimaryNode key) (.insert key value))
        fun _ => .done (some value, (t.1.client i).dist)))
    (hq : ∀ op, (i, op) ∉ t.2)
    (hheld : t.1.cluster.column D key ((ringOf m V).getPrimaryNode key) ≠ none) :
    Tracked D V m (watch t (.advance i c)) :=
  h.go_on hrun hq (h.sharing.handle_insert_present (hr.primary key) hheld value)
    (.returning (.get key) (some value) rfl hq)

/-- A call returns. -/
theorem finish (h : Tracked D V m t) {result : Option Bytes}
    (hrun : (t.1.client i).running = some (op, .done (result, (t.1.client i).dist)))
    (hq : ∀ op, (i, op) ∉ t.2) : Tracked D V m (watch t (.advance i c)) := by
  have hwatch : watch t (.advance i c) =
      (⟨Function.update t.1.client i { t.1.client i with
        running := none, result := result }, t.1.cluster⟩, t.2) := by
    unfold watch step
    simp only [hrun]
  rw [hwatch]
  exact h.move rfl rfl (.idle rfl hq)

/-- The first request of a write: the primary is one write further ahead. -/
theorem write_primary (h : Tracked D V m t) (hr : TwoReplicas (ringOf m V) m) (hc : c.Ample)
    (hd : c.Delivered) {request : StoreOp} (hw : op.storeOp = some request)
    (hrun : (t.1.client i).running = some (op, op.perform.run (t.1.client i).dist))
    (hq : ∀ op, (i, op) ∉ t.2) : Tracked D V m (watch t (.advance i c)) := by
  rcases Op.stored_of_storeOp hw with ⟨hkey, w, hwrite, hstored⟩
  have hcol := h.sharing.column_write (i := i) hc hd (hr.primary op.key) hwrite
  rw [h.sharing.perform_write hr hw] at hrun
  rw [watch_request hrun]
  simp only [hw]
  refine h.replace rfl rfl (h.sharing.up_handle (hr.primary op.key) request) ?_ ?_ ?_ ?_
  · exact .replicating op request hw rfl (by simp)
  · rw [List.map_append, List.nodup_append]
    refine ⟨h.nodup, by simp, ?_⟩
    intro j hj k hk hjk
    rcases List.mem_map.mp hj with ⟨e, he, rfl⟩
    simp only [List.map_cons, List.map_nil, List.mem_singleton] at hk
    refine hq e.2 ?_
    rw [← hk, ← hjk]
    exact he
  · intro j hj op'
    simp [hj]
  · intro key
    rw [hcol key, onTheWay_append, onTheWay_cons hstored, hkey]
    by_cases hk : key = op.key
    · rw [if_pos hk, if_pos hk.symm, carry_append, hk, Function.update_self,
        Function.update_of_ne (hr.distinct op.key), ← h.ahead op.key]
      rfl
    · rw [if_neg hk, if_neg (fun he => hk he.symm), carry_append, ← h.ahead key]
      rfl

/-- The second request of a write: the buddy catches up on it. -/
theorem write_buddy (h : Tracked D V m t) (hr : TwoReplicas (ringOf m V) m) (hc : c.Ample)
    (hd : c.Delivered) (horder : KeepsOrder D V m t (.advance i c)) {request : StoreOp}
    (hw : op.storeOp = some request)
    (hrun : (t.1.client i).running = some (op, .request ((t.1.client i).dist.requestTo
      ((ringOf m V).getBuddyNode op.key) request) fun _ => .done (none, (t.1.client i).dist)))
    (hmem : (i, op) ∈ t.2) : Tracked D V m (watch t (.advance i c)) := by
  rcases Op.stored_of_storeOp hw with ⟨hkey, w, hwrite, hstored⟩
  have hcol := h.sharing.column_write (i := i) hc hd (hr.buddy op.key) hwrite
  rcases List.append_of_mem hmem with ⟨ws, ws', hq⟩
  have hnodup : ((ws ++ (i, op) :: ws').map Prod.fst).Nodup := hq ▸ h.nodup
  have hnot : (i, op) ∉ ws := by
    intro hin
    rw [List.map_append, List.nodup_append] at hnodup
    exact hnodup.2.2 i (List.mem_map.mpr ⟨_, hin, rfl⟩) i (by simp) rfl
  have herase : t.2.erase (i, op) = ws ++ ws' := by
    rw [hq, List.erase_append_right _ hnot, List.erase_cons_head]
  have hnodup' : ((ws ++ ws').map Prod.fst).Nodup :=
    hnodup.sublist ((List.sublist_append_right [_] _).append_left ws |>.map Prod.fst)
  have hgone : ∀ op', (i, op') ∉ ws ++ ws' := by
    intro op' hin
    rw [List.map_append, List.map_cons, List.nodup_middle, List.nodup_cons] at hnodup
    refine hnodup.1 ?_
    rw [← List.map_append]
    exact List.mem_map.mpr ⟨_, hin, rfl⟩
  rw [watch_request hrun]
  simp only [hw, herase]
  refine h.replace rfl rfl (h.sharing.up_handle (hr.buddy op.key) request)
    (.returning op none rfl hgone) hnodup' ?_ ?_
  · intro j hj op'
    rw [hq]
    simp [hj]
  · intro key
    have hahead := h.ahead key
    rw [hq, onTheWay_append, onTheWay_cons hstored] at hahead
    rw [hcol key, onTheWay_append, hkey]
    by_cases hk : key = op.key
    · subst hk
      rw [if_pos rfl] at hahead
      rw [if_pos rfl, Function.update_self, Function.update_of_ne (hr.distinct op.key).symm,
        hahead, carry_overtake (horder op ws ws' w hq hstored)]
    · rw [if_neg fun he => hk he.symm] at hahead
      rw [if_neg hk]
      exact hahead

/-- **One turn.** -/
theorem turn (h : Tracked D V m t) (hr : TwoReplicas (ringOf m V) m) {turn : Turn κ}
    (hturn : Delivers t turn ∧ KeepsOrder D V m t turn ∧ RevivesNothing D V m t turn) :
    Tracked D V m (watch t turn) := by
  rcases hturn with ⟨hdelivers, horder, hrevives⟩
  cases turn with
  | begin i op => exact h.begin
  | advance i c =>
      rcases hdelivers with ⟨hc, hd⟩
      cases h.stage i with
      | idle hrun hq =>
          have hsame : watch t (.advance i c) = t := by
            unfold watch step
            simp only [hrun]
          rw [hsame]
          exact h
      | begun op hrun hq =>
          cases hw : op.storeOp with
          | some request => exact h.write_primary hr hc hd hw hrun hq
          | none =>
              obtain ⟨key, rfl⟩ := Op.eq_get_of_storeOp hw
              exact h.read_primary hr hrun hq
      | replicating op w hw hrun hq => exact h.write_buddy hr hc hd horder hw hrun hq
      | fallingBack key hrun hq => exact h.read_buddy hr hrun hq
      | writingBack key value hrun hq =>
          refine h.write_back hr hrun hq (hrevives key ?_)
          unfold writingBack
          rw [hrun]
          rfl
      | returning op result hrun hq => exact h.finish hrun hq

end Tracked

/-! ### A client on its own -/

/-- A client that is given every turn plays its program from start to finish. -/
theorem run_program (c : Conditions) (i : κ) (op : Op)
    (p : Prog Request Reply (Option Bytes × KVDistributor)) :
    ∀ (s : Clients κ), (s.client i).running = some (op, p) →
      ∃ n, run step s (List.replicate n (.advance i c)) =
        { client := Function.update s.client i { s.client i with
            dist := (p.run (Cluster.handle c (s.client i).attached) s.cluster).1.2
            running := none
            result := (p.run (Cluster.handle c (s.client i).attached) s.cluster).1.1 }
          cluster := (p.run (Cluster.handle c (s.client i).attached) s.cluster).2 } := by
  induction p with
  | done out =>
      intro s hrun
      refine ⟨1, ?_⟩
      show step s (.advance i c) = _
      unfold step
      simp only [hrun]
      rfl
  | request r k ih =>
      intro s hrun
      have hstep : step s (.advance i c) =
          { client := Function.update s.client i { s.client i with
              running := some (op, k (s.cluster.handle c (s.client i).attached r).1) }
            cluster := (s.cluster.handle c (s.client i).attached r).2 } := by
        unfold step
        simp only [hrun]
      rcases ih (s.cluster.handle c (s.client i).attached r).1 (step s (.advance i c))
        (by rw [hstep]; simp) with ⟨n, hn⟩
      refine ⟨n + 1, ?_⟩
      rw [List.replicate_succ, run_cons, hn, hstep]
      simp only [Function.update_self, Function.update_idem]
      rfl

/-- **One client at a time is a session.** -/
theorem run_alone (c : Conditions) (i : κ) (op : Op) (s : Clients κ)
    (hidle : (s.client i).running = none) :
    ∃ n, run step s (.begin i op :: List.replicate n (.advance i c)) =
      { client := Function.update s.client i { s.client i with
          dist := ((s.view i).exec c op).2.dist
          result := ((s.view i).exec c op).1 }
        cluster := ((s.view i).exec c op).2.cluster } := by
  have hbegin : step s (.begin i op) =
      { s with client := Function.update s.client i { s.client i with
          running := some (op, op.perform.run (s.client i).dist) } } := by
    unfold step
    simp only [hidle]
  rcases run_program c i op (op.perform.run (s.client i).dist) (step s (.begin i op))
    (by rw [hbegin]; simp) with ⟨n, hn⟩
  refine ⟨n, ?_⟩
  rw [run_cons, hn, hbegin]
  simp only [Function.update_self, Function.update_idem]
  unfold Session.exec view
  simp only [hidle]

end Clients

end DistKV
