/-
Membership by gossip, `src/GossipMembership.cpp`, as one server does it.

`nowMs()` is read each time it is needed, so what it says is handed in: two readings for
an iteration of the loop, and for a merge a reading for every record that comes in.
`member_table_` is an unordered map, and the order of a view is that of its entries here.
What `sendGossipExchange` does is left to the network of `GossipNet.lean`; log lines are
left out.
-/
import DistKV.Ring
import Mathlib.Data.Finset.Basic
import Mathlib.Data.Finset.Dedup

namespace DistKV

inductive NodeStatus where
  | alive
  | suspect
  | dead
deriving DecidableEq, Repr

/-- `static_cast<uint8_t>` of a status. -/
def NodeStatus.toNat : NodeStatus → Nat
  | .alive => 0
  | .suspect => 1
  | .dead => 2

structure MemberRecord where
  nodeId : NodeId
  endpoint : Endpoint
  status : NodeStatus
  heartbeatCounter : UInt64
  generation : UInt32
deriving DecidableEq

structure MemberEntry where
  record : MemberRecord
  lastUpdatedMs : UInt64
deriving DecidableEq

/-! ### The member table -/

/-- Every entry is filed under the id in its record. -/
structure MemberTable where
  entries : AList fun _ : NodeId => MemberEntry
  filed : ∀ id entry, entries.lookup id = some entry → entry.record.nodeId = id

namespace MemberTable

def find (t : MemberTable) (id : NodeId) : Option MemberEntry := t.entries.lookup id

instance : EmptyCollection MemberTable where
  emptyCollection := { entries := ∅, filed := fun _ _ h => by cases h }

/-- Put an entry in its place, in the place of the one that is there. -/
def put (entry : MemberEntry) (t : MemberTable) : MemberTable where
  entries := t.entries.insert entry.record.nodeId entry
  filed := by
    intro id e h
    by_cases hid : id = entry.record.nodeId
    · rw [hid, AList.lookup_insert] at h
      cases h
      exact hid.symm
    · rw [AList.lookup_insert_ne hid] at h
      exact t.filed id e h

/-- Change every entry, but no id. -/
def mapEntries (f : NodeId → MemberEntry → MemberEntry)
    (hf : ∀ id entry, (f id entry).record.nodeId = entry.record.nodeId) (t : MemberTable) :
    MemberTable where
  entries :=
    { entries := t.entries.entries.map fun s => ⟨s.1, f s.1 s.2⟩
      nodupKeys := by
        have h := t.entries.nodupKeys
        unfold List.NodupKeys List.keys at h ⊢
        rw [List.map_map]
        exact h }
  filed := by
    intro id entry h
    have hmap := @List.dlookup_map₂ _ _ _ (fun _ => MemberEntry) t.entries.entries f id
    rcases Option.map_eq_some_iff.mp (hmap.symm.trans h) with ⟨e, he, rfl⟩
    rw [hf]
    exact t.filed id e he

/-- The records, each id once. -/
def view (t : MemberTable) : List MemberRecord := t.entries.entries.map fun s => s.2.record

/-- The entries that are alive. -/
def alive (t : MemberTable) : List MemberEntry :=
  (t.entries.entries.map fun s => s.2).filter fun entry => entry.record.status = .alive

end MemberTable

/-! ### A member of the cluster -/

/-- What a node is configured with. -/
structure GossipConfig where
  endpoint : Endpoint
  seedNodes : List Endpoint
  suspectThresholdMs : Int
  deadThresholdMs : Int
deriving DecidableEq

structure GossipMembership where
  selfNodeId : NodeId
  config : GossipConfig
  memberTable : MemberTable
  running : Bool
  /-- Whether `change_callback_` is set. -/
  changeCallback : Bool
  lastAliveSet : Finset NodeId
  /-- What the callback has been called with, the latest call first. -/
  delivered : List NodeMap
  generation : UInt32

namespace GossipMembership

/-- The constructor; `loaded` is what `loadGeneration` finds. -/
def construct (selfNodeId : NodeId) (config : GossipConfig) (loaded : UInt32) (now : UInt64) :
    GossipMembership where
  selfNodeId := selfNodeId
  config := config
  memberTable := (∅ : MemberTable).put
    { record :=
        { nodeId := selfNodeId
          endpoint := config.endpoint
          status := .alive
          heartbeatCounter := 0
          generation := loaded + 1 }
      lastUpdatedMs := now }
  running := false
  changeCallback := false
  lastAliveSet := ∅
  delivered := []
  generation := loaded + 1

def setChangeCallback (g : GossipMembership) : GossipMembership :=
  { g with changeCallback := true }

def notifyChange (g : GossipMembership) : GossipMembership :=
  if g.changeCallback = false then g
  else
    let currentAlive := (g.memberTable.alive.map fun entry => entry.record.nodeId).toFinset
    if currentAlive = g.lastAliveSet then g
    else
      { g with
        lastAliveSet := currentAlive
        delivered :=
          (g.memberTable.alive.map fun entry =>
            (⟨entry.record.nodeId, entry.record.endpoint⟩ :
              Sigma fun _ : NodeId => Endpoint)).toAList :: g.delivered }

/-- The end of a merge, of `detectFailures`: subscribers hear of a change. -/
def settle (g : GossipMembership) (result : MemberTable × Bool) : GossipMembership :=
  let g := { g with memberTable := result.1 }
  if result.2 then g.notifyChange else g

def getMemberView (g : GossipMembership) : List MemberRecord := g.memberTable.view

/-! ### Merging -/

/-- One record of a merge, with the reading of the clock while it is handled. -/
abbrev Incoming := MemberRecord × UInt64

/-- The records of a message with the readings of the clock. -/
def timed (clock : Nat → UInt64) (view : List MemberRecord) : List Incoming :=
  view.zipIdx.map fun r => (r.1, clock r.2)

/-- The loop body of `mergeView`: the table, and whether it was changed. -/
def mergeRecord (self : NodeId) (acc : MemberTable × Bool) (incoming : Incoming) :
    MemberTable × Bool :=
  let (t, changed) := acc
  let (rIn, now) := incoming
  if rIn.nodeId = self then (t, changed)
  else
    match t.find rIn.nodeId with
    | none => (t.put { record := rIn, lastUpdatedMs := now }, true)
    | some loc =>
        if rIn.generation > loc.record.generation then
          (t.put { record := rIn, lastUpdatedMs := now }, true)
        else if rIn.generation < loc.record.generation then (t, changed)
        else if rIn.heartbeatCounter > loc.record.heartbeatCounter then
          (t.put
            { record := { loc.record with
                heartbeatCounter := rIn.heartbeatCounter
                status := rIn.status }
              lastUpdatedMs := now }, true)
        else if rIn.heartbeatCounter = loc.record.heartbeatCounter
            ∧ rIn.status.toNat > loc.record.status.toNat then
          (t.put
            { record := { loc.record with status := rIn.status }
              lastUpdatedMs := now }, true)
        else (t, changed)

/-- The view that is returned is the one that `notifyChange` finds, too. -/
def mergeView (clock : Nat → UInt64) (incoming : List MemberRecord) (g : GossipMembership) :
    List MemberRecord × GossipMembership :=
  let result := (timed clock incoming).foldl (mergeRecord g.selfNodeId) (g.memberTable, false)
  (result.1.view, g.settle result)

/-- The loop body of the merge in `doGossipRound`. -/
def mergeResponseRecord (self : NodeId) (acc : MemberTable × Bool) (incoming : Incoming) :
    MemberTable × Bool :=
  let (t, changed) := acc
  let (r, now) := incoming
  if r.nodeId = self then (t, changed)
  else
    match t.find r.nodeId with
    | none => (t.put { record := r, lastUpdatedMs := now }, true)
    | some loc =>
        if r.generation > loc.record.generation
            ∨ (r.generation = loc.record.generation
              ∧ r.heartbeatCounter > loc.record.heartbeatCounter)
            ∨ (r.generation = loc.record.generation
              ∧ r.heartbeatCounter = loc.record.heartbeatCounter
              ∧ r.status.toNat > loc.record.status.toNat) then
          (t.put { record := r, lastUpdatedMs := now }, true)
        else (t, changed)

/-- What `doGossipRound` does with a response. -/
def mergeResponse (clock : Nat → UInt64) (response : List MemberRecord) (g : GossipMembership) :
    GossipMembership :=
  g.settle ((timed clock response).foldl (mergeResponseRecord g.selfNodeId) (g.memberTable, false))

/-- The loop body of the merge in `start`.  The own entry, which `member_table_[r.node_id]`
may touch, is there already. -/
def bootstrapRecord (self : NodeId) (t : MemberTable) (incoming : Incoming) : MemberTable :=
  let (r, now) := incoming
  if r.nodeId = self then t else t.put { record := r, lastUpdatedMs := now }

/-- What `start` does with the response of a seed. -/
def bootstrap (clock : Nat → UInt64) (response : List MemberRecord) (g : GossipMembership) :
    GossipMembership :=
  { g with
    memberTable := (timed clock response).foldl (bootstrapRecord g.selfNodeId) g.memberTable }

/-! ### Heartbeats and the failure detector -/

/-- The loop body of `detectFailures`: an entry, by its age. -/
def detect (config : GossipConfig) (now : UInt64) (entry : MemberEntry) : MemberEntry :=
  let age := now - entry.lastUpdatedMs
  let entry :=
    if entry.record.status = .alive ∧ age > UInt64.ofInt config.suspectThresholdMs then
      { entry with record := { entry.record with status := .suspect } }
    else entry
  if entry.record.status = .suspect ∧ age > UInt64.ofInt config.deadThresholdMs then
    { entry with record := { entry.record with status := .dead } }
  else entry

theorem nodeId_detect (config : GossipConfig) (now : UInt64) (entry : MemberEntry) :
    (detect config now entry).record.nodeId = entry.record.nodeId := by
  unfold detect
  dsimp only
  split <;> split <;> rfl

def detectFailures (now : UInt64) (g : GossipMembership) : GossipMembership :=
  let f := fun id entry => if id = g.selfNodeId then entry else detect g.config now entry
  let t := g.memberTable.mapEntries f fun id entry => by
    by_cases h : id = g.selfNodeId
    · simp only [f, if_pos h]
    · simp only [f, if_neg h]
      exact nodeId_detect g.config now entry
  let changed := g.memberTable.entries.entries.any fun s => f s.1 s.2 ≠ s.2
  g.settle (t, changed)

/-- Change the own entry, if there is one. -/
def modifySelf (f : MemberEntry → MemberEntry) (g : GossipMembership) : GossipMembership :=
  match g.memberTable.find g.selfNodeId with
  | some entry => { g with memberTable := g.memberTable.put (f entry) }
  | none => g

/-- What the gossip loop does with the mutex held: one more heartbeat, then the failure
detector. -/
def beat (now now' : UInt64) (g : GossipMembership) : GossipMembership :=
  (g.modifySelf fun entry =>
    { record := { entry.record with heartbeatCounter := entry.record.heartbeatCounter + 1 }
      lastUpdatedMs := now }).detectFailures now'

/-- What `stop` does before its last round. -/
def depart (g : GossipMembership) : GossipMembership :=
  ({ g with running := false }).modifySelf fun entry =>
    { entry with record := { entry.record with
        status := .dead
        heartbeatCounter := entry.record.heartbeatCounter + 1 } }

/-! ### Peers -/

/-- `pickRandomPeer`, with the number that `randomInt` draws.  An endpoint that is the
empty string is no peer to `doGossipRound` either. -/
def pickRandomPeer (draw : Nat) (g : GossipMembership) : Option Endpoint :=
  let alivePeers := (g.memberTable.alive.filter fun entry =>
    entry.record.nodeId ≠ g.selfNodeId).map fun entry => entry.record.endpoint
  match alivePeers[draw % alivePeers.length]? with
  | some [] => none
  | peer => peer

/-! ### One step at a time -/

/-- What is done to a membership with the mutex held. -/
inductive Action where
  | mergeView (clock : Nat → UInt64) (incoming : List MemberRecord)
  /-- The merge of `doGossipRound`. -/
  | mergeResponse (clock : Nat → UInt64) (response : List MemberRecord)
  /-- The merge of `start`. -/
  | bootstrap (clock : Nat → UInt64) (response : List MemberRecord)
  /-- The heartbeat and the failure detector of an iteration of the loop. -/
  | beat (now now' : UInt64)
  | detectFailures (now : UInt64)
  /-- What `stop` does before its last round. -/
  | depart

def perform (g : GossipMembership) : Action → GossipMembership
  | .mergeView clock incoming => (g.mergeView clock incoming).2
  | .mergeResponse clock response => g.mergeResponse clock response
  | .bootstrap clock response => g.bootstrap clock response
  | .beat now now' => g.beat now now'
  | .detectFailures now => g.detectFailures now
  | .depart => g.depart

end GossipMembership

end DistKV
