/-
A cluster of gossiping servers.

The servers are told apart by their node ids.  A `gossip_exchange` is a request and a
response; what has been sent stays in `sent`, so that it may arrive late, several times or
not at all.  A server answers requests as soon as it is constructed, while it is still
talking to its seeds, and until its process ends.

An event is what one thread does with the mutex held.  `stop` may find the gossip loop in
the middle of an iteration, so a server that has stopped may still beat and go round.
-/
import DistKV.Gossip

namespace DistKV

inductive Phase where
  | constructed
  /-- In `start`, before the gossip loop runs. -/
  | starting
  | gossiping
  | stopped
  /-- The process has ended; what it knew last is all that is left. -/
  | down
deriving DecidableEq, Repr

structure Member where
  phase : Phase
  membership : GossipMembership

inductive Packet where
  | request (source : NodeId) (peer : Endpoint) (view : List MemberRecord)
  | response (dest : NodeId) (view : List MemberRecord)
deriving DecidableEq

def Packet.view : Packet → List MemberRecord
  | .request _ _ view => view
  | .response _ view => view

structure Network where
  member : NodeId → Option Member
  sent : List Packet

inductive GossipEvent where
  /-- A process comes up, and `loadGeneration` finds `loaded`. -/
  | construct (i : NodeId) (loaded : UInt32) (now : UInt64)
  | start (i : NodeId)
  | contactSeed (i : NodeId) (seed : Endpoint)
  | startLoop (i : NodeId)
  /-- The part of an iteration of the loop that is done with the mutex held. -/
  | beat (i : NodeId) (now now' : UInt64)
  /-- The sending half of `doGossipRound`. -/
  | round (i : NodeId) (draw : Nat)
  | serve (i : NodeId) (packet : Packet) (clock : Nat → UInt64)
  /-- The response to a seed contact or to a round. -/
  | receive (i : NodeId) (packet : Packet) (clock : Nat → UInt64)
  | stop (i : NodeId)
  | crash (i : NodeId)

namespace Network

/-- No server has ever run. -/
def empty : Network where
  member := fun _ => none
  sent := []

/-- A server goes on as `m`, and sends some packets. -/
def set (i : NodeId) (m : Member) (packets : List Packet) (s : Network) : Network where
  member := Function.update s.member i (some m)
  sent := s.sent ++ packets

/-- `KVServer::gossip_exchange`. -/
def serve (i : NodeId) (m : Member) (source : NodeId) (incoming : List MemberRecord)
    (clock : Nat → UInt64) (s : Network) : Network :=
  let out := m.membership.mergeView clock incoming
  s.set i { m with membership := out.2 } [.response source out.1]

/-- A response is merged in the way of the call that it answers. -/
def receive (i : NodeId) (m : Member) (response : List MemberRecord) (clock : Nat → UInt64)
    (s : Network) : Network :=
  match m.phase with
  | .starting => s.set i { m with membership := m.membership.bootstrap clock response } []
  | .gossiping => s.set i { m with membership := m.membership.mergeResponse clock response } []
  | .stopped => s.set i { m with membership := m.membership.mergeResponse clock response } []
  | _ => s

/-- What an event makes of a server that is there. -/
def memberStep (config : NodeId → GossipConfig) (m : Member) (s : Network) :
    GossipEvent → Network
  | .construct i loaded now =>
      if m.phase = .down then
        s.set i
          { phase := .constructed
            membership :=
              (GossipMembership.construct i (config i) loaded now).setChangeCallback } []
      else s
  | .start i =>
      if m.phase = .constructed then
        s.set i { phase := .starting, membership := { m.membership with running := true } } []
      else s
  | .contactSeed i seed =>
      if m.phase = .starting ∧ seed ∈ (config i).seedNodes ∧ seed ≠ (config i).endpoint then
        s.set i m [.request i seed m.membership.getMemberView]
      else s
  | .startLoop i =>
      if m.phase = .starting then s.set i { m with phase := .gossiping } [] else s
  | .beat i now now' =>
      if m.phase = .gossiping ∨ m.phase = .stopped then
        s.set i { m with membership := m.membership.beat now now' } []
      else s
  | .round i draw =>
      if m.phase = .gossiping ∨ m.phase = .stopped then
        match m.membership.pickRandomPeer draw with
        | some peer => s.set i m [.request i peer m.membership.getMemberView]
        | none => s
      else s
  | .serve i packet clock =>
      match packet with
      | .request source peer view =>
          if m.phase ≠ .down ∧ peer = (config i).endpoint ∧ packet ∈ s.sent then
            s.serve i m source view clock
          else s
      | .response _ _ => s
  | .receive i packet clock =>
      match packet with
      | .response dest view =>
          if dest = i ∧ packet ∈ s.sent then s.receive i m view clock else s
      | .request _ _ _ => s
  | .stop i =>
      if m.phase = .down then s
      else s.set i { phase := .stopped, membership := m.membership.depart } []
  | .crash i => s.set i { m with phase := .down } []

end Network

/-- The server an event happens at. -/
def GossipEvent.at : GossipEvent → NodeId
  | .construct i _ _ => i
  | .start i => i
  | .contactSeed i _ => i
  | .startLoop i => i
  | .beat i _ _ => i
  | .round i _ => i
  | .serve i _ _ => i
  | .receive i _ _ => i
  | .stop i => i
  | .crash i => i

/-- One event.  At a server that has never run only a construction is one. -/
def Network.step (config : NodeId → GossipConfig) (s : Network) (e : GossipEvent) : Network :=
  match s.member e.at, e with
  | some m, e => s.memberStep config m e
  | none, .construct i loaded now =>
      s.set i
        { phase := .constructed
          membership := (GossipMembership.construct i (config i) loaded now).setChangeCallback } []
  | none, _ => s

end DistKV
