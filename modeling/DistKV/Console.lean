/-
The command loop of `kvm_client` at work, `main` in `src/main_client.cpp`.

An iteration of the loop makes its calls one after another on what stands behind it (`Service`):
here a `KVDistributor` and the servers.  Between any two calls the membership thread may refresh
the distributor; within a call it may not, since `ring_mutex_` is held.  What is printed is left
out, and what the calls return is kept.
-/
import DistKV.Cluster
import DistKV.CommandLoop
import DistKV.Refresh

namespace DistKV

/-- What carries out the calls of a client. -/
structure Service (σ : Type) where
  exec : Conditions → Op → σ → Option Bytes × σ
  /-- `fetchMembershipFromServer`, with the answer of a server or an exception. -/
  refresh : Option (List MemberRecord) → σ → σ

/-- The distributor and the servers. -/
def Service.distributor : Service Session where
  exec := fun c op s => s.exec c op
  refresh := fun members s => { s with dist := (s.dist.fetchMembershipFromServer members).2 }

structure Console (σ : Type) where
  loop : CommandLoop
  store : σ
  /-- The calls of the iteration that are still to be made. -/
  pending : List Op := []
  /-- What the calls have returned so far. -/
  returned : List (Option Bytes) := []

inductive ConsoleEvent where
  /-- The loop reads a line, if it is through with the one before. -/
  | iterate (draws : Draws)
  /-- The next call of the iteration. -/
  | call (c : Conditions)
  /-- The membership thread. -/
  | refresh (members : Option (List MemberRecord))

namespace Console

variable {σ : Type}

/-- The loop before the first line. -/
def start (lines : List Bytes) (store : σ) : Console σ where
  loop := { lines := lines }
  store := store

def step (service : Service σ) (s : Console σ) : ConsoleEvent → Console σ
  | .iterate draws =>
      match s.pending with
      | [] =>
          let loop := s.loop.iterate draws
          -- the calls that the line adds
          { s with loop := loop, pending := loop.calls.drop s.loop.calls.length }
      | _ :: _ => s
  | .call c =>
      match s.pending with
      | [] => s
      | op :: pending =>
          let (returned, store) := service.exec c op s.store
          { s with store := store, pending := pending, returned := s.returned ++ [returned] }
  | .refresh members => { s with store := service.refresh members s.store }

end Console

end DistKV
