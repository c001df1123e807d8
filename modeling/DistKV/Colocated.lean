/-
Processes on one machine.

Every process has one `KvStore` at most, the static instance of `get_instance`.  All that the
stores share is the host, and a store is no more than names and pointers: a client that has
attached to the segment of a server works on the server's map.

A process ends between two operations.  Its segment is not taken away from those who have it
mapped: what a client sees after its server has removed a segment depends on memory that is
not modelled.
-/
import DistKV.Store

namespace DistKV

structure Colocated (π : Type) where
  host : Host
  store : π → Option KvStore

inductive ProcessEvent (π : Type) where
  | getInstance (p : π) (size : Nat) (mode : StorageMode) (connMode : ConnectionMode)
      (nodeTag : Bytes) (outcomes : List (Option Exn))
  | call (p : π) (env : MemEnv) (op : StoreOp)
  | finish (p : π) (ending : Server.Ending)

namespace Colocated

variable {π : Type} [DecidableEq π]

def step (s : Colocated π) : ProcessEvent π → Colocated π
  | .getInstance p size mode connMode nodeTag outcomes =>
      match s.store p with
      | some _ => s
      | none =>
          let size := if 0 < size then size else defaultMemorySize
          let kv : KvStore :=
            { totalMemorySize := size, storageMode := mode, connMode := connMode }
          match (KvStore.construct size mode connMode nodeTag).run
              { kv := kv, host := s.host, outcomes := outcomes } with
          | .ok _ b => { host := b.host, store := Function.update s.store p (some b.kv) }
          | .error _ b => { s with host := b.host }
  | .call p env op =>
      match s.store p with
      | none => s
      | some kv => { s with host := (Server.write env { kv := kv, host := s.host } op).host }
  | .finish p ending =>
      match s.store p with
      | none => s
      | some kv =>
          { host := Server.finish { kv := kv, host := s.host } ending
            store := Function.update s.store p none }

end Colocated

end DistKV
