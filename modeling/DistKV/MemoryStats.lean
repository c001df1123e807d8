/-
What a store says of its memory, `GetMemoryStats` and `GetUsedMemory` of `src/KVStore.cpp`.

A `size_t` has 64 bits.  The size of a segment is the one that Boost reports for it, and how
much of it is free is handed in.  The percentage, which is only printed, is left out.
-/
import DistKV.Store

namespace DistKV

structure MemoryStats where
  totalSize : UInt64
  usedMemory : UInt64
  freeMemory : UInt64
deriving DecidableEq

namespace KvStore

/-- `get_size` of the segment that a store holds. -/
def segmentSize (kv : KvStore) (h : Host) : Nat :=
  match h.image kv.storageMode (kv.segmentName kv.storageMode) with
  | some (.segment seg) => seg.size
  | _ => 0

def getMemoryStats (kv : KvStore) (env : MemEnv) (h : Host) : MemoryStats :=
  if kv.hasStorage kv.storageMode then
    let totalSize := UInt64.ofNat (kv.segmentSize h)
    let freeMemory := UInt64.ofNat env.freeMemory
    { totalSize := totalSize
      usedMemory := totalSize - freeMemory
      freeMemory := freeMemory }
  else { totalSize := 0, usedMemory := 0, freeMemory := 0 }

def getUsedMemory (kv : KvStore) (env : MemEnv) : UInt64 :=
  UInt64.ofNat kv.totalMemorySize - UInt64.ofNat (kv.getFreeMemory env)

end KvStore

end DistKV
