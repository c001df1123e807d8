/-
The store of one server, `src/KVStore.cpp`.

A `KvStore` object holds names, modes and pointers; the data is on the host, in a
shared memory object or a mapped file that Boost manages as a segment with one
named object, the map `"SharedMap"`.  A mapped file is the segment: what an
operation has written is what the next process to open the file finds, so
`flush` changes nothing here.

The constructor runs in `Boost`, a state monad with exceptions over the object
under construction, the host, and the outcomes forced on the Boost calls to come.
A call throws when its next outcome is an exception, or when the host does not
let it succeed; state changes made before an exception stay made, as they do in
C++.  An operation runs in `Attempt`, which has the host alone: a `try` block and a
`catch` around it that only prints.  What is printed is left out.
-/
import DistKV.Hash
import Mathlib.Data.List.AList
import Mathlib.Logic.Function.Basic

namespace DistKV

inductive StorageMode where
  | memory
  | persistent
deriving DecidableEq, Repr

inductive ConnectionMode where
  /-- Create new storage. -/
  | server
  /-- Connect to existing storage. -/
  | client
deriving DecidableEq, Repr

/-- The unordered map a segment holds; `MemoryHashMap` and `MappedHashMap` alike. -/
abbrev HashMap := AList fun _ : Key => Bytes

/-- A segment under Boost's management: its size and the named object in it. -/
structure Segment where
  size : Nat
  sharedMap : Option HashMap
deriving DecidableEq

/-- What stands under a name: a segment, or something `open_only` will not take. -/
inductive Image where
  | segment (s : Segment)
  | corrupt
deriving DecidableEq

/-- The named resources of one machine: shared memory, files, named mutexes. -/
structure Host where
  shm : Bytes → Option Image := fun _ => none
  files : Bytes → Option Image := fun _ => none
  mutexes : Bytes → Bool := fun _ => false

namespace Host

def image (h : Host) : StorageMode → Bytes → Option Image
  | .memory => h.shm
  | .persistent => h.files

def setImage (h : Host) (mode : StorageMode) (name : Bytes) (i : Option Image) : Host :=
  match mode with
  | .memory => { h with shm := Function.update h.shm name i }
  | .persistent => { h with files := Function.update h.files name i }

def setMutex (h : Host) (name : Bytes) (present : Bool) : Host :=
  { h with mutexes := Function.update h.mutexes name present }

end Host

/-- An exception, with what `what()` returns. -/
inductive Exn where
  | interprocess (what : Bytes)
  | other (what : Bytes)
deriving DecidableEq, Repr

def Exn.what : Exn → Bytes
  | .interprocess w => w
  | .other w => w

/-- What opening a name that is not there throws. -/
def notFound : Exn := .interprocess (str "No such file or directory")

def MB : Nat := 1024 * 1024

def defaultMemorySize : Nat := 500 * MB

structure KvStore where
  persistentFilePath : Bytes := str "./kvstore_persistent.dat"
  mutexName : Bytes := str "SharedMapMutex"
  shmName : Bytes := str "Project"
  totalMemorySize : Nat
  storageMode : StorageMode
  connMode : ConnectionMode
  /-- Whether `memory_storage` holds a segment. -/
  memoryStorage : Bool := false
  /-- Whether `file_storage` holds a segment. -/
  fileStorage : Bool := false
  /-- Whether `memory_map_ptr` is set. -/
  memoryMapPtr : Bool := false
  /-- Whether `persistent_map_ptr` is set. -/
  persistentMapPtr : Bool := false
deriving DecidableEq

namespace KvStore

/-- The name of the segment of a mode. -/
def segmentName (kv : KvStore) : StorageMode → Bytes
  | .memory => kv.shmName
  | .persistent => kv.persistentFilePath

def hasStorage (kv : KvStore) : StorageMode → Bool
  | .memory => kv.memoryStorage
  | .persistent => kv.fileStorage

def hasMapPtr (kv : KvStore) : StorageMode → Bool
  | .memory => kv.memoryMapPtr
  | .persistent => kv.persistentMapPtr

def setStorage (kv : KvStore) (mode : StorageMode) (b : Bool) : KvStore :=
  match mode with
  | .memory => { kv with memoryStorage := b }
  | .persistent => { kv with fileStorage := b }

def setMapPtr (kv : KvStore) (mode : StorageMode) (b : Bool) : KvStore :=
  match mode with
  | .memory => { kv with memoryMapPtr := b }
  | .persistent => { kv with persistentMapPtr := b }

end KvStore

/-! ### The Boost calls of the constructor -/

structure BoostState where
  kv : KvStore
  host : Host
  /-- What happens to the calls to come; past the end, whatever the host allows. -/
  outcomes : List (Option Exn) := []

abbrev Boost := EStateM Exn BoostState

namespace Boost

/-- Take the next forced outcome. -/
def call : Boost Unit := do
  match (← get).outcomes with
  | [] => pure ()
  | none :: rest => modify fun s => { s with outcomes := rest }
  | some e :: rest =>
      modify fun s => { s with outcomes := rest }
      throw e

def modifyKv (f : KvStore → KvStore) : Boost Unit := modify fun s => { s with kv := f s.kv }

def modifyHost (f : Host → Host) : Boost Unit := modify fun s => { s with host := f s.host }

/-- `catch(const interprocess_exception &)`. -/
def catchInterprocess {α : Type} (body : Boost α) (handler : Exn → Boost α) : Boost α :=
  tryCatch body fun
    | .interprocess w => handler (.interprocess w)
    | e => throw e

/-- The segment constructor with `open_only`. -/
def openOnly (mode : StorageMode) : Boost Unit := do
  call
  let s ← get
  match s.host.image mode (s.kv.segmentName mode) with
  | some (.segment _) => pure ()
  | some .corrupt => throw (.interprocess (str "not a segment"))
  | none => throw notFound

/-- `find<...>("SharedMap").first != nullptr`. -/
def findMap (mode : StorageMode) : Boost Bool := do
  call
  let s ← get
  match s.host.image mode (s.kv.segmentName mode) with
  | some (.segment seg) => pure seg.sharedMap.isSome
  | _ => pure false

/-- The segment constructor with `create_only`. -/
def createOnly (mode : StorageMode) (size : Nat) : Boost Unit := do
  call
  let s ← get
  match s.host.image mode (s.kv.segmentName mode) with
  | some _ => throw (.interprocess (str "File exists"))
  | none =>
      modifyHost fun h => h.setImage mode (s.kv.segmentName mode)
        (some (.segment { size := size, sharedMap := none }))

/-- `construct<...>("SharedMap")(0, ...)`: an empty map. -/
def constructMap (mode : StorageMode) : Boost Unit := do
  call
  let s ← get
  match s.host.image mode (s.kv.segmentName mode) with
  | some (.segment seg) =>
      modifyHost fun h => h.setImage mode (s.kv.segmentName mode)
        (some (.segment { seg with sharedMap := some ∅ }))
  | _ => pure ()

/-- `shared_memory_object::remove` and `std::filesystem::remove`. -/
def removeImage (mode : StorageMode) : Boost Unit := do
  let s ← get
  modifyHost fun h => h.setImage mode (s.kv.segmentName mode) none

/-- `named_mutex::remove`. -/
def removeMutex : Boost Unit := do
  let s ← get
  modifyHost fun h => h.setMutex s.kv.mutexName false

/-- `named_mutex mutex(open_or_create, ...)`. -/
def openOrCreateMutex : Boost Unit := do
  call
  let s ← get
  modifyHost fun h => h.setMutex s.kv.mutexName true

end Boost

namespace KvStore

open Boost

/-! ### Construction -/

def createMemoryStorage (size : Nat) : Boost Unit := do
  catchInterprocess
    (do openOnly .memory
        let _ ← findMap .memory)
    fun _ => pure ()
  removeImage .memory
  createOnly .memory size
  modifyKv (·.setStorage .memory true)
  constructMap .memory
  modifyKv (·.setMapPtr .memory true)

/-- The `try` of `createPersistentStorage`: whether the file there has a map to go on with. -/
def openExistingFile : Boost Bool :=
  catchInterprocess
    (do openOnly .persistent
        modifyKv (·.setStorage .persistent true)
        if ← findMap .persistent then
          modifyKv (·.setMapPtr .persistent true)
          pure true
        else
          -- the file exists but no valid map is in it: it will be recreated
          modifyKv (·.setStorage .persistent false)
          pure false)
    fun _ => do
      modifyKv (·.setStorage .persistent false)
      pure false

/-- The end of `createPersistentStorage`: a new file with an empty map. -/
def createFile (size : Nat) : Boost Unit := do
  createOnly .persistent size
  modifyKv (·.setStorage .persistent true)
  constructMap .persistent
  modifyKv (·.setMapPtr .persistent true)

def createPersistentStorage (size : Nat) : Boost Unit := do
  let s ← get
  if (s.host.files s.kv.persistentFilePath).isSome then
    if ← openExistingFile then pure ()
    else
      removeImage .persistent
      createFile size
  else createFile size

def connectToMemoryStorage : Boost Unit := do
  openOnly .memory
  modifyKv (·.setStorage .memory true)
  if ← findMap .memory then modifyKv (·.setMapPtr .memory true)
  else throw (.interprocess (str "SharedMap not found in existing shared memory"))

def connectToPersistentStorage : Boost Unit := do
  let s ← get
  if (s.host.files s.kv.persistentFilePath).isNone then
    throw (.interprocess (str "Persistent file does not exist"))
  openOnly .persistent
  modifyKv (·.setStorage .persistent true)
  if ← findMap .persistent then modifyKv (·.setMapPtr .persistent true)
  else throw (.interprocess (str "SharedMap not found in existing persistent storage"))

def connectToStorage : StorageMode → Boost Unit
  | .memory => connectToMemoryStorage
  | .persistent => connectToPersistentStorage

def createStorage (mode : StorageMode) (size : Nat) : Boost Unit :=
  match mode with
  | .memory => createMemoryStorage size
  | .persistent => createPersistentStorage size

/-- The names `cleanupStorage` deletes from the working directory in memory mode. -/
def isTemporaryFile (filename : Bytes) : Bool :=
  filename = str "mappings.txt" ||
    ((str "local_store_node_").isPrefixOf filename && (str ".dat").isSuffixOf filename)

def cleanupStorage (kv : KvStore) (h : Host) : Host :=
  match kv.storageMode with
  | .memory =>
      let h := h.setImage .memory kv.shmName none
      { h with files := fun f => if isTemporaryFile f then none else h.files f }
  | .persistent => h.setImage .persistent kv.persistentFilePath none

/-- The body of the constructor's `try`. -/
def setUp (size : Nat) (mode : StorageMode) (connMode : ConnectionMode)
    (nodeTag : Bytes) : Boost Unit := do
  if nodeTag ≠ [] then
    modifyKv fun kv =>
      { kv with
        shmName := str "Project_" ++ nodeTag
        persistentFilePath := str "./kvstore_persistent_" ++ nodeTag ++ str ".dat"
        mutexName := str "SharedMapMutex_" ++ nodeTag }
  match connMode with
  | .server => createStorage mode size
  | .client => connectToStorage mode
  if connMode = .server then removeMutex
  openOrCreateMutex

/-- What the server does when construction throws: reopen, or else clean up and create. -/
def recover (size : Nat) : Boost Unit := do
  let mode := (← get).kv.storageMode
  catchInterprocess
    (do openOnly mode
        modifyKv (·.setStorage mode true)
        let found ← findMap mode
        modifyKv (·.setMapPtr mode found))
    fun _ => do
      let s ← get
      modifyHost s.kv.cleanupStorage
      removeMutex
      createStorage mode size
      openOrCreateMutex

/-- The constructor. -/
def construct (size : Nat) (mode : StorageMode) (connMode : ConnectionMode)
    (nodeTag : Bytes) : Boost Unit :=
  catchInterprocess (setUp size mode connMode nodeTag) fun e =>
    match connMode with
    | .client => throw e
    | .server => recover size

end KvStore

/-- What the allocator does during one call. -/
structure MemEnv where
  /-- What `get_free_memory` returns. -/
  freeMemory : Nat
  /-- What allocating a node or a string throws, if it does. -/
  alloc : Option Exn
deriving DecidableEq

/-- A store object together with the host its data is on. -/
structure Server where
  kv : KvStore
  host : Host

namespace KvStore

/-- `get_instance` in a process that has no instance yet. -/
def getInstance (size : Nat) (mode : StorageMode) (connMode : ConnectionMode) (nodeTag : Bytes)
    (host : Host) (outcomes : List (Option Exn)) : Except Exn Server :=
  let size := if 0 < size then size else defaultMemorySize
  let kv : KvStore := { totalMemorySize := size, storageMode := mode, connMode := connMode }
  match (construct size mode connMode nodeTag).run
      { kv := kv, host := host, outcomes := outcomes } with
  | .ok _ s => .ok { kv := s.kv, host := s.host }
  | .error e _ => .error e

/-! ### Destruction -/

/-- `destroy<...>("SharedMap")`. -/
def destroyMap (kv : KvStore) (mode : StorageMode) (h : Host) : Host :=
  match h.image mode (kv.segmentName mode) with
  | some (.segment seg) =>
      h.setImage mode (kv.segmentName mode) (some (.segment { seg with sharedMap := none }))
  | _ => h

/-- The destructor. -/
def destruct (kv : KvStore) (h : Host) : Host :=
  match kv.connMode with
  | .client => h
  | .server =>
      let h :=
        if kv.hasStorage kv.storageMode then
          let h := if kv.hasMapPtr kv.storageMode then kv.destroyMap kv.storageMode h else h
          match kv.storageMode with
          | .memory => kv.cleanupStorage h
          | .persistent => h
        else h
      h.setMutex kv.mutexName false

end KvStore

/-! ### The operations

The memory and persistent branches differ in the map pointer they go through and
in `Sync`, so each operation is written once. -/

/-- A stretch of store code that may throw, on the host it works on. -/
abbrev Attempt := EStateM Exn Host

/-- `catch(const std::exception &)` with a handler that only prints. -/
def Attempt.swallow (body : Attempt Unit) : Attempt Unit := tryCatch body fun _ => pure ()

namespace KvStore

/-- The map behind the mode's map pointer, `none` for a null pointer. -/
def sharedMap (kv : KvStore) (h : Host) : Option HashMap :=
  if kv.hasMapPtr kv.storageMode then
    match h.image kv.storageMode (kv.segmentName kv.storageMode) with
    | some (.segment seg) => seg.sharedMap
    | _ => none
  else none

/-- Write the map back into the segment it is in. -/
def putMap (kv : KvStore) (m : HashMap) (h : Host) : Host :=
  match h.image kv.storageMode (kv.segmentName kv.storageMode) with
  | some (.segment seg) =>
      h.setImage kv.storageMode (kv.segmentName kv.storageMode)
        (some (.segment { seg with sharedMap := some m }))
  | _ => h

def getFreeMemory (kv : KvStore) (env : MemEnv) : Nat :=
  if kv.hasStorage kv.storageMode then env.freeMemory else 0

def hasEnoughMemory (kv : KvStore) (env : MemEnv) (neededBytes : Nat) : Bool :=
  let overheadFactor := 2
  decide (neededBytes * overheadFactor ≤ kv.getFreeMemory env)

/-- What `Insert` asks memory for: the value, the key and 64 bytes of overhead. -/
def entrySize (value : Bytes) : Nat := value.length + 4 + 64

/-- `named_mutex mutex(open_only, ...)` and the lock on it. -/
def lockMutex (kv : KvStore) : Attempt Unit := do
  let h ← get
  if h.mutexes kv.mutexName then pure () else throw notFound

/-- Making a node or a string in the segment. -/
def allocate (env : MemEnv) : Attempt Unit :=
  match env.alloc with
  | some e => throw e
  | none => pure ()

/-- The `try` block of `Insert`. -/
def insertBody (kv : KvStore) (env : MemEnv) (key : Key) (value : Bytes) : Attempt Unit := do
  let h ← get
  match kv.sharedMap h with
  | none => pure ()
  | some m =>
      kv.lockMutex
      if !kv.hasEnoughMemory env (entrySize value) then pure ()
      else
        match m.lookup key with
        | some _ => pure ()
        | none =>
            allocate env
            modify (kv.putMap (m.insert key (cStr value)))

def insert (kv : KvStore) (env : MemEnv) (key : Key) (value : Bytes) : Attempt Unit :=
  (kv.insertBody env key value).swallow

/-- The `try` block of `Update`. -/
def updateBody (kv : KvStore) (env : MemEnv) (key : Key) (newValue : Bytes) :
    Attempt Unit := do
  let h ← get
  match kv.sharedMap h with
  | none => pure ()
  | some m =>
      kv.lockMutex
      match m.lookup key with
      | none => pure ()
      | some old =>
          let oldSize := (cStr old).length
          let newSize := newValue.length
          let sizeDiff := if oldSize < newSize then newSize - oldSize else 0
          if decide (0 < sizeDiff) && !kv.hasEnoughMemory env sizeDiff then pure ()
          else
            allocate env
            modify (kv.putMap (m.insert key (cStr newValue)))

def update (kv : KvStore) (env : MemEnv) (key : Key) (newValue : Bytes) : Attempt Unit :=
  (kv.updateBody env key newValue).swallow

/-- The `try` block of `Delete`. -/
def deleteBody (kv : KvStore) (key : Key) : Attempt Unit := do
  let h ← get
  match kv.sharedMap h with
  | none => pure ()
  | some m =>
      kv.lockMutex
      match m.lookup key with
      | some _ => modify (kv.putMap (m.erase key))
      | none => pure ()

def delete (kv : KvStore) (key : Key) : Attempt Unit := (kv.deleteBody key).swallow

def find (kv : KvStore) (key : Key) (h : Host) : Bytes :=
  match kv.sharedMap h with
  | none => str "Map not found"
  | some m =>
      if !h.mutexes kv.mutexName then str "Error: " ++ notFound.what
      else
        match m.lookup key with
        | some value => cStr value
        | none => str "key not found"

end KvStore

/-! ### A store that is served

Every call of a store goes through one of these, in the process that holds the
object or in a handler of its `KVServer`. -/

/-- What a store can be asked. -/
inductive StoreOp where
  | find (key : Key)
  | insert (key : Key) (value : Bytes)
  | update (key : Key) (newValue : Bytes)
  | delete (key : Key)
deriving DecidableEq, Repr

namespace Server

def find (s : Server) (key : Key) : Bytes := s.kv.find key s.host

/-- The server once a call on its store has returned, or thrown. -/
def after (s : Server) (call : Attempt Unit) : Server :=
  { s with host :=
      match call.run s.host with
      | .ok _ h => h
      | .error _ h => h }

/-- The server once an operation has been carried out. -/
def write (env : MemEnv) (s : Server) : StoreOp → Server
  | .find _ => s
  | .insert key value => s.after (s.kv.insert env key value)
  | .update key newValue => s.after (s.kv.update env key newValue)
  | .delete key => s.after (s.kv.delete key)

/-- One call after another, each with the memory it finds. -/
def run (s : Server) (calls : List (MemEnv × StoreOp)) : Server :=
  calls.foldl (fun s call => s.write call.1 call.2) s

/-- How a server process comes to an end. -/
inductive Ending where
  /-- `main` returns, and the static `KvStore` is destroyed. -/
  | shutdown
  /-- The process is killed between two operations. -/
  | kill
deriving DecidableEq, Repr

/-- What the process leaves on the host.  On shutdown `Sync` comes first, which
writes out what the mapping already shows. -/
def finish (s : Server) : Ending → Host
  | .shutdown => s.kv.destruct s.host
  | .kill => s.host

end Server

end DistKV
