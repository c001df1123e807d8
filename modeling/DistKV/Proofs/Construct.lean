/-
What the constructor leaves, whichever of its calls fail.

No Boost call touches the object under construction, so what holds of its names and
modes after the first statement holds to the end.  Construction that ends well has
gone through an `open_only` or a `create_only` that succeeded, so the object holds a
segment.  When no call is forced to fail, a server in persistent mode always comes
up, and it comes up with the map that stands in its file, or with an empty one.
-/
import DistKV.Proofs.Store
import DistKV.Lib.Triple

namespace DistKV

open Hoare

namespace Boost

variable {N : KvStore → Prop}

theorem modifyHost_keeps (g : Host → Host) : Keeps (fun s => N s.kv) (modifyHost g) :=
  Triple.modify fun _ hs => hs

theorem call_keeps : Keeps (fun s => N s.kv) call := by
  unfold call
  refine Triple.get_bind fun s₀ _ => ?_
  split
  · exact Keeps.pure _
  · exact Triple.modify fun _ hs => hs
  · exact Triple.bind _ (Triple.modify fun _ hs => hs) fun _ => Keeps.throw _

theorem openOnly_keeps (mode : StorageMode) : Keeps (fun s => N s.kv) (openOnly mode) := by
  refine call_keeps.bind fun _ => Triple.get_bind fun s₀ _ => ?_
  split
  · exact Keeps.pure _
  · exact Keeps.throw _
  · exact Keeps.throw _

theorem findMap_keeps (mode : StorageMode) : Keeps (fun s => N s.kv) (findMap mode) := by
  refine call_keeps.bind fun _ => Triple.get_bind fun s₀ _ => ?_
  split
  · exact Keeps.pure _
  · exact Keeps.pure _

theorem createOnly_keeps (mode : StorageMode) (size : Nat) :
    Keeps (fun s => N s.kv) (createOnly mode size) := by
  refine call_keeps.bind fun _ => Triple.get_bind fun s₀ _ => ?_
  split
  · exact Keeps.throw _
  · exact modifyHost_keeps _

theorem constructMap_keeps (mode : StorageMode) : Keeps (fun s => N s.kv) (constructMap mode) := by
  refine call_keeps.bind fun _ => Triple.get_bind fun s₀ _ => ?_
  split
  · exact modifyHost_keeps _
  · exact Keeps.pure _

theorem removeImage_keeps (mode : StorageMode) : Keeps (fun s => N s.kv) (removeImage mode) :=
  Triple.get_bind fun _ _ => modifyHost_keeps _

theorem removeMutex_keeps : Keeps (fun s => N s.kv) removeMutex :=
  Triple.get_bind fun _ _ => modifyHost_keeps _

theorem openOrCreateMutex_keeps : Keeps (fun s => N s.kv) openOrCreateMutex := by
  refine call_keeps.bind fun _ => Triple.get_bind fun s₀ _ => ?_
  exact modifyHost_keeps _

/-- A handler of Boost's own exceptions starts from what the body leaves behind. -/
theorem catchInterprocess_triple {α : Type} {P E M : BoostState → Prop}
    {Q : α → BoostState → Prop} {body : Boost α} {handler : Exn → Boost α}
    (hbody : Triple P body Q M) (hother : ∀ s, M s → E s)
    (hh : ∀ e, Triple M (handler e) Q E) : Triple P (catchInterprocess body handler) Q E := by
  refine Triple.tryCatch hbody fun e => ?_
  split
  · exact hh _
  · exact Triple.throw hother

end Boost

/-! ### What a constructed object is -/

def persistentFilePathOf (nodeTag : Bytes) : Bytes :=
  if nodeTag = [] then str "./kvstore_persistent.dat"
  else str "./kvstore_persistent_" ++ nodeTag ++ str ".dat"

def mutexNameOf (nodeTag : Bytes) : Bytes :=
  if nodeTag = [] then str "SharedMapMutex" else str "SharedMapMutex_" ++ nodeTag

namespace KvStore

/-- A server's object in persistent mode, under the names its tag gives it. -/
structure Persistent (nodeTag : Bytes) (kv : KvStore) : Prop where
  mode : kv.storageMode = .persistent
  conn : kv.connMode = .server
  file : kv.persistentFilePath = persistentFilePathOf nodeTag
  mutex : kv.mutexName = mutexNameOf nodeTag

variable {nodeTag : Bytes} {kv : KvStore}

theorem Persistent.setStorage (h : kv.Persistent nodeTag) (b : Bool) :
    (kv.setStorage .persistent b).Persistent nodeTag := { h with }

theorem Persistent.setMapPtr (h : kv.Persistent nodeTag) (b : Bool) :
    (kv.setMapPtr .persistent b).Persistent nodeTag := { h with }

/-- It holds a segment. -/
def Mapped (nodeTag : Bytes) (kv : KvStore) : Prop :=
  kv.Persistent nodeTag ∧ kv.fileStorage = true

open Boost

theorem openExistingFile_mapped (nodeTag : Bytes) :
    Triple (fun s => s.kv.Persistent nodeTag) openExistingFile
      (fun found s => s.kv.Persistent nodeTag ∧ (found = true → s.kv.fileStorage = true))
      (fun s => s.kv.Persistent nodeTag) := by
  refine catchInterprocess_triple ?_ (fun _ hs => hs) fun e => ?_
  · refine (openOnly_keeps _).bind fun _ => ?_
    refine Triple.bind (fun _ s => s.kv.Mapped nodeTag)
      (Triple.modify fun s hs => ⟨hs.setStorage true, rfl⟩) fun _ => ?_
    refine Triple.bind _ ((findMap_keeps _).weaken_error fun s hs => hs.1) fun found => ?_
    split
    · refine Triple.bind (fun _ s => s.kv.Mapped nodeTag)
        (Triple.modify fun s hs => ⟨hs.1.setMapPtr true, hs.2⟩) fun _ => ?_
      exact Triple.pure fun s hs => ⟨hs.1, fun _ => hs.2⟩
    · refine Triple.bind (fun _ s => s.kv.Persistent nodeTag)
        (Triple.modify fun s hs => hs.1.setStorage false) fun _ => ?_
      exact Triple.pure fun s hs => ⟨hs, fun h => absurd h (by decide)⟩
  · refine Triple.bind (fun _ s => s.kv.Persistent nodeTag)
      (Triple.modify fun s hs => hs.setStorage false) fun _ => ?_
    exact Triple.pure fun s hs => ⟨hs, fun h => absurd h (by decide)⟩

theorem createFile_mapped (nodeTag : Bytes) (size : Nat) :
    Triple (fun s => s.kv.Persistent nodeTag) (createFile size)
      (fun _ s => s.kv.Mapped nodeTag) (fun s => s.kv.Persistent nodeTag) := by
  refine (createOnly_keeps _ _).bind fun _ => ?_
  refine Triple.bind (fun _ s => s.kv.Mapped nodeTag)
    (Triple.modify fun s hs => ⟨hs.setStorage true, rfl⟩) fun _ => ?_
  refine Triple.bind _ ((constructMap_keeps _).weaken_error fun s hs => hs.1) fun _ => ?_
  exact Triple.modify fun s hs => ⟨hs.1.setMapPtr true, hs.2⟩

theorem createPersistentStorage_mapped (nodeTag : Bytes) (size : Nat) :
    Triple (fun s => s.kv.Persistent nodeTag) (createPersistentStorage size)
      (fun _ s => s.kv.Mapped nodeTag) (fun s => s.kv.Persistent nodeTag) := by
  refine Triple.get_bind fun s₀ _ => ?_
  split
  · refine Triple.bind _ (openExistingFile_mapped nodeTag) fun found => ?_
    split
    · rename_i hfound
      exact Triple.pure fun s h => ⟨h.1, h.2 hfound⟩
    · refine Triple.weaken ?_ (fun s h => h.1) fun _ _ h => h
      exact (removeImage_keeps _).bind fun _ => createFile_mapped nodeTag size
  · exact createFile_mapped nodeTag size

theorem setUp_mapped (size size' : Nat) (nodeTag : Bytes) :
    Triple (fun s => s.kv = ({ totalMemorySize := size', storageMode := .persistent,
                               connMode := .server } : KvStore))
      (setUp size .persistent .server nodeTag)
      (fun _ s => s.kv.Mapped nodeTag) (fun s => s.kv.Persistent nodeTag) := by
  have hrest : Triple (fun s => s.kv.Persistent nodeTag)
      (do createPersistentStorage size
          removeMutex
          openOrCreateMutex)
      (fun _ s => s.kv.Mapped nodeTag) (fun s => s.kv.Persistent nodeTag) := by
    refine Triple.bind _ (createPersistentStorage_mapped nodeTag size) fun _ => ?_
    refine Triple.bind _ (removeMutex_keeps.weaken_error fun s hs => hs.1) fun _ => ?_
    exact openOrCreateMutex_keeps.weaken_error fun s hs => hs.1
  unfold setUp
  simp only [if_true]
  by_cases htag : nodeTag = []
  · rw [if_neg (not_not.mpr htag)]
    refine hrest.weaken (fun s hs => ?_) fun _ _ h => h
    rw [hs, htag]
    exact ⟨rfl, rfl, rfl, rfl⟩
  · rw [if_pos htag]
    refine Triple.bind _ (Triple.modify fun s hs => ?_) fun _ => hrest
    rw [hs]
    exact ⟨rfl, rfl, (if_neg htag).symm, (if_neg htag).symm⟩

theorem recover_mapped (size : Nat) (nodeTag : Bytes) :
    Triple (fun s => s.kv.Persistent nodeTag) (recover size)
      (fun _ s => s.kv.Mapped nodeTag) (fun s => s.kv.Persistent nodeTag) := by
  refine Triple.get_bind fun s₀ hs₀ => ?_
  rw [hs₀.mode]
  refine catchInterprocess_triple ?_ (fun _ hs => hs) fun e => ?_
  · refine (openOnly_keeps _).bind fun _ => ?_
    refine Triple.bind (fun _ s => s.kv.Mapped nodeTag)
      (Triple.modify fun s hs => ⟨hs.setStorage true, rfl⟩) fun _ => ?_
    refine Triple.bind _ ((findMap_keeps _).weaken_error fun s hs => hs.1) fun found => ?_
    exact Triple.modify fun s hs => ⟨hs.1.setMapPtr found, hs.2⟩
  · refine Triple.get_bind fun s₁ _ => ?_
    refine (modifyHost_keeps _).bind fun _ => removeMutex_keeps.bind fun _ => ?_
    refine Triple.bind _ (createPersistentStorage_mapped nodeTag size) fun _ => ?_
    exact openOrCreateMutex_keeps.weaken_error fun s hs => hs.1

/-- A store that comes up has been constructed, with the default size if none was asked for. -/
theorem construct_of_getInstance {size : Nat} {mode : StorageMode} {connMode : ConnectionMode}
    {nodeTag : Bytes} {host : Host} {outcomes : List (Option Exn)} {s : Server}
    (h : getInstance size mode connMode nodeTag host outcomes = .ok s) :
    ∃ n rest, n = (if 0 < size then size else defaultMemorySize) ∧
      (construct n mode connMode nodeTag).run
        { kv := { totalMemorySize := n, storageMode := mode, connMode := connMode }
          host := host
          outcomes := outcomes } = .ok () { kv := s.kv, host := s.host, outcomes := rest } := by
  unfold getInstance at h
  dsimp only at h
  split at h
  · rename_i a s' hrun
    cases h
    exact ⟨_, s'.outcomes, rfl, hrun⟩
  · cases h

/-- However the constructor got there, a server that is up in persistent mode holds a
segment under the names of its tag. -/
theorem getInstance_mapped {size : Nat} {nodeTag : Bytes} {host : Host}
    {outcomes : List (Option Exn)} {s : Server}
    (h : getInstance size .persistent .server nodeTag host outcomes = .ok s) :
    s.kv.Mapped nodeTag := by
  obtain ⟨n, rest, -, hrun⟩ := construct_of_getInstance h
  refine Triple.of_ok (catchInterprocess_triple (setUp_mapped n n nodeTag)
    (fun _ hs => hs) fun e => ?_) rfl hrun
  exact recover_mapped n nodeTag

end KvStore

/-! ### Construction when no call is forced to fail -/

namespace Boost

variable {s : BoostState} {mode : StorageMode} {size : Nat} {seg : Segment}

theorem run_call (hs : s.outcomes = []) : call.run s = .ok () s := by
  unfold call
  rw [run_get_bind, hs]
  rfl

theorem run_openOnly_segment (hs : s.outcomes = [])
    (hi : s.host.image mode (s.kv.segmentName mode) = some (.segment seg)) :
    (openOnly mode).run s = .ok () s := by
  unfold openOnly
  rw [run_bind_ok (run_call hs), run_get_bind, hi]
  rfl

theorem run_openOnly_corrupt (hs : s.outcomes = [])
    (hi : s.host.image mode (s.kv.segmentName mode) = some .corrupt) :
    (openOnly mode).run s = .error (.interprocess (str "not a segment")) s := by
  unfold openOnly
  rw [run_bind_ok (run_call hs), run_get_bind, hi]
  rfl

theorem run_findMap (hs : s.outcomes = [])
    (hi : s.host.image mode (s.kv.segmentName mode) = some (.segment seg)) :
    (findMap mode).run s = .ok seg.sharedMap.isSome s := by
  unfold findMap
  rw [run_bind_ok (run_call hs), run_get_bind, hi]
  rfl

theorem run_createOnly (hs : s.outcomes = [])
    (hi : s.host.image mode (s.kv.segmentName mode) = none) :
    (createOnly mode size).run s =
      .ok () { s with host := s.host.setImage mode (s.kv.segmentName mode)
                        (some (.segment { size := size, sharedMap := none })) } := by
  unfold createOnly
  rw [run_bind_ok (run_call hs), run_get_bind, hi]
  rfl

theorem run_constructMap (hs : s.outcomes = [])
    (hi : s.host.image mode (s.kv.segmentName mode) = some (.segment seg)) :
    (constructMap mode).run s =
      .ok () { s with host := s.host.setImage mode (s.kv.segmentName mode)
                        (some (.segment { seg with sharedMap := some ∅ })) } := by
  unfold constructMap
  rw [run_bind_ok (run_call hs), run_get_bind, hi]
  rfl

theorem run_openOrCreateMutex (hs : s.outcomes = []) : openOrCreateMutex.run s =
    .ok () { s with host := s.host.setMutex s.kv.mutexName true } := by
  unfold openOrCreateMutex
  rw [run_bind_ok (run_call hs)]
  rfl

theorem run_catchInterprocess {α : Type} (body : Boost α) (handler : Exn → Boost α)
    (s : BoostState) : (catchInterprocess body handler).run s =
      match body.run s with
      | .error (.interprocess w) s' => (handler (.interprocess w)).run s'
      | r => r := by
  show EStateM.tryCatch body _ s = _
  unfold EStateM.tryCatch EStateM.run
  cases body s with
  | ok a s' => rfl
  | error e s' => cases e <;> rfl

end Boost

namespace KvStore

open Boost

/-- The map in the file at a path, if there is one. -/
def fileMap (h : Host) (path : Bytes) : Option HashMap :=
  match h.files path with
  | some (.segment seg) => seg.sharedMap
  | _ => none

@[simp] theorem fileMap_setImage (h : Host) (path : Bytes) (seg : Segment) :
    fileMap (h.setImage .persistent path (some (.segment seg))) path = seg.sharedMap := by
  show (match Function.update h.files path _ path with
    | some (.segment seg) => seg.sharedMap
    | _ => none) = _
  rw [Function.update_self]

theorem sharedMap_persistent {kv : KvStore} (hmode : kv.storageMode = .persistent)
    (hptr : kv.persistentMapPtr = true) (h : Host) :
    kv.sharedMap h = fileMap h kv.persistentFilePath := by
  have hhas : kv.hasMapPtr kv.storageMode = true := by
    rw [hmode]
    exact hptr
  unfold sharedMap fileMap
  rw [if_pos hhas, hmode]
  rfl

/-- Where no file stands, one with an empty map is made. -/
theorem run_createFile (size : Nat) {s : BoostState} (hs : s.outcomes = [])
    (hf : s.host.files s.kv.persistentFilePath = none) :
    ∃ host, (createFile size).run s =
        .ok () { s with kv := { s.kv with fileStorage := true, persistentMapPtr := true }
                        host := host } ∧
      fileMap host s.kv.persistentFilePath = some ∅ := by
  refine ⟨_, ?_, fileMap_setImage (s.host.setImage .persistent s.kv.persistentFilePath
    (some (.segment { size := size, sharedMap := none }))) _
    { size := size, sharedMap := some ∅ }⟩
  have himage : s.host.image .persistent (s.kv.segmentName .persistent) = none := hf
  unfold createFile
  rw [run_bind_ok (run_createOnly hs himage)]
  unfold modifyKv
  rw [run_modify_bind]
  have hmap := @run_constructMap
    { s with
      kv := s.kv.setStorage .persistent true
      host := s.host.setImage .persistent s.kv.persistentFilePath
        (some (.segment { size := size, sharedMap := none })) }
    .persistent { size := size, sharedMap := none } hs (image_setImage s.host .persistent _ _)
  exact run_bind_ok hmap

theorem run_openExistingFile {s : BoostState} (hs : s.outcomes = []) {image : Image}
    (hf : s.host.files s.kv.persistentFilePath = some image) :
    openExistingFile.run s =
      match fileMap s.host s.kv.persistentFilePath with
      | some _ => .ok true
          { s with kv := { s.kv with fileStorage := true, persistentMapPtr := true } }
      | none => .ok false { s with kv := { s.kv with fileStorage := false } } := by
  have himage : s.host.image .persistent (s.kv.segmentName .persistent) = some image := hf
  unfold openExistingFile
  rw [run_catchInterprocess]
  cases image with
  | corrupt =>
      have hmap : fileMap s.host s.kv.persistentFilePath = none := by
        unfold fileMap
        rw [hf]
      rw [run_bind_error (run_openOnly_corrupt hs himage), hmap]
      rfl
  | segment seg =>
      have hmap : fileMap s.host s.kv.persistentFilePath = seg.sharedMap := by
        unfold fileMap
        rw [hf]
      rw [run_bind_ok (run_openOnly_segment hs himage), hmap]
      unfold modifyKv
      rw [run_modify_bind, run_bind_ok (@run_findMap
        { s with kv := s.kv.setStorage .persistent true } .persistent seg hs himage)]
      cases seg.sharedMap with
      | none => rfl
      | some m => rfl

/-- `createPersistentStorage` keeps the map it finds in its file, and makes a file with an
empty one otherwise. -/
theorem run_createPersistentStorage (size : Nat) {s : BoostState} (hs : s.outcomes = []) :
    ∃ host, (createPersistentStorage size).run s =
        .ok () { s with kv := { s.kv with fileStorage := true, persistentMapPtr := true }
                        host := host } ∧
      fileMap host s.kv.persistentFilePath =
        some ((fileMap s.host s.kv.persistentFilePath).getD ∅) := by
  unfold createPersistentStorage
  rw [run_get_bind]
  cases hfile : s.host.files s.kv.persistentFilePath with
  | none =>
      obtain ⟨host, hrun, hmap⟩ := run_createFile size hs hfile
      refine ⟨host, hrun, ?_⟩
      rw [hmap]
      unfold fileMap
      rw [hfile]
      rfl
  | some image =>
      have hopen := run_openExistingFile hs hfile
      simp only [Option.isSome_some, if_true]
      cases hmap : fileMap s.host s.kv.persistentFilePath with
      | some m =>
          rw [hmap] at hopen
          exact ⟨s.host, run_bind_ok hopen, hmap⟩
      | none =>
          rw [hmap] at hopen
          -- the file goes, so it is `createFile` on a host without it
          obtain ⟨host, hrun, hempty⟩ := @run_createFile size
            { s with
              kv := { s.kv with fileStorage := false }
              host := s.host.setImage .persistent s.kv.persistentFilePath none } hs
            (image_setImage s.host .persistent _ _)
          exact ⟨host, (run_bind_ok hopen).trans hrun, hempty⟩

/-- **A restart finds what is in its file.**  When no call is forced to fail, a server in
persistent mode comes up with its mutex, and with the map that stands in its file or else
an empty one. -/
theorem getInstance_persistent (size : Nat) (nodeTag : Bytes) (host : Host) :
    ∃ s, getInstance size .persistent .server nodeTag host [] = .ok s ∧
      s.kv.sharedMap s.host = some ((fileMap host (persistentFilePathOf nodeTag)).getD ∅) ∧
      s.host.mutexes s.kv.mutexName = true := by
  unfold getInstance
  dsimp only
  generalize (if 0 < size then size else defaultMemorySize) = size
  have hrest : ∀ s : BoostState, s.outcomes = [] →
      s.kv.persistentFilePath = persistentFilePathOf nodeTag → s.kv.storageMode = .persistent →
      ∃ s', EStateM.run (do
          createPersistentStorage size
          removeMutex
          openOrCreateMutex) s = .ok () s' ∧
        s'.kv.sharedMap s'.host =
          some ((fileMap s.host (persistentFilePathOf nodeTag)).getD ∅) ∧
        s'.host.mutexes s'.kv.mutexName = true := by
    intro s hs hpath hmode
    obtain ⟨host', hrun, hmap⟩ := run_createPersistentStorage size hs
    refine ⟨_, (run_bind_ok hrun).trans (run_openOrCreateMutex hs), ?_, ?_⟩
    · refine Eq.trans (sharedMap_persistent ?_ ?_ _) ?_
      · exact hmode
      · rfl
      · rw [← hpath]
        exact hmap
    · exact Function.update_self _ _ _
  have hset : ∃ s', (setUp size .persistent .server nodeTag).run
        { kv := { totalMemorySize := size, storageMode := .persistent, connMode := .server }
          host := host } = .ok () s' ∧
      s'.kv.sharedMap s'.host =
        some ((fileMap host (persistentFilePathOf nodeTag)).getD ∅) ∧
      s'.host.mutexes s'.kv.mutexName = true := by
    unfold setUp
    simp only [if_true]
    by_cases htag : nodeTag = []
    · rw [if_neg (not_not.mpr htag)]
      refine hrest _ rfl ?_ rfl
      rw [htag]
      rfl
    · rw [if_pos htag]
      exact hrest
        { kv :=
            { persistentFilePath := str "./kvstore_persistent_" ++ nodeTag ++ str ".dat"
              mutexName := str "SharedMapMutex_" ++ nodeTag
              shmName := str "Project_" ++ nodeTag
              totalMemorySize := size, storageMode := .persistent, connMode := .server }
          host := host } rfl (if_neg htag).symm rfl
  obtain ⟨s', hrun, hmap, hmutex⟩ := hset
  refine ⟨{ kv := s'.kv, host := s'.host }, ?_, hmap, hmutex⟩
  unfold construct
  rw [run_catchInterprocess, hrun]

end KvStore

end DistKV
