/-
What a server in persistent mode finds when it comes up again.

The file outlives the process, and a kill leaves it as it is.  A clean shutdown does
not: the destructor of a server destroys the map in the file before it lets go of
the segment, so the next process finds a file without one and starts from nothing.
-/
import DistKV.Proofs.Construct
import Mathlib.Data.Fintype.EquivFin

namespace DistKV.Server

open KvStore

variable {s : Server} {nodeTag : Bytes}

/-- Some key is in no map. -/
theorem exists_lookup_eq_none (m : HashMap) : ∃ key, m.lookup key = none := by
  obtain ⟨key, hkey⟩ := Infinite.exists_notMem_finset m.keys.toFinset
  refine ⟨key, AList.lookup_eq_none.mpr fun hmem => hkey ?_⟩
  rw [List.mem_toFinset]
  exact AList.mem_keys.mpr hmem

/-- A store that is not serving answers every `Find` alike, and never with a miss. -/
theorem find_of_not_serving (hs : ¬ s.Serving) :
    ∃ text, text ≠ str "key not found" ∧ ∀ key, s.find key = text := by
  cases hm : s.kv.sharedMap s.host with
  | none =>
      refine ⟨str "Map not found", by decide, fun key => ?_⟩
      unfold Server.find KvStore.find
      rw [hm]
  | some m =>
      cases hmutex : s.host.mutexes s.kv.mutexName with
      | true => exact absurd ⟨⟨m, hm⟩, hmutex⟩ hs
      | false =>
          refine ⟨str "Error: " ++ notFound.what, by decide, fun key => ?_⟩
          unfold Server.find KvStore.find
          simp only [hm, hmutex]
          rfl

/-- The map a persistent server shows is the one in its file. -/
theorem fileMap_of_serving (hp : s.kv.Persistent nodeTag) {m : HashMap}
    (hm : s.kv.sharedMap s.host = some m) :
    fileMap s.host (persistentFilePathOf nodeTag) = some m := by
  have hptr : s.kv.persistentMapPtr = true := by
    have h := (sharedMap_eq_some.mp hm).1
    rw [hp.mode] at h
    exact h
  rw [← hp.file, ← sharedMap_persistent hp.mode hptr, hm]

/-- The destructor of a server leaves no map in the file it has one from. -/
theorem fileMap_destruct (hp : s.kv.Mapped nodeTag) (hptr : s.kv.persistentMapPtr = true) :
    fileMap (s.kv.destruct s.host) (persistentFilePathOf nodeTag) = none := by
  have hdestroy : fileMap (s.kv.destroyMap .persistent s.host) s.kv.persistentFilePath =
      none := by
    unfold destroyMap
    cases hi : s.host.image .persistent (s.kv.segmentName .persistent) with
    | none =>
        unfold fileMap
        rw [show s.host.files s.kv.persistentFilePath = none from hi]
    | some image =>
        cases image with
        | segment seg => exact fileMap_setImage s.host _ { seg with sharedMap := none }
        | corrupt =>
            unfold fileMap
            rw [show s.host.files s.kv.persistentFilePath = some .corrupt from hi]
  have hstorage : s.kv.hasStorage .persistent = true := hp.2
  have hmap : s.kv.hasMapPtr .persistent = true := hptr
  rw [← hp.1.file, ← hdestroy]
  unfold destruct
  simp only [hp.1.conn, hp.1.mode, hstorage, hmap, if_true]
  rfl

/-- A server that comes up on what another left behind. -/
theorem restart (size : Nat) (nodeTag : Bytes) (host : Host) :
    ∃ s', getInstance size .persistent .server nodeTag host [] = .ok s' ∧ s'.Up ∧
      ∀ key, s'.contents key =
        (((fileMap host (persistentFilePathOf nodeTag)).getD ∅).lookup key).map cStr := by
  obtain ⟨s', hrun, hmap, hmutex⟩ := getInstance_persistent size nodeTag host
  have hmapped := getInstance_mapped hrun
  have hstorage : s'.kv.hasStorage s'.kv.storageMode = true := by
    rw [hmapped.1.mode]
    exact hmapped.2
  exact ⟨s', hrun, ⟨⟨⟨_, hmap⟩, hmutex⟩, hstorage⟩, contents_of_map hmap⟩

/-- Nothing but misses, wherever the store holds nothing but their text. -/
theorem find_eq_miss_iff (hs : s.Serving) :
    (∀ key, str "key not found" = s.find key) ↔
      ∀ key value, s.contents key = some value → value = str "key not found" := by
  constructor
  · intro h key value hv
    rw [h key, find_eq hs, hv]
    rfl
  · intro h key
    rw [find_eq hs]
    cases hv : s.contents key with
    | none => rfl
    | some value => exact (h key value hv).symm

/-- **Persistence across a restart.**  A server in persistent mode comes up again, and
finds what the one before it held exactly when that one was serving and was killed, or
held nothing that reads differently from a miss. -/
theorem restart_keeps_iff (size size' : Nat) (nodeTag : Bytes) (host : Host)
    (outcomes : List (Option Exn)) (s : Server)
    (h : getInstance size .persistent .server nodeTag host outcomes = .ok s)
    (calls : List (MemEnv × StoreOp)) (ending : Ending) :
    ∃ s', getInstance size' .persistent .server nodeTag ((s.run calls).finish ending) [] =
        .ok s' ∧
      ((∀ key, s'.find key = (s.run calls).find key) ↔
        (s.run calls).Serving ∧ (ending = .kill ∨ ∀ key value,
          (s.run calls).contents key = some value → value = str "key not found")) := by
  have hp : (s.run calls).kv.Mapped nodeTag :=
    @run_invariant (fun s => s.kv.Mapped nodeTag) (fun _ _ hP => hP) calls s (getInstance_mapped h)
  generalize s.run calls = t at hp ⊢
  obtain ⟨s', hrun, ⟨hserving, -⟩, hcontents⟩ := restart size' nodeTag (t.finish ending)
  refine ⟨s', hrun, ?_⟩
  by_cases ht : t.Serving
  · obtain ⟨m, hm⟩ := ht.map
    have hfile := fileMap_of_serving hp.1 hm
    cases ending with
    | kill =>
        refine iff_of_true (fun key => ?_) ⟨ht, Or.inl rfl⟩
        rw [find_eq hserving, find_eq ht, hcontents, contents_of_map hm]
        show ((((fileMap t.host _).getD ∅).lookup key).map cStr).getD _ = _
        rw [hfile]
        rfl
    | shutdown =>
        have hptr : t.kv.persistentMapPtr = true := by
          have hhas := (sharedMap_eq_some.mp hm).1
          rw [hp.1.mode] at hhas
          exact hhas
        have hmiss : ∀ key, s'.find key = str "key not found" := by
          intro key
          rw [find_eq hserving, hcontents]
          show ((((fileMap (t.kv.destruct t.host) _).getD ∅).lookup key).map cStr).getD _ = _
          rw [fileMap_destruct hp hptr]
          rfl
        simp only [hmiss, find_eq_miss_iff ht, ht, true_and, reduceCtorEq, false_or]
  · -- the store before the end never missed, and the new one misses somewhere
    refine iff_of_false (fun hsame => ?_) fun hc => ht hc.1
    obtain ⟨text, htext, hfind⟩ := find_of_not_serving ht
    obtain ⟨key, hkey⟩ := exists_lookup_eq_none
      ((fileMap (t.finish ending) (persistentFilePathOf nodeTag)).getD ∅)
    refine htext ?_
    rw [← hfind key, ← hsame key, find_eq hserving, hcontents, hkey]
    rfl

/-- A server for port 8080, on a host with nothing on it. -/
def server8080 : Server where
  kv :=
    { persistentFilePath := str "./kvstore_persistent_8080.dat"
      mutexName := str "SharedMapMutex_8080"
      shmName := str "Project_8080"
      totalMemorySize := 100
      storageMode := .persistent
      connMode := .server
      fileStorage := true
      persistentMapPtr := true }
  host :=
    { files := Function.update (Function.update (fun _ => none)
        (str "./kvstore_persistent_8080.dat") (some (.segment { size := 100, sharedMap := none })))
        (str "./kvstore_persistent_8080.dat") (some (.segment { size := 100, sharedMap := some ∅ }))
      mutexes := Function.update (Function.update (fun _ => false)
        (str "SharedMapMutex_8080") false) (str "SharedMapMutex_8080") true }

theorem restart_keeps_iff_8080 :
    ∃ s', getInstance 100 .persistent .server (str "8080")
        ((server8080.run [(⟨1000, none⟩, .insert 1 (str "v"))]).finish .kill) [] = .ok s' ∧
      ((∀ key, s'.find key =
          (server8080.run [(⟨1000, none⟩, .insert 1 (str "v"))]).find key) ↔
        (server8080.run [(⟨1000, none⟩, .insert 1 (str "v"))]).Serving ∧
          (Ending.kill = .kill ∨ ∀ key value,
            (server8080.run [(⟨1000, none⟩, .insert 1 (str "v"))]).contents key = some value →
              value = str "key not found")) :=
  restart_keeps_iff 100 100 (str "8080") {} [] server8080 rfl _ _

/-- One insert and a clean shutdown: the value is gone. -/
theorem shutdown_forgets : ¬ ∀ (size size' : Nat) (nodeTag : Bytes) (host : Host) (s s' : Server)
    (calls : List (MemEnv × StoreOp)) (ending : Ending),
    getInstance size .persistent .server nodeTag host [] = .ok s →
    getInstance size' .persistent .server nodeTag ((s.run calls).finish ending) [] = .ok s' →
    ∀ key, s'.find key = (s.run calls).find key := by
  intro h
  have hsame := h 100 100 (str "8080") {} server8080 _ [(⟨1000, none⟩, .insert 1 (str "v"))]
    .shutdown rfl rfl 1
  revert hsame
  decide

end DistKV.Server
