/-
What a store can touch on its host.

Constructors and destructors set the pointers of the object, make, empty and remove what
stands under its names, and delete temporary files.  What holds of object and host and is
kept by each of these (`Stable`) is kept by the whole, whichever calls fail and however it
ends.
-/
import DistKV.Proofs.Recovery

namespace DistKV.KvStore

open Boost Hoare

/-- What everything keeps that a client does before its operations. -/
structure Attachable (I : KvStore → Host → Prop) : Prop where
  storage : ∀ kv h mode b, I kv h → I (kv.setStorage mode b) h
  mapPtr : ∀ kv h mode b, I kv h → I (kv.setMapPtr mode b) h
  openMutex : ∀ kv h, I kv h → I kv (h.setMutex kv.mutexName true)

/-- What everything keeps that a store does before and after its operations. -/
structure Stable (I : KvStore → Host → Prop) : Prop extends Attachable I where
  segment : ∀ kv h mode seg, seg.sharedMap = none ∨ seg.sharedMap = some ∅ → I kv h →
    I kv (h.setImage mode (kv.segmentName mode) (some (.segment seg)))
  remove : ∀ kv h mode, I kv h → I kv (h.setImage mode (kv.segmentName mode) none)
  noMutex : ∀ kv h, I kv h → I kv (h.setMutex kv.mutexName false)
  temporary : ∀ kv h, I kv h →
    I kv { h with files := fun f => if isTemporaryFile f then none else h.files f }

/-- A store as its constructor makes it, under the names of its node. -/
def named (size : Nat) (mode : StorageMode) (connMode : ConnectionMode) (nodeTag : Bytes) :
    KvStore where
  persistentFilePath := segmentNameOf .persistent nodeTag
  mutexName := mutexNameOf nodeTag
  shmName := segmentNameOf .memory nodeTag
  totalMemorySize := size
  storageMode := mode
  connMode := connMode

/-- A store under construction, and its host. -/
abbrev On (I : KvStore → Host → Prop) (s : BoostState) : Prop := I s.kv s.host

theorem call_on (I : KvStore → Host → Prop) : Keeps (On I) call := by
  unfold call
  refine Triple.get_bind fun s₀ _ => ?_
  split
  · exact Keeps.pure _
  · exact Triple.modify fun _ hs => hs
  · exact Triple.bind _ (Triple.modify fun _ hs => hs) fun _ => Keeps.throw _

theorem openOnly_on (I : KvStore → Host → Prop) (mode : StorageMode) :
    Keeps (On I) (openOnly mode) := by
  refine (call_on I).bind fun _ => Triple.get_bind fun s₀ _ => ?_
  split
  · exact Keeps.pure _
  · exact Keeps.throw _
  · exact Keeps.throw _

theorem findMap_on (I : KvStore → Host → Prop) (mode : StorageMode) :
    Keeps (On I) (findMap mode) := by
  refine (call_on I).bind fun _ => Triple.get_bind fun s₀ _ => ?_
  split
  · exact Keeps.pure _
  · exact Keeps.pure _

variable {I : KvStore → Host → Prop} {size total : Nat} {mode : StorageMode}
  {connMode : ConnectionMode} {nodeTag : Bytes}

/-- A store before its constructor has named what it will touch. -/
structure Unnamed (I : KvStore → Host → Prop) (total : Nat) (mode : StorageMode)
    (connMode : ConnectionMode) (nodeTag : Bytes) (s : BoostState) : Prop where
  kv : s.kv = { totalMemorySize := total, storageMode := mode, connMode := connMode }
  named : I (named total mode connMode nodeTag) s.host

theorem setUp_on (hprovide : Keeps (On I) (provide size mode connMode)) :
    Triple (Unnamed I total mode connMode nodeTag) (setUp size mode connMode nodeTag)
      (fun _ => On I) (On I) := by
  unfold KvStore.setUp
  by_cases htag : nodeTag = []
  · rw [if_neg (not_not.mpr htag)]
    refine hprovide.weaken ?_ fun _ _ hs => hs
    intro s hs
    have hnamed := hs.named
    rw [htag] at hnamed
    unfold On
    rw [hs.kv]
    exact hnamed
  · rw [if_pos htag]
    refine Triple.bind (fun _ => On I) (Triple.modify ?_) fun _ => hprovide
    intro s hs
    have hnamed := hs.named
    unfold KvStore.named segmentNameOf mutexNameOf persistentFilePathOf at hnamed
    simp only [if_neg htag] at hnamed
    unfold On
    rw [hs.kv]
    exact hnamed

namespace Attachable

variable (hI : Attachable I)

include hI

theorem setStorage (mode : StorageMode) (b : Bool) :
    Keeps (On I) (modifyKv (·.setStorage mode b)) :=
  Triple.modify fun _ hs => hI.storage _ _ _ _ hs

theorem setMapPtr (mode : StorageMode) (b : Bool) :
    Keeps (On I) (modifyKv (·.setMapPtr mode b)) :=
  Triple.modify fun _ hs => hI.mapPtr _ _ _ _ hs

theorem openOrCreateMutex : Keeps (On I) openOrCreateMutex :=
  (call_on I).bind fun _ s hs => hI.openMutex s.kv s.host hs

theorem connectToStorage (mode : StorageMode) :
    Keeps (On I) (connectToStorage mode) := by
  have hconnect : ∀ mode e, Keeps (On I) (do
      openOnly mode
      modifyKv (·.setStorage mode true)
      if ← findMap mode then modifyKv (·.setMapPtr mode true) else throw e) := by
    intro mode e
    refine (openOnly_on I _).bind fun _ => (hI.setStorage _ _).bind fun _ =>
      (findMap_on I _).bind fun found => ?_
    split
    · exact hI.setMapPtr _ _
    · exact Keeps.throw _
  cases mode with
  | memory => exact hconnect .memory _
  | persistent =>
      refine Triple.get_bind fun s₀ _ => ?_
      split
      · exact Keeps.throw _
      · exact hconnect .persistent _

theorem construct : Triple (Unnamed I total mode .client nodeTag)
    (construct size mode .client nodeTag) (fun _ => On I) (On I) := by
  have hprovide : Keeps (On I) (provide size mode .client) :=
    (hI.connectToStorage mode).bind fun _ => hI.openOrCreateMutex
  exact catchInterprocess_triple (setUp_on hprovide) (fun _ hs => hs) fun e => Keeps.throw e

end Attachable

namespace Stable

variable (hI : Stable I)

include hI

/-! ### The calls -/

theorem createOnly (mode : StorageMode) (size : Nat) : Keeps (On I) (createOnly mode size) := by
  refine (call_on I).bind fun _ => Spec.get_bind fun s₀ hs₀ => ?_
  split
  · exact Spec.throw fun s hs => hs ▸ hs₀
  · rintro s rfl
    exact hI.segment _ _ _ _ (Or.inl rfl) hs₀

theorem constructMap (mode : StorageMode) : Keeps (On I) (constructMap mode) := by
  refine (call_on I).bind fun _ => Spec.get_bind fun s₀ hs₀ => ?_
  split
  · rintro s rfl
    exact hI.segment _ _ _ _ (Or.inr rfl) hs₀
  · exact Spec.pure fun s hs => hs ▸ hs₀

theorem removeImage (mode : StorageMode) : Keeps (On I) (removeImage mode) :=
  fun s hs => hI.remove s.kv s.host mode hs

theorem removeMutex : Keeps (On I) removeMutex := fun s hs => hI.noMutex s.kv s.host hs

theorem cleanup {kv : KvStore} {h : Host} (hkv : I kv h) : I kv (kv.cleanupStorage h) := by
  unfold cleanupStorage
  cases kv.storageMode with
  | memory => exact hI.temporary _ _ (hI.remove _ _ .memory hkv)
  | persistent => exact hI.remove _ _ .persistent hkv

/-! ### Construction -/

theorem createMemoryStorage (size : Nat) :
    Keeps (On I) (createMemoryStorage size) := by
  refine Keeps.bind (catchInterprocess_triple ?_ (fun _ hs => hs) fun e => Keeps.pure _) fun _ => ?_
  · exact (openOnly_on I _).bind fun _ => (findMap_on I _).bind fun _ => Keeps.pure _
  · exact (hI.removeImage _).bind fun _ => (hI.createOnly _ _).bind fun _ =>
      (hI.setStorage _ _).bind fun _ => (hI.constructMap _).bind fun _ => hI.setMapPtr _ _

theorem openExistingFile : Keeps (On I) openExistingFile := by
  refine catchInterprocess_triple ?_ (fun _ hs => hs) fun e => ?_
  · refine (openOnly_on I _).bind fun _ => (hI.setStorage _ _).bind fun _ =>
      (findMap_on I _).bind fun found => ?_
    split
    · exact (hI.setMapPtr _ _).bind fun _ => Keeps.pure _
    · exact (hI.setStorage _ _).bind fun _ => Keeps.pure _
  · exact (hI.setStorage _ _).bind fun _ => Keeps.pure _

theorem createFile (size : Nat) : Keeps (On I) (createFile size) :=
  (hI.createOnly _ _).bind fun _ => (hI.setStorage _ _).bind fun _ =>
    (hI.constructMap _).bind fun _ => hI.setMapPtr _ _

theorem createPersistentStorage (size : Nat) :
    Keeps (On I) (createPersistentStorage size) := by
  refine Triple.get_bind fun s₀ _ => ?_
  split
  · refine hI.openExistingFile.bind fun found => ?_
    split
    · exact Keeps.pure _
    · exact (hI.removeImage _).bind fun _ => hI.createFile size
  · exact hI.createFile size

theorem createStorage (mode : StorageMode) (size : Nat) :
    Keeps (On I) (createStorage mode size) := by
  cases mode with
  | memory => exact hI.createMemoryStorage size
  | persistent => exact hI.createPersistentStorage size

theorem provide (size : Nat) (mode : StorageMode) : Keeps (On I) (provide size mode .server) :=
  (hI.createStorage mode size).bind fun _ => hI.removeMutex.bind fun _ => hI.openOrCreateMutex

theorem recover (size : Nat) : Keeps (On I) (recover size) := by
  refine Triple.get_bind fun s₀ _ => catchInterprocess_triple ?_ (fun _ hs => hs) fun e => ?_
  · exact (openOnly_on I _).bind fun _ => (hI.setStorage _ _).bind fun _ =>
      (findMap_on I _).bind fun _ => hI.setMapPtr _ _
  · refine Spec.get_bind fun s₁ hs₁ => ?_
    refine Spec.bind (fun _ => On I) ?_ fun _ => ?_
    · rintro s rfl
      exact hI.cleanup hs₁
    · exact hI.removeMutex.bind fun _ => (hI.createStorage _ size).bind fun _ =>
        hI.openOrCreateMutex

theorem construct : Triple (Unnamed I total mode .server nodeTag)
    (construct size mode .server nodeTag) (fun _ => On I) (On I) :=
  catchInterprocess_triple (setUp_on (hI.provide size mode)) (fun _ hs => hs) fun _ =>
    hI.recover size

/-! ### Destruction -/

theorem destroyMap {kv : KvStore} {h : Host} (hkv : I kv h) (mode : StorageMode) :
    I kv (kv.destroyMap mode h) := by
  unfold KvStore.destroyMap
  split
  · exact hI.segment _ _ _ _ (Or.inl rfl) hkv
  · exact hkv

theorem destruct {kv : KvStore} {h : Host} (hkv : I kv h) : I kv (kv.destruct h) := by
  unfold KvStore.destruct
  cases kv.connMode with
  | client => exact hkv
  | server =>
      refine hI.noMutex _ _ ?_
      have hmap : I kv (if kv.hasMapPtr kv.storageMode then kv.destroyMap kv.storageMode h
          else h) := by
        split
        · exact hI.destroyMap hkv _
        · exact hkv
      split
      · dsimp only
        split
        · exact hI.cleanup hmap
        · exact hmap
      · exact hkv

theorem finish {s : Server} (hs : I s.kv s.host) (ending : Server.Ending) :
    I s.kv (s.finish ending) := by
  cases ending with
  | shutdown => exact hI.destruct hs
  | kill => exact hs

end Stable

end DistKV.KvStore
