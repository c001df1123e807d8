/-
Stores on one machine.

Two stores with the same mode and the same names do the same (`Alike`), and stores under other
names do nothing to them.  So on a machine with any number of processes the calls of a server
and of the clients attached to it make one sequence of calls of one store, as long as no other
server comes up with the same tag.
-/
import DistKV.Colocated
import DistKV.Proofs.Accounting
import DistKV.Proofs.Footprint
import DistKV.Proofs.Restart
import DistKV.Lib.Run

namespace DistKV

open Hoare Machine

/-! ### The names of a node -/

theorem mutexNameOf_injective : Function.Injective mutexNameOf := by
  intro a b h
  unfold mutexNameOf at h
  split at h
  · split at h
    · rename_i ha hb
      rw [ha, hb]
    · exact absurd (congrArg List.length h) (by simp [str])
  · split at h
    · exact absurd (congrArg List.length h) (by simp [str])
    · exact List.append_cancel_left h

theorem segmentNameOf_injective (mode : StorageMode) :
    Function.Injective (segmentNameOf mode) := by
  intro a b h
  cases mode with
  | memory =>
      unfold segmentNameOf at h
      dsimp only at h
      split at h
      · split at h
        · rename_i ha hb
          rw [ha, hb]
        · exact absurd (congrArg List.length h) (by simp [str])
      · split at h
        · exact absurd (congrArg List.length h) (by simp [str])
        · exact List.append_cancel_left h
  | persistent =>
      unfold segmentNameOf persistentFilePathOf at h
      dsimp only at h
      split at h
      · split at h
        · rename_i ha hb
          rw [ha, hb]
        · exact absurd (congrArg List.length h) (by simp [str])
      · split at h
        · exact absurd (congrArg List.length h) (by simp [str])
        · exact List.append_cancel_left (List.append_cancel_right h)

/-! ### Stores that do the same -/

theorem Host.image_setImage_of_ne (h : Host) {mode mode' : StorageMode} {name name' : Bytes}
    (hne : mode' = mode → name' ≠ name) (i : Option Image) :
    (h.setImage mode' name' i).image mode name = h.image mode name := by
  cases mode with
  | memory =>
      cases mode' with
      | memory => exact Function.update_of_ne (hne rfl).symm _ _
      | persistent => rfl
  | persistent =>
      cases mode' with
      | memory => rfl
      | persistent => exact Function.update_of_ne (hne rfl).symm _ _

/-- What stands under the name of a segment once a map has been put there. -/
theorem KvStore.image_putMap (kv : KvStore) (m : HashMap) (h : Host) :
    (kv.putMap m h).image kv.storageMode (kv.segmentName kv.storageMode) =
      match h.image kv.storageMode (kv.segmentName kv.storageMode) with
      | some (.segment seg) => some (.segment { seg with sharedMap := some m })
      | image => image := by
  unfold putMap
  rcases himage : h.image kv.storageMode (kv.segmentName kv.storageMode) with _ | seg | _
  · exact himage
  · exact image_setImage _ _ _ _
  · exact himage

namespace Server

/-- Stores of one mode under the same names, on hosts that have the same there. -/
structure Alike (s s' : Server) : Prop where
  mode : s.kv.storageMode = s'.kv.storageMode
  name : s.kv.segmentName s.kv.storageMode = s'.kv.segmentName s'.kv.storageMode
  mutexName : s.kv.mutexName = s'.kv.mutexName
  mapPtr : s.kv.hasMapPtr s.kv.storageMode = s'.kv.hasMapPtr s'.kv.storageMode
  storage : s.kv.hasStorage s.kv.storageMode = s'.kv.hasStorage s'.kv.storageMode
  image : s.host.image s.kv.storageMode (s.kv.segmentName s.kv.storageMode) =
    s'.host.image s'.kv.storageMode (s'.kv.segmentName s'.kv.storageMode)
  mutex : s.host.mutexes s.kv.mutexName = s'.host.mutexes s'.kv.mutexName

variable {s s' : Server} {env : MemEnv} {op : StoreOp} {key : Key}

namespace Alike

theorem sharedMap (h : s.Alike s') : s.kv.sharedMap s.host = s'.kv.sharedMap s'.host := by
  unfold KvStore.sharedMap
  rw [h.mapPtr, h.image]

theorem contents (h : s.Alike s') (key : Key) : s.contents key = s'.contents key := by
  unfold Server.contents
  rw [h.sharedMap]

theorem find (h : s.Alike s') (key : Key) : s.find key = s'.find key := by
  unfold Server.find KvStore.find
  rw [h.sharedMap, h.mutex]

theorem serving (h : s.Alike s') (hs : s.Serving) : s'.Serving where
  map := h.sharedMap ▸ hs.map
  mutex := h.mutex ▸ hs.mutex

theorem admits_iff (h : s.Alike s') : s.Admits env op ↔ s'.Admits env op := by
  have hfree : s.kv.hasEnoughMemory env = s'.kv.hasEnoughMemory env := by
    unfold KvStore.hasEnoughMemory KvStore.getFreeMemory
    rw [h.storage]
  cases op with
  | find key => exact Iff.rfl
  | insert key value =>
      dsimp only [Admits]
      rw [hfree, h.contents]
  | update key newValue =>
      dsimp only [Admits]
      rw [hfree, h.contents]
  | delete key => exact Iff.rfl

theorem withMap (h : s.Alike s') (m : HashMap) : (s.withMap m).Alike (s'.withMap m) where
  mode := h.mode
  name := h.name
  mutexName := h.mutexName
  mapPtr := h.mapPtr
  storage := h.storage
  image := by
    refine (KvStore.image_putMap s.kv m s.host).trans ?_
    refine Eq.trans ?_ (KvStore.image_putMap s'.kv m s'.host).symm
    rw [h.image]
  mutex := by
    show (s.kv.putMap m s.host).mutexes _ = (s'.kv.putMap m s'.host).mutexes _
    rw [KvStore.mutexes_putMap, KvStore.mutexes_putMap]
    exact h.mutex

theorem symm (h : s.Alike s') : s'.Alike s :=
  ⟨h.mode.symm, h.name.symm, h.mutexName.symm, h.mapPtr.symm, h.storage.symm, h.image.symm,
    h.mutex.symm⟩

/-- **Stores that do the same.** -/
theorem write (h : s.Alike s') (hs : s.Serving) (env : MemEnv) (op : StoreOp) :
    (s.write env op).Alike (s'.write env op) := by
  have hs' := h.serving hs
  by_cases ha : s.Admits env op
  · have ha' := h.admits_iff.mp ha
    obtain ⟨m, hm⟩ := hs.map
    have hm' := h.sharedMap ▸ hm
    cases op with
    | find key => exact h
    | insert key value =>
        rw [insert_eq hm hs.mutex ha, insert_eq hm' hs'.mutex ha']
        split
        · exact h
        · exact h.withMap _
    | update key newValue =>
        rw [update_eq hm hs.mutex ha, update_eq hm' hs'.mutex ha']
        split
        · exact h.withMap _
        · exact h
    | delete key =>
        rw [delete_eq hm hs.mutex env, delete_eq hm' hs'.mutex env]
        split
        · exact h.withMap _
        · exact h
  · rw [write_of_not_admits ha, write_of_not_admits fun ha' => ha (h.admits_iff.mpr ha')]
    exact h

end Alike

theorem kv_write (env : MemEnv) (s : Server) (op : StoreOp) : (s.write env op).kv = s.kv := by
  cases op <;> rfl

theorem mutexes_write (env : MemEnv) (s : Server) (op : StoreOp) :
    (s.write env op).host.mutexes = s.host.mutexes := by
  rcases write_cases env s op with hsame | ⟨m, m', -, hput, -⟩
  · rw [hsame]
  · rw [hput]
    exact KvStore.mutexes_putMap

/-- An operation changes nothing under other names. -/
theorem image_write_of_ne (env : MemEnv) (s : Server) (op : StoreOp) {mode : StorageMode}
    {name : Bytes} (hne : s.kv.storageMode = mode → s.kv.segmentName s.kv.storageMode ≠ name) :
    (s.write env op).host.image mode name = s.host.image mode name := by
  rcases write_cases env s op with hsame | ⟨m, m', -, hput, -⟩
  · rw [hsame]
  · rw [hput]
    show (s.kv.putMap m' s.host).image mode name = _
    unfold KvStore.putMap
    split
    · exact s.host.image_setImage_of_ne hne _
    · rfl

end Server

/-! ### Stores under other names -/

theorem Host.image_setMutex (h : Host) (mode : StorageMode) (name mutexName : Bytes) (b : Bool) :
    (h.setMutex mutexName b).image mode name = h.image mode name := by
  cases mode <;> rfl

/-- No store is in a temporary file. -/
theorem isTemporaryFile_segmentNameOf (nodeTag : Bytes) :
    KvStore.isTemporaryFile (segmentNameOf .persistent nodeTag) = false := by
  have hdot : ∃ rest, segmentNameOf .persistent nodeTag = 46 :: rest := by
    unfold segmentNameOf persistentFilePathOf
    dsimp only
    split
    · exact ⟨_, rfl⟩
    · exact ⟨_, rfl⟩
  obtain ⟨rest, hrest⟩ := hdot
  rw [hrest]
  rfl

namespace KvStore

variable {mode : StorageMode} {nodeTag : Bytes} {image : Option Image}

/-- What is under the names of a node. -/
structure Leaves (mode : StorageMode) (nodeTag : Bytes) (image : Option Image) (h : Host) :
    Prop where
  image : h.image mode (segmentNameOf mode nodeTag) = image
  mutex : h.mutexes (mutexNameOf nodeTag) = true

/-- The store of another node. -/
structure Elsewhere (mode : StorageMode) (nodeTag : Bytes) (kv : KvStore) : Prop where
  name : kv.segmentName mode ≠ segmentNameOf mode nodeTag
  mutexName : kv.mutexName ≠ mutexNameOf nodeTag

theorem stable_elsewhere : Stable fun kv h =>
    kv.connMode = .server ∧ kv.Elsewhere mode nodeTag ∧ Leaves mode nodeTag image h where
  storage := by
    rintro kv h mode' b ⟨hconn, helse, hleaves⟩
    cases mode' with
    | memory => exact ⟨hconn, { helse with }, hleaves⟩
    | persistent => exact ⟨hconn, { helse with }, hleaves⟩
  mapPtr := by
    rintro kv h mode' b ⟨hconn, helse, hleaves⟩
    cases mode' with
    | memory => exact ⟨hconn, { helse with }, hleaves⟩
    | persistent => exact ⟨hconn, { helse with }, hleaves⟩
  openMutex := by
    rintro kv h ⟨hconn, helse, hleaves⟩
    refine ⟨hconn, helse, (h.image_setMutex _ _ _ _).trans hleaves.image, ?_⟩
    exact (Function.update_of_ne helse.mutexName.symm _ _).trans hleaves.mutex
  noMutex := by
    rintro kv h ⟨hconn, helse, hleaves⟩
    refine ⟨hconn, helse, (h.image_setMutex _ _ _ _).trans hleaves.image, ?_⟩
    exact (Function.update_of_ne helse.mutexName.symm _ _).trans hleaves.mutex
  segment := by
    rintro kv h mode' seg - ⟨hconn, helse, hleaves⟩
    refine ⟨hconn, helse, (h.image_setImage_of_ne ?_ _).trans hleaves.image, ?_⟩
    · rintro rfl
      exact helse.name
    · rw [mutexes_setImage]
      exact hleaves.mutex
  remove := by
    rintro kv h mode' ⟨hconn, helse, hleaves⟩
    refine ⟨hconn, helse, (h.image_setImage_of_ne ?_ _).trans hleaves.image, ?_⟩
    · rintro rfl
      exact helse.name
    · rw [mutexes_setImage]
      exact hleaves.mutex
  temporary := by
    rintro kv h ⟨hconn, helse, himage, hmutex⟩
    refine ⟨hconn, helse, ?_, hmutex⟩
    cases mode with
    | memory => exact himage
    | persistent =>
        refine Eq.trans ?_ himage
        exact if_neg (by rw [isTemporaryFile_segmentNameOf]; decide)

theorem attachable_leaves : Attachable fun kv h =>
    kv.connMode = .client ∧ Leaves mode nodeTag image h where
  storage := by
    rintro kv h mode' b ⟨hconn, hleaves⟩
    cases mode' with
    | memory => exact ⟨hconn, hleaves⟩
    | persistent => exact ⟨hconn, hleaves⟩
  mapPtr := by
    rintro kv h mode' b ⟨hconn, hleaves⟩
    cases mode' with
    | memory => exact ⟨hconn, hleaves⟩
    | persistent => exact ⟨hconn, hleaves⟩
  openMutex := by
    rintro kv h ⟨hconn, hleaves⟩
    refine ⟨hconn, (h.image_setMutex _ _ _ _).trans hleaves.image, ?_⟩
    by_cases hname : mutexNameOf nodeTag = kv.mutexName
    · show Function.update h.mutexes kv.mutexName true (mutexNameOf nodeTag) = true
      rw [hname, Function.update_self]
    · exact (Function.update_of_ne hname _ _).trans hleaves.mutex

/-- A client that has attached to the segment of a node. -/
structure AttachedTo (nodeTag : Bytes) (kv : KvStore) : Prop where
  conn : kv.connMode = .client
  name : kv.segmentName kv.storageMode = segmentNameOf kv.storageMode nodeTag
  mutexName : kv.mutexName = mutexNameOf nodeTag
  mapPtr : kv.hasMapPtr kv.storageMode = true
  storage : kv.hasStorage kv.storageMode = true

theorem attachedTo_of_construct {size : Nat} {host : Host} {outcomes : List (Option Exn)}
    {b : BoostState}
    (h : (construct size mode .client nodeTag).run
      { kv := { totalMemorySize := size, storageMode := mode, connMode := .client }
        host := host, outcomes := outcomes } = .ok () b)
    (hconn : b.kv.connMode = .client) : b.kv.AttachedTo nodeTag := by
  obtain ⟨-, rest, hat⟩ := Spec.of_ok (X := fun _ _ => True) (Boost.catchInterprocess_spec
    setUp_client_spec (fun _ _ _ => trivial) fun _ => Spec.throw fun _ _ => trivial) rfl h
  have hmode : b.kv.storageMode = mode := hat.mode
  refine ⟨hconn, ?_, hat.mutexName, ?_, ?_⟩
  · rw [hmode]
    exact hat.name
  · rw [hmode]
    exact hat.mapPtr
  · rw [hmode]
    exact hat.storage

/-- A client with the segment of a node has attached to it. -/
theorem AttachedTo.mutexName_eq {kv : KvStore} {tag : Bytes} (h : kv.AttachedTo tag)
    (hmode : kv.storageMode = mode) (hname : kv.segmentName mode = segmentNameOf mode nodeTag) :
    kv.mutexName = mutexNameOf nodeTag := by
  have hsame := h.name
  rw [hmode, hname] at hsame
  rw [h.mutexName, segmentNameOf_injective mode hsame]

theorem elsewhere_named {size : Nat} {mode' : StorageMode} {tag : Bytes} (h : tag ≠ nodeTag) :
    (named size mode' .server tag).Elsewhere mode nodeTag where
  name := by
    have hname : (named size mode' .server tag).segmentName mode = segmentNameOf mode tag := by
      cases mode with
      | memory => rfl
      | persistent => rfl
    rw [hname]
    exact fun heq => h (segmentNameOf_injective mode heq)
  mutexName := fun heq => h (mutexNameOf_injective heq)

end KvStore

/-! ### Processes -/

/-- No other server comes up with the tag of a node, and the one that process `p₀` is stays up. -/
def ProcessEvent.Minds {π : Type} (p₀ : π) (nodeTag : Bytes) : ProcessEvent π → Prop
  | .getInstance _ _ _ connMode tag _ => connMode = .server → tag ≠ nodeTag
  | .call _ _ _ => True
  | .finish p _ => p ≠ p₀

namespace Colocated

variable {π : Type} [DecidableEq π] {t : Colocated π} {s : Server} {e : ProcessEvent π} {p₀ p : π}
  {mode : StorageMode} {nodeTag : Bytes}

/-- A store that works on the segment of a node. -/
def OnSegment (mode : StorageMode) (nodeTag : Bytes) (kv : KvStore) : Prop :=
  kv.storageMode = mode ∧ kv.segmentName mode = segmentNameOf mode nodeTag

instance : DecidablePred (OnSegment mode nodeTag) := fun kv => by
  unfold OnSegment
  infer_instance

/-- The call that an event makes on the segment of a node. -/
def callOn (mode : StorageMode) (nodeTag : Bytes) (t : Colocated π) :
    ProcessEvent π → List (MemEnv × StoreOp)
  | .call p env op =>
      match t.store p with
      | some kv => if OnSegment mode nodeTag kv then [(env, op)] else []
      | none => []
  | _ => []

/-- The calls that a run makes there, whichever processes make them. -/
def callsOn (mode : StorageMode) (nodeTag : Bytes) (t : Colocated π) :
    List (ProcessEvent π) → List (MemEnv × StoreOp)
  | [] => []
  | e :: es => t.callOn mode nodeTag e ++ callsOn mode nodeTag (t.step e) es

/-- A machine where process `p₀` is the server `s` of a node, and what the other processes are. -/
structure Hosts (p₀ : π) (mode : StorageMode) (nodeTag : Bytes) (s : Server) (t : Colocated π) :
    Prop where
  server : t.store p₀ = some s.kv
  segment : OnSegment mode nodeTag s.kv
  mutexName : s.kv.mutexName = mutexNameOf nodeTag
  up : s.Up
  leaves : KvStore.Leaves mode nodeTag (s.host.image mode (segmentNameOf mode nodeTag)) t.host
  others : ∀ p kv, p ≠ p₀ → t.store p = some kv →
    (∃ tag, kv.AttachedTo tag) ∨ kv.connMode = .server ∧ kv.Elsewhere mode nodeTag

namespace Hosts

/-- What works on the segment does what the server does. -/
theorem alike (h : Hosts p₀ mode nodeTag s t) {kv : KvStore} (hkv : t.store p = some kv)
    (hon : OnSegment mode nodeTag kv) : Server.Alike { kv := kv, host := t.host } s := by
  have hptr := (KvStore.sharedMap_eq_some.mp h.up.map.choose_spec).1
  obtain ⟨hmode, hname⟩ := hon
  have hmodes : kv.storageMode = s.kv.storageMode := hmode.trans h.segment.1.symm
  have hnames : kv.segmentName kv.storageMode = s.kv.segmentName s.kv.storageMode := by
    rw [hmode, h.segment.1, hname, h.segment.2]
  have himages : t.host.image kv.storageMode (kv.segmentName kv.storageMode) =
      s.host.image s.kv.storageMode (s.kv.segmentName s.kv.storageMode) := by
    rw [hmode, h.segment.1, hname, h.segment.2]
    exact h.leaves.image
  have hmutex : ∀ {name}, name = mutexNameOf nodeTag →
      t.host.mutexes name = s.host.mutexes s.kv.mutexName := by
    rintro name rfl
    rw [h.leaves.mutex, h.up.mutex]
  by_cases hp : p = p₀
  · subst hp
    rw [h.server] at hkv
    cases hkv
    exact ⟨rfl, rfl, rfl, rfl, rfl, himages, hmutex h.mutexName⟩
  · rcases h.others p kv hp hkv with ⟨tag, hattached⟩ | ⟨-, helse⟩
    · have hmutexName := hattached.mutexName_eq hmode hname
      exact ⟨hmodes, hnames, hmutexName.trans h.mutexName.symm, hattached.mapPtr.trans hptr.symm,
        hattached.storage.trans h.up.storage.symm, himages, hmutex hmutexName⟩
    · exact absurd hname helse.name

theorem call (h : Hosts p₀ mode nodeTag s t) (p : π) (env : MemEnv) (op : StoreOp) :
    Hosts p₀ mode nodeTag (s.run (t.callOn mode nodeTag (.call p env op)))
      (t.step (.call p env op)) := by
  cases hkv : t.store p with
  | none =>
      simp only [callOn, step, hkv]
      exact h
  | some kv =>
      simp only [callOn, step, hkv]
      split
      · rename_i hon
        have halike := h.alike hkv hon
        have hafter := halike.write (halike.symm.serving h.up.toServing) env op
        have himage := hafter.image
        rw [Server.kv_write, Server.kv_write] at himage
        dsimp only at himage
        rw [hon.1, hon.2, h.segment.1, h.segment.2] at himage
        show Hosts p₀ mode nodeTag (s.write env op) _
        refine ⟨?_, ?_, ?_, h.up.write env op, ⟨himage, ?_⟩, h.others⟩
        · rw [Server.kv_write]
          exact h.server
        · rw [Server.kv_write]
          exact h.segment
        · rw [Server.kv_write]
          exact h.mutexName
        · dsimp only
          rw [Server.mutexes_write]
          exact h.leaves.mutex
      · rename_i hoff
        refine ⟨h.server, h.segment, h.mutexName, h.up, ⟨?_, ?_⟩, h.others⟩
        · refine (Server.image_write_of_ne env _ op ?_).trans h.leaves.image
          intro hmode hname
          dsimp only at hmode hname
          rw [hmode] at hname
          exact hoff ⟨hmode, hname⟩
        · dsimp only
          rw [Server.mutexes_write]
          exact h.leaves.mutex

theorem finish (h : Hosts p₀ mode nodeTag s t) {p : π} (hp : p ≠ p₀) (ending : Server.Ending) :
    Hosts p₀ mode nodeTag s (t.step (.finish p ending)) := by
  cases hkv : t.store p with
  | none =>
      simp only [step, hkv]
      exact h
  | some kv =>
      simp only [step, hkv]
      have hleaves : KvStore.Leaves mode nodeTag (s.host.image mode (segmentNameOf mode nodeTag))
          (Server.finish { kv := kv, host := t.host } ending) := by
        rcases h.others p kv hp hkv with ⟨tag, hattached⟩ | ⟨hconn, helse⟩
        · have hsame : Server.finish { kv := kv, host := t.host } ending = t.host := by
            cases ending with
            | kill => rfl
            | shutdown =>
                show kv.destruct t.host = t.host
                unfold KvStore.destruct
                rw [hattached.conn]
          rw [hsame]
          exact h.leaves
        · exact (KvStore.stable_elsewhere.finish (s := { kv := kv, host := t.host })
            ⟨hconn, helse, h.leaves⟩ ending).2.2
      refine ⟨?_, h.segment, h.mutexName, h.up, hleaves, ?_⟩
      · dsimp only
        rw [Function.update_of_ne hp.symm]
        exact h.server
      · intro q kv' hq hstore
        by_cases hqp : q = p
        · rw [hqp] at hstore
          simp at hstore
        · dsimp only at hstore
          rw [Function.update_of_ne hqp] at hstore
          exact h.others q kv' hq hstore

omit [DecidableEq π] in
/-- What a process comes to be that makes a store. -/
theorem construct (h : Hosts p₀ mode nodeTag s t) {connMode : ConnectionMode} {tag : Bytes}
    (hmind : connMode = .server → tag ≠ nodeTag) (size : Nat) (mode' : StorageMode)
    (outcomes : List (Option Exn)) :
    match (KvStore.construct size mode' connMode tag).run
        { kv := { totalMemorySize := size, storageMode := mode', connMode := connMode }
          host := t.host, outcomes := outcomes } with
    | .ok _ b =>
        KvStore.Leaves mode nodeTag (s.host.image mode (segmentNameOf mode nodeTag)) b.host ∧
        ((∃ tag, b.kv.AttachedTo tag) ∨ b.kv.connMode = .server ∧ b.kv.Elsewhere mode nodeTag)
    | .error _ b =>
        KvStore.Leaves mode nodeTag (s.host.image mode (segmentNameOf mode nodeTag)) b.host := by
  cases connMode with
  | client =>
      have hkeeps := @KvStore.Attachable.construct _ size size mode' tag
        (@KvStore.attachable_leaves mode nodeTag (s.host.image mode (segmentNameOf mode nodeTag)))
        { kv := { totalMemorySize := size, storageMode := mode', connMode := .client }
          host := t.host, outcomes := outcomes } ⟨rfl, rfl, h.leaves⟩
      split
      · rename_i b hrun
        rw [hrun] at hkeeps
        exact ⟨hkeeps.2, Or.inl ⟨tag, KvStore.attachedTo_of_construct hrun hkeeps.1⟩⟩
      · rename_i b hrun
        rw [hrun] at hkeeps
        exact hkeeps.2
  | server =>
      have hkeeps := @KvStore.Stable.construct _ size size mode' tag
        (@KvStore.stable_elsewhere mode nodeTag (s.host.image mode (segmentNameOf mode nodeTag)))
        { kv := { totalMemorySize := size, storageMode := mode', connMode := .server }
          host := t.host, outcomes := outcomes }
        ⟨rfl, rfl, KvStore.elsewhere_named (hmind rfl), h.leaves⟩
      split
      · rename_i b hrun
        rw [hrun] at hkeeps
        exact ⟨hkeeps.2.2, Or.inr ⟨hkeeps.1, hkeeps.2.1⟩⟩
      · rename_i b hrun
        rw [hrun] at hkeeps
        exact hkeeps.2.2

theorem getInstance (h : Hosts p₀ mode nodeTag s t) {connMode : ConnectionMode} {tag : Bytes}
    (hmind : connMode = .server → tag ≠ nodeTag) (p : π) (size : Nat) (mode' : StorageMode)
    (outcomes : List (Option Exn)) :
    Hosts p₀ mode nodeTag s (t.step (.getInstance p size mode' connMode tag outcomes)) := by
  cases hkv : t.store p with
  | some kv =>
      simp only [step, hkv]
      exact h
  | none =>
      have hp : p₀ ≠ p := by
        rintro rfl
        rw [h.server] at hkv
        cases hkv
      simp only [step, hkv]
      generalize (if 0 < size then size else defaultMemorySize) = size
      have hmade := h.construct hmind size mode' outcomes
      split
      · rename_i b hrun
        rw [hrun] at hmade
        refine ⟨?_, h.segment, h.mutexName, h.up, hmade.1, ?_⟩
        · dsimp only
          rw [Function.update_of_ne hp]
          exact h.server
        · intro q kv hq hstore
          by_cases hqp : q = p
          · subst hqp
            dsimp only at hstore
            rw [Function.update_self] at hstore
            cases hstore
            exact hmade.2
          · dsimp only at hstore
            rw [Function.update_of_ne hqp] at hstore
            exact h.others q kv hq hstore
      · rename_i b hrun
        rw [hrun] at hmade
        exact ⟨h.server, h.segment, h.mutexName, h.up, hmade, h.others⟩

/-- **One event.** -/
theorem step (h : Hosts p₀ mode nodeTag s t) (he : e.Minds p₀ nodeTag) :
    Hosts p₀ mode nodeTag (s.run (t.callOn mode nodeTag e)) (t.step e) := by
  cases e with
  | getInstance p size mode' connMode tag outcomes => exact h.getInstance he p size mode' outcomes
  | call p env op => exact h.call p env op
  | finish p ending => exact h.finish he ending

theorem run (h : Hosts p₀ mode nodeTag s t) {es : List (ProcessEvent π)}
    (hes : ∀ e ∈ es, e.Minds p₀ nodeTag) :
    Hosts p₀ mode nodeTag (s.run (t.callsOn mode nodeTag es))
      (Machine.run Colocated.step t es) := by
  induction es generalizing s t with
  | nil => exact h
  | cons e es ih =>
      have hnext := ih (h.step (hes e (by simp))) fun e' he' => hes e' (by simp [he'])
      unfold callsOn
      unfold Server.run at hnext ⊢
      rw [List.foldl_append]
      exact hnext

end Hosts

/-- A machine with one process on it, a server. -/
def ofServer (p₀ : π) (s : Server) : Colocated π where
  host := s.host
  store := fun p => if p = p₀ then some s.kv else none

/-- **The stores of a node are one store.**  Whatever the processes of a machine do, if one of
them is a server that stays up and no other server comes up with its tag, then whoever works on
its segment finds there what the server would find after the calls of all who have, and nothing
else that is done on the machine, by stores that come, go or fail, makes a difference. -/
theorem stores_are_one (size : Nat) (mode : StorageMode) (nodeTag : Bytes) (host : Host)
    (outcomes : List (Option Exn)) (s : Server)
    (h : KvStore.getInstance size mode .server nodeTag host outcomes = .ok s) (hs : s.Serving)
    (p₀ : π) (es : List (ProcessEvent π)) (hes : ∀ e ∈ es, e.Minds p₀ nodeTag) (p : π)
    (kv : KvStore) (hkv : (Machine.run step (ofServer p₀ s) es).store p = some kv)
    (hon : OnSegment mode nodeTag kv) (key : Key) :
    kv.find key (Machine.run step (ofServer p₀ s) es).host =
      (s.run (callsOn mode nodeTag (ofServer p₀ s) es)).find key := by
  obtain ⟨n, rest, -, hcame⟩ := KvStore.getInstance_came h
  have hmode : s.kv.storageMode = mode := hcame.mode
  have hname : s.kv.segmentName mode = segmentNameOf mode nodeTag := hcame.name
  have hmutexName : s.kv.mutexName = mutexNameOf nodeTag := hcame.mutexName
  have hstart : Hosts p₀ mode nodeTag s (ofServer p₀ s) := by
    refine ⟨if_pos rfl, ⟨hmode, hname⟩, hmutexName, ⟨hs, hmode ▸ hcame.storage⟩,
      ⟨rfl, hmutexName ▸ hs.mutex⟩, ?_⟩
    intro q kv' hq hstore
    unfold ofServer at hstore
    dsimp only at hstore
    rw [if_neg hq] at hstore
    cases hstore
  exact ((hstart.run hes).alike hkv hon).find key

/-- A client attaches to the server of port 8080, and a server for port 8081 comes and goes. -/
def neighbours : List (ProcessEvent Nat) :=
  [.getInstance 1 0 .persistent .client (str "8080") [],
   .call 0 ⟨1000, none⟩ (.insert 1 (str "v")),
   .getInstance 2 100 .persistent .server (str "8081") [],
   .call 2 ⟨1000, none⟩ (.insert 1 (str "w")),
   .call 1 ⟨1000, none⟩ (.update 1 (str "u")),
   .finish 2 .shutdown]

theorem stores_are_one_8080 : ∃ kv,
    (Machine.run step (ofServer 0 Server.server8080) neighbours).store 1 = some kv ∧
      kv.find 1 (Machine.run step (ofServer 0 Server.server8080) neighbours).host =
        (Server.server8080.run (callsOn .persistent (str "8080") (ofServer 0 Server.server8080)
          neighbours)).find 1 := by
  refine ⟨_, rfl, stores_are_one 100 .persistent (str "8080") {} [] _ rfl ⟨⟨∅, rfl⟩, rfl⟩ 0
    neighbours ?_ 1 _ rfl (by decide) 1⟩
  intro e he
  simp only [neighbours, List.mem_cons, List.not_mem_nil, or_false] at he
  rcases he with rfl | rfl | rfl | rfl | rfl | rfl
  · exact nofun
  · trivial
  · exact fun _ => by decide
  · trivial
  · trivial
  · exact (by decide : (2 : Nat) ≠ 0)

end Colocated

end DistKV
