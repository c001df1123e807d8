/-
Values come from writes.

Whatever is lost, runs out of memory, crashes or comes up again, and whichever maps the
clients have: a value that a `get` is about to return was brought by a call that some client
had begun, for the same key, or it was in a segment from the start.  What carries this is
that every segment of every host holds such values only (`Holds`), a server that comes up
included.
-/
import DistKV.System
import DistKV.Proofs.Requests
import DistKV.Proofs.Footprint

namespace DistKV

open Hoare Machine

variable {W : Key → Bytes → Prop}

/-! ### What the segments of a host hold -/

/-- Every value is one of its key. -/
def HashMap.Holds (W : Key → Bytes → Prop) (m : HashMap) : Prop :=
  ∀ key value, m.lookup key = some value → W key (cStr value)

def Image.Holds (W : Key → Bytes → Prop) : Image → Prop
  | .segment seg => ∀ m, seg.sharedMap = some m → m.Holds W
  | .corrupt => True

def Host.Holds (W : Key → Bytes → Prop) (h : Host) : Prop :=
  ∀ mode name image, h.image mode name = some image → image.Holds W

theorem HashMap.holds_empty : HashMap.Holds W ∅ := by
  intro key value h
  cases h

theorem Image.holds_segment {seg : Segment} (h : ∀ m ∈ seg.sharedMap, HashMap.Holds W m) :
    ∀ image ∈ some (Image.segment seg), image.Holds W := by
  intro image himage
  cases himage
  exact h

namespace Host

variable {h : Host}

theorem Holds.mono {W' : Key → Bytes → Prop} (hh : h.Holds W)
    (hW : ∀ key value, W key value → W' key value) : h.Holds W' := by
  intro mode name image himage
  have hheld := hh mode name image himage
  cases image with
  | corrupt => trivial
  | segment seg => exact fun m hm key value hlookup => hW _ _ (hheld m hm key value hlookup)

/-- A value that a segment holds for a key. -/
def Stored (h : Host) (key : Key) (value : Bytes) : Prop :=
  ∃ mode name seg m stored, h.image mode name = some (.segment seg) ∧ seg.sharedMap = some m ∧
    m.lookup key = some stored ∧ value = cStr stored

theorem holds_stored (h : Host) : h.Holds h.Stored := by
  intro mode name image himage
  cases image with
  | corrupt => trivial
  | segment seg =>
      intro m hm key value hlookup
      exact ⟨mode, name, seg, m, value, himage, hm, hlookup, rfl⟩

theorem Stored.cStr {key : Key} {value : Bytes} (hstored : h.Stored key value) :
    h.Stored key (cStr value) := by
  rcases hstored with ⟨mode, name, seg, m, stored, himage, hseg, hlookup, rfl⟩
  exact ⟨mode, name, seg, m, stored, himage, hseg, hlookup, Server.cStr_cStr stored⟩

theorem Holds.setImage (hh : h.Holds W) {i : Option Image} (hi : ∀ image ∈ i, image.Holds W)
    (mode : StorageMode) (name : Bytes) : (h.setImage mode name i).Holds W := by
  intro mode' name' image hlookup
  by_cases hmode : mode' = mode
  · by_cases hname : name' = name
    · rw [hmode, hname, KvStore.image_setImage] at hlookup
      exact hi image hlookup
    · refine hh mode' name' image ?_
      rw [← hlookup, hmode]
      cases mode with
      | memory => exact (Function.update_of_ne hname _ _).symm
      | persistent => exact (Function.update_of_ne hname _ _).symm
  · refine hh mode' name' image ?_
    rw [← hlookup]
    cases mode with
    | memory =>
        cases mode' with
        | memory => exact absurd rfl hmode
        | persistent => rfl
    | persistent =>
        cases mode' with
        | memory => rfl
        | persistent => exact absurd rfl hmode

theorem Holds.remove (hh : h.Holds W) (mode : StorageMode) (name : Bytes) :
    (h.setImage mode name none).Holds W :=
  hh.setImage (fun _ hi => by cases hi) mode name

theorem Holds.setMutex (hh : h.Holds W) (name : Bytes) (present : Bool) :
    (h.setMutex name present).Holds W := by
  intro mode name' image hlookup
  refine hh mode name' image ?_
  rw [← hlookup]
  cases mode <;> rfl

theorem Holds.removeFiles (hh : h.Holds W) (removed : Bytes → Bool) :
    Host.Holds W { h with files := fun f => if removed f then none else h.files f } := by
  intro mode name image hlookup
  cases mode with
  | memory => exact hh .memory name image hlookup
  | persistent =>
      refine hh .persistent name image ?_
      have hfile : (if removed name then none else h.files name) = some image := hlookup
      split at hfile
      · cases hfile
      · exact hfile

end Host

/-- Constructors and destructors make no value: they find a map, or make an empty one. -/
theorem KvStore.stable_holds : Stable fun _ h => h.Holds W where
  storage := fun _ _ _ _ hh => hh
  mapPtr := fun _ _ _ _ hh => hh
  segment := by
    intro kv h mode seg hseg hh
    refine hh.setImage (Image.holds_segment ?_) _ _
    intro m hm
    rcases hseg with hnone | hempty
    · rw [hnone] at hm
      cases hm
    · rw [hempty] at hm
      cases hm
      exact HashMap.holds_empty
  remove := fun _ _ _ hh => hh.remove _ _
  openMutex := fun _ _ hh => hh.setMutex _ _
  noMutex := fun _ _ hh => hh.setMutex _ _
  temporary := fun _ _ hh => hh.removeFiles _

/-! ### A server -/

namespace Server

variable {s : Server} {env : MemEnv} {op : StoreOp} {key : Key} {value : Bytes}

/-- **A server that comes up again holds nothing new.** -/
theorem holds_reboot (hs : s.host.Holds W) (ending : Ending) (boot : Boot) :
    (s.reboot ending boot).host.Holds W := by
  unfold reboot
  dsimp only
  generalize (if 0 < boot.size then boot.size else defaultMemorySize) = size
  have hkeeps := @KvStore.Stable.construct (fun _ h => h.Holds W) size size boot.mode boot.nodeTag
    KvStore.stable_holds
    { kv := { totalMemorySize := size, storageMode := boot.mode, connMode := .server }
      host := s.finish ending, outcomes := boot.outcomes }
    ⟨rfl, KvStore.stable_holds.finish hs ending⟩
  split
  · rename_i hrun
    rw [hrun] at hkeeps
    exact hkeeps
  · rename_i hrun
    rw [hrun] at hkeeps
    exact hkeeps

theorem holds_sharedMap (hs : s.host.Holds W) {m : HashMap}
    (hm : s.kv.sharedMap s.host = some m) : m.Holds W := by
  obtain ⟨-, seg, himage, hseg⟩ := KvStore.sharedMap_eq_some.mp hm
  exact hs _ _ _ himage m hseg

theorem holds_withMap (hs : s.host.Holds W) {m : HashMap} (hm : m.Holds W) :
    (s.withMap m).host.Holds W := by
  show (s.kv.putMap m s.host).Holds W
  unfold KvStore.putMap
  split
  · refine hs.setImage (Image.holds_segment ?_) _ _
    intro m' hm'
    cases hm'
    exact hm
  · exact hs

theorem holds_insert {m : HashMap} (hm : m.Holds W) (hvalue : W key (cStr value)) :
    HashMap.Holds W (m.insert key (cStr value)) := by
  intro key' value' hlookup
  by_cases hkey : key' = key
  · rw [hkey, AList.lookup_insert] at hlookup
    cases hlookup
    rw [hkey, cStr_cStr]
    exact hvalue
  · rw [AList.lookup_insert_ne hkey] at hlookup
    exact hm key' value' hlookup

theorem holds_erase {m : HashMap} (hm : m.Holds W) (key : Key) :
    HashMap.Holds W (m.erase key) := by
  intro key' value' hlookup
  by_cases hkey : key' = key
  · rw [hkey, AList.lookup_erase] at hlookup
    cases hlookup
  · rw [AList.lookup_erase_ne hkey] at hlookup
    exact hm key' value' hlookup

/-- What a write puts into a map is what its operation brings, up to the first NUL. -/
theorem value_of_write {w : Replica.Write Bytes} {stored : Bytes} (hw : op.write = some w)
    (hstored : w.value = some stored) : ∃ value, op.value = some value ∧ stored = cStr value := by
  cases op with
  | find key => cases hw
  | insert key value =>
      cases hw
      cases hstored
      exact ⟨value, rfl, rfl⟩
  | update key newValue =>
      cases hw
      cases hstored
      exact ⟨newValue, rfl, rfl⟩
  | delete key =>
      cases hw
      cases hstored

/-- An operation stores the value it brings, or nothing. -/
theorem holds_write (hs : s.host.Holds W)
    (hop : ∀ value, op.value = some value → W op.key (cStr value)) :
    (s.write env op).host.Holds W := by
  rw [write_eq]
  rcases amend_cases s fun m => s.changes env m op with hsame | ⟨m, m', hm, hchanges, hput⟩
  · rw [hsame]
    exact hs
  · rw [hput]
    refine holds_withMap hs ?_
    rcases changes_eq_some hchanges with ⟨w, stored, hw, hstored, rfl⟩ | rfl
    · obtain ⟨value, hvalue, rfl⟩ := value_of_write hw hstored
      exact holds_insert (holds_sharedMap hs hm) (hop value hvalue)
    · exact holds_erase (holds_sharedMap hs hm) op.key

/-- What is found is what a map holds: none of the texts for a miss or an error is. -/
theorem holds_found (hs : s.host.Holds W)
    (hfound : KVDistributor.found (.value (s.find key)) = some value) : W key value := by
  have hmiss : ∀ text, isMissOrError text = true →
      KVDistributor.found (.value text) = none := by
    intro text htext
    exact if_pos htext
  unfold Server.find KvStore.find at hfound
  split at hfound
  · rw [hmiss _ (by decide)] at hfound
    cases hfound
  · rename_i m hm
    split at hfound
    · rw [hmiss _ (by decide)] at hfound
      cases hfound
    · split at hfound
      · rename_i stored hlookup
        have hvalue : (if isMissOrError (cStr stored) then none else some (cStr stored)) =
            some value := hfound
        split at hvalue
        · cases hvalue
        · rw [← Option.some.inj hvalue]
          exact holds_sharedMap hs hm key stored hlookup
      · rw [hmiss _ (by decide)] at hfound
        cases hfound

end Server

end DistKV
