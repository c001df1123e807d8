/-
When a server that comes up is of use.

What the constructor depends on is little: what stands under the name of the segment, whether
the mutex exists, whether the two pointers are set, and which calls are made to throw
(`At`).  A construction that fails has made a segment without a map, or has removed the mutex
and made no other, or has made nothing.  In the first two cases the recovery finds a segment
to open, and if it is let open it, it returns with what is missing still missing.
-/
import DistKV.Proofs.Construct

namespace DistKV

open Hoare

/-! ### What the constructor depends on -/

/-- The next call is not made to throw. -/
def Passes : List (Option Exn) → Prop
  | some _ :: _ => False
  | _ => True

instance : DecidablePred Passes := fun outcomes => by
  unfold Passes
  split <;> infer_instance

/-- What a store works with from the start: its names, and the size it is to have. -/
structure Site where
  mode : StorageMode
  name : Bytes
  mutexName : Bytes
  total : Nat

/-- What is under them, and the pointers. -/
structure View where
  image : Option Image
  mutex : Bool
  storage : Bool
  mapPtr : Bool

/-- With a new segment. -/
def View.created (v : View) (size : Nat) (sharedMap : Option HashMap) : View :=
  { v with image := some (.segment { size := size, sharedMap := sharedMap }), storage := true }

structure At (c : Site) (v : View) (outcomes : List (Option Exn)) (s : BoostState) : Prop where
  mode : s.kv.storageMode = c.mode
  name : s.kv.segmentName c.mode = c.name
  mutexName : s.kv.mutexName = c.mutexName
  total : s.kv.totalMemorySize = c.total
  image : s.host.image c.mode c.name = v.image
  mutex : s.host.mutexes c.mutexName = v.mutex
  storage : s.kv.hasStorage c.mode = v.storage
  mapPtr : s.kv.hasMapPtr c.mode = v.mapPtr
  outcomes : s.outcomes = outcomes

/-- Whatever the mode, what stands under the name of the segment is removed, and no mutex. -/
theorem image_cleanupStorage (kv : KvStore) (h : Host) :
    (kv.cleanupStorage h).image kv.storageMode (kv.segmentName kv.storageMode) = none := by
  unfold KvStore.cleanupStorage
  cases kv.storageMode with
  | memory => exact Function.update_self _ _ _
  | persistent => exact Function.update_self _ _ _

theorem mutexes_cleanupStorage (kv : KvStore) (h : Host) :
    (kv.cleanupStorage h).mutexes = h.mutexes := by
  unfold KvStore.cleanupStorage
  cases kv.storageMode with
  | memory => rfl
  | persistent => rfl

namespace At

variable {c : Site} {v : View} {outcomes : List (Option Exn)} {s : BoostState}

theorem next (h : At c v outcomes s) :
    At c v outcomes.tail { s with outcomes := outcomes.tail } := { h with outcomes := rfl }

theorem setStorage (h : At c v outcomes s) (b : Bool) :
    At c { v with storage := b } outcomes { s with kv := s.kv.setStorage c.mode b } := by
  obtain ⟨mode, name, mutexName, total⟩ := c
  cases mode with
  | memory => exact { h with storage := rfl }
  | persistent => exact { h with storage := rfl }

theorem setMapPtr (h : At c v outcomes s) (b : Bool) :
    At c { v with mapPtr := b } outcomes { s with kv := s.kv.setMapPtr c.mode b } := by
  obtain ⟨mode, name, mutexName, total⟩ := c
  cases mode with
  | memory => exact { h with mapPtr := rfl }
  | persistent => exact { h with mapPtr := rfl }

theorem setImage (h : At c v outcomes s) (image : Option Image) :
    At c { v with image := image } outcomes
      { s with host := s.host.setImage c.mode c.name image } where
  mode := h.mode
  name := h.name
  mutexName := h.mutexName
  total := h.total
  image := KvStore.image_setImage s.host c.mode c.name image
  mutex := by
    rw [KvStore.mutexes_setImage]
    exact h.mutex
  storage := h.storage
  mapPtr := h.mapPtr
  outcomes := h.outcomes

theorem setMutex (h : At c v outcomes s) (b : Bool) :
    At c { v with mutex := b } outcomes
      { s with host := s.host.setMutex c.mutexName b } := by
  obtain ⟨mode, name, mutexName, total⟩ := c
  cases mode with
  | memory => exact { h with mutex := Function.update_self _ _ _ }
  | persistent => exact { h with mutex := Function.update_self _ _ _ }

theorem cleanupStorage (h : At c v outcomes s) :
    At c { v with image := none } outcomes { s with host := s.kv.cleanupStorage s.host } where
  mode := h.mode
  name := h.name
  mutexName := h.mutexName
  total := h.total
  image := by
    have himage := image_cleanupStorage s.kv s.host
    rw [h.mode, h.name] at himage
    exact himage
  mutex := by
    rw [mutexes_cleanupStorage]
    exact h.mutex
  storage := h.storage
  mapPtr := h.mapPtr
  outcomes := h.outcomes

end At

namespace Boost

variable {c : Site} {v : View} {outcomes : List (Option Exn)} {seg : Segment}

/-! ### The calls -/

theorem call_spec : Spec (At c v outcomes) call
    (fun _ s => At c v outcomes.tail s ∧ Passes outcomes)
    (fun _ s => At c v outcomes.tail s ∧ ¬ Passes outcomes) := by
  refine Spec.get_bind fun s₀ hs₀ => ?_
  rw [hs₀.outcomes]
  rcases outcomes with _ | ⟨_ | e, rest⟩
  · exact Spec.pure fun s hs => ⟨hs ▸ hs₀, trivial⟩
  · exact Spec.modify fun s hs => ⟨hs ▸ hs₀.next, trivial⟩
  · exact Spec.bind (fun _ s => At c v rest s) (Spec.modify fun s hs => hs ▸ hs₀.next) fun _ =>
      Spec.throw fun s hs => ⟨hs, not_false⟩

theorem modifyKv_spec {f : KvStore → KvStore} {v' : View}
    (h : ∀ s, At c v outcomes s → At c v' outcomes { s with kv := f s.kv })
    {X : Exn → BoostState → Prop} :
    Spec (At c v outcomes) (modifyKv f) (fun _ => At c v' outcomes) X := Spec.modify h

/-- There is a segment to open, and the call that opens it passes. -/
def Opens (image : Option Image) (outcomes : List (Option Exn)) : Prop :=
  Passes outcomes ∧ ∃ seg, image = some (.segment seg)

theorem openOnly_spec : Spec (At c v outcomes) (openOnly c.mode)
    (fun _ s => At c v outcomes.tail s ∧ Opens v.image outcomes)
    (fun _ s => At c v outcomes.tail s ∧ ¬ Opens v.image outcomes) := by
  refine Spec.bind (fun _ s => At c v outcomes.tail s ∧ Passes outcomes)
    (call_spec.weaken_error fun _ s h => ⟨h.1, fun ho => h.2 ho.1⟩)
    fun _ => Spec.of_and fun hpass => Spec.get_bind fun s₀ hs₀ => ?_
  rw [hs₀.name, hs₀.image]
  rcases himage : v.image with _ | seg | _
  · exact Spec.throw fun s hs => ⟨hs ▸ hs₀, fun ho => by obtain ⟨-, seg, h⟩ := ho; cases h⟩
  · exact Spec.pure fun s hs => ⟨hs ▸ hs₀, hpass, seg, rfl⟩
  · exact Spec.throw fun s hs => ⟨hs ▸ hs₀, fun ho => by obtain ⟨-, seg, h⟩ := ho; cases h⟩

theorem findMap_spec (hseg : v.image = some (.segment seg)) :
    Spec (At c v outcomes) (findMap c.mode)
      (fun found s => (At c v outcomes.tail s ∧ Passes outcomes) ∧ found = seg.sharedMap.isSome)
      (fun _ s => At c v outcomes.tail s ∧ ¬ Passes outcomes) := by
  refine Spec.bind _ call_spec fun _ => Spec.get_bind fun s₀ hs₀ => ?_
  rw [hs₀.1.name, hs₀.1.image, hseg]
  exact Spec.pure fun s hs => ⟨hs ▸ hs₀, rfl⟩

theorem createOnly_spec (hnone : v.image = none) (size : Nat) :
    Spec (At c v outcomes) (createOnly c.mode size)
      (fun _ s => At c { v with image := some (.segment { size := size, sharedMap := none }) }
        outcomes.tail s ∧ Passes outcomes)
      (fun _ s => At c v outcomes.tail s ∧ ¬ Passes outcomes) := by
  refine Spec.bind _ call_spec fun _ => Spec.get_bind fun s₀ hs₀ => ?_
  rw [hs₀.1.name, hs₀.1.image, hnone]
  exact Spec.modify fun s hs => ⟨(hs ▸ hs₀.1).setImage _, hs₀.2⟩

theorem constructMap_spec (hseg : v.image = some (.segment seg)) :
    Spec (At c v outcomes) (constructMap c.mode)
      (fun _ s => At c { v with image := some (.segment { seg with sharedMap := some ∅ }) }
        outcomes.tail s ∧ Passes outcomes)
      (fun _ s => At c v outcomes.tail s ∧ ¬ Passes outcomes) := by
  refine Spec.bind _ call_spec fun _ => Spec.get_bind fun s₀ hs₀ => ?_
  rw [hs₀.1.name, hs₀.1.image, hseg]
  exact Spec.modify fun s hs => ⟨(hs ▸ hs₀.1).setImage _, hs₀.2⟩

theorem removeImage_spec {X : Exn → BoostState → Prop} : Spec (At c v outcomes)
    (removeImage c.mode) (fun _ => At c { v with image := none } outcomes) X := by
  refine Spec.get_bind fun s₀ hs₀ => ?_
  rw [hs₀.name]
  exact Spec.modify fun s hs => (hs ▸ hs₀).setImage none

theorem removeMutex_spec {X : Exn → BoostState → Prop} : Spec (At c v outcomes)
    removeMutex (fun _ => At c { v with mutex := false } outcomes) X := by
  refine Spec.get_bind fun s₀ hs₀ => ?_
  rw [hs₀.mutexName]
  exact Spec.modify fun s hs => (hs ▸ hs₀).setMutex false

theorem openOrCreateMutex_spec : Spec (At c v outcomes) openOrCreateMutex
    (fun _ s => At c { v with mutex := true } outcomes.tail s ∧ Passes outcomes)
    (fun _ s => At c v outcomes.tail s ∧ ¬ Passes outcomes) := by
  refine Spec.bind _ call_spec fun _ => Spec.get_bind fun s₀ hs₀ => ?_
  rw [hs₀.1.mutexName]
  exact Spec.modify fun s hs => ⟨(hs ▸ hs₀.1).setMutex true, hs₀.2⟩

theorem catchInterprocess_spec {α : Type} {P : BoostState → Prop} {Q : α → BoostState → Prop}
    {M X : Exn → BoostState → Prop} {body : Boost α} {handler : Exn → Boost α}
    (hbody : Spec P body Q M) (hother : ∀ w s, M (.other w) s → X (.other w) s)
    (hh : ∀ w, Spec (M (.interprocess w)) (handler (.interprocess w)) Q X) :
    Spec P (catchInterprocess body handler) Q X := by
  refine Spec.tryCatch hbody fun e => ?_
  cases e with
  | interprocess w => exact hh w
  | other w => exact Spec.throw (hother w)

end Boost

namespace KvStore

open Boost

variable {c : Site} {v : View} {outcomes : List (Option Exn)} {size : Nat}

/-! ### The course of a construction -/

/-- There is a map in a segment. -/
def HasMap (image : Option Image) : Prop :=
  ∃ seg m, image = some (.segment seg) ∧ seg.sharedMap = some m

/-- What is left of the outcomes when the constructor has looked at what is there. -/
def looked (mode : StorageMode) (image : Option Image) (outcomes : List (Option Exn)) :
    List (Option Exn) :=
  match mode, image with
  | .persistent, none => outcomes
  | _, some (.segment _) => if Passes outcomes then outcomes.tail.tail else outcomes.tail
  | _, _ => outcomes.tail

/-- A server in persistent mode finds a map, and goes on with it. -/
def KeepsMap (mode : StorageMode) (image : Option Image) (outcomes : List (Option Exn)) : Prop :=
  mode = .persistent ∧ Passes outcomes ∧ Passes outcomes.tail ∧ HasMap image

/-- The next `open_only` and the `find` after it pass. -/
def Reopens (outcomes : List (Option Exn)) : Prop := Passes outcomes ∧ Passes outcomes.tail

/-- The mutex is not created, and what is there is opened again. -/
def StuckAtMutex (outcomes : List (Option Exn)) : Prop :=
  ¬ Passes outcomes ∧ Reopens outcomes.tail

/-- A segment is created, but the map or the mutex is not, and the segment is opened again. -/
def StuckCreating (outcomes : List (Option Exn)) : Prop :=
  Passes outcomes ∧ (¬ Passes outcomes.tail ∧ Reopens outcomes.tail.tail ∨
    Passes outcomes.tail ∧ StuckAtMutex outcomes.tail.tail)

/-- A call fails that the recovery does not make up for. -/
def Stuck (mode : StorageMode) (image : Option Image) (outcomes : List (Option Exn)) : Prop :=
  KeepsMap mode image outcomes ∧ StuckAtMutex outcomes.tail.tail ∨
    ¬ KeepsMap mode image outcomes ∧ StuckCreating (looked mode image outcomes)

/-- The segment that was there is the one the server comes up with. -/
def StaysMapped (mode : StorageMode) (image : Option Image) (outcomes : List (Option Exn)) : Prop :=
  KeepsMap mode image outcomes ∧
    (Passes outcomes.tail.tail ∨ Reopens outcomes.tail.tail.tail)

theorem looked_of_opens {mode : StorageMode} {image : Option Image}
    (h : Opens image outcomes) : looked mode image outcomes = outcomes.tail.tail := by
  obtain ⟨hpass, seg, rfl⟩ := h
  cases mode with
  | memory => exact if_pos hpass
  | persistent => exact if_pos hpass

theorem looked_of_not_opens {mode : StorageMode} {image : Option Image}
    (h : ¬ Opens image outcomes) (hcall : mode = .persistent → image ≠ none) :
    looked mode image outcomes = outcomes.tail := by
  rcases image with _ | seg | _
  · cases mode with
    | memory => rfl
    | persistent => exact absurd rfl (hcall rfl)
  · have hpass : ¬ Passes outcomes := fun hp => h ⟨hp, seg, rfl⟩
    cases mode with
    | memory => exact if_neg hpass
    | persistent => exact if_neg hpass
  · cases mode with
    | memory => rfl
    | persistent => rfl

/-- A new segment with an empty map, in either mode. -/
def createSegment (mode : StorageMode) (size : Nat) : Boost Unit := do
  createOnly mode size
  modifyKv (·.setStorage mode true)
  constructMap mode
  modifyKv (·.setMapPtr mode true)

theorem createSegment_spec (hnone : v.image = none) :
    Spec (At c v outcomes) (createSegment c.mode size)
      (fun _ s => At c { View.created v size (some ∅) with mapPtr := true } outcomes.tail.tail s ∧
        Passes outcomes ∧ Passes outcomes.tail)
      (fun _ s => (At c v outcomes.tail s ∧ ¬ Passes outcomes) ∨
        (At c (View.created v size none) outcomes.tail.tail s ∧
          Passes outcomes ∧ ¬ Passes outcomes.tail)) := by
  refine Spec.bind _ ((createOnly_spec hnone size).weaken_error fun _ _ h => Or.inl h) fun _ =>
    Spec.of_and fun hpass => ?_
  refine Spec.bind (fun _ => At c (View.created v size none) outcomes.tail)
    (modifyKv_spec fun s hs => hs.setStorage true) fun _ => ?_
  refine Spec.bind _ ((constructMap_spec rfl).weaken_error
    fun _ _ h => Or.inr ⟨h.1, hpass, h.2⟩) fun _ => Spec.of_and fun hpass' => ?_
  exact Spec.modify fun s hs => ⟨hs.setMapPtr true, hpass, hpass'⟩

/-! ### Creation -/

theorem createMemoryStorage_look {name mutexName : Bytes} {total : Nat}
    {X : Exn → BoostState → Prop}
    (hother : ∀ w s, X (.other w) s) :
    Spec (At ⟨.memory, name, mutexName, total⟩ v outcomes)
      (catchInterprocess (do openOnly .memory; let _ ← findMap .memory) fun _ => pure ())
      (fun _ => At ⟨.memory, name, mutexName, total⟩ v (looked .memory v.image outcomes)) X := by
  refine catchInterprocess_spec
    (M := fun _ => At ⟨.memory, name, mutexName, total⟩ v (looked .memory v.image outcomes))
    (Spec.bind _ (openOnly_spec.weaken_error fun _ s h => ?_) fun _ =>
      Spec.of_and fun hopens => ?_) (fun w s _ => hother w s) fun w => Spec.pure fun s hs => hs
  · rw [looked_of_not_opens h.2 (fun hmode : StorageMode.memory = .persistent => by cases hmode)]
    exact h.1
  · rw [looked_of_opens hopens]
    obtain ⟨-, seg, hseg⟩ := hopens
    exact Spec.bind _ ((findMap_spec hseg).weaken_error fun _ _ h => h.1) fun _ =>
      Spec.pure fun s hs => hs.1.1

/-- What is said of a file that is there: it has a map to go on with, or it has not. -/
def Answered (c : Site) (v : View) (outcomes : List (Option Exn)) (found : Bool) (s : BoostState) :
    Prop :=
  (found = true ∧ KeepsMap c.mode v.image outcomes ∧
    At c { v with storage := true, mapPtr := true } outcomes.tail.tail s) ∨
  (found = false ∧ ¬ KeepsMap c.mode v.image outcomes ∧
    At c { v with storage := false } (looked c.mode v.image outcomes) s)

theorem keepsMap_iff {image : Option Image} {seg : Segment} (hseg : image = some (.segment seg))
    (hpass : Passes outcomes) (hpass' : Passes outcomes.tail) :
    KeepsMap .persistent image outcomes ↔ seg.sharedMap.isSome = true := by
  rw [Option.isSome_iff_exists]
  constructor
  · rintro ⟨-, -, -, seg', m, hseg', hm⟩
    rw [hseg] at hseg'
    cases hseg'
    exact ⟨m, hm⟩
  · rintro ⟨m, hm⟩
    exact ⟨rfl, hpass, hpass', seg, m, hseg, hm⟩

/-- The answer, when the file is open and it is known whether it has a map. -/
theorem answer_spec {name mutexName : Bytes} {total : Nat} {found : Bool}
    {X : Exn → BoostState → Prop}
    (hlooked : looked .persistent v.image outcomes = outcomes.tail.tail)
    (hfound : KeepsMap .persistent v.image outcomes ↔ found = true) :
    Spec (At ⟨.persistent, name, mutexName, total⟩ { v with storage := true } outcomes.tail.tail)
      (if found then do
          modifyKv (·.setMapPtr .persistent true)
          pure true
        else do
          modifyKv (·.setStorage .persistent false)
          pure false)
      (Answered ⟨.persistent, name, mutexName, total⟩ v outcomes) X := by
  cases found with
  | true =>
      refine Spec.bind (fun _ => At ⟨.persistent, name, mutexName, total⟩
        { v with storage := true, mapPtr := true } outcomes.tail.tail)
        (modifyKv_spec fun s hs => hs.setMapPtr true) fun _ => ?_
      exact Spec.pure fun s hs => Or.inl ⟨rfl, hfound.mpr rfl, hs⟩
  | false =>
      have hkeeps : ¬ KeepsMap .persistent v.image outcomes := fun h => by cases hfound.mp h
      refine Spec.bind (fun _ => At ⟨.persistent, name, mutexName, total⟩
        { v with storage := false } outcomes.tail.tail)
        (modifyKv_spec fun s hs => hs.setStorage false) fun _ => ?_
      exact Spec.pure fun s hs => Or.inr ⟨rfl, hkeeps, hlooked ▸ hs⟩

theorem openExistingFile_spec {name mutexName : Bytes} {total : Nat}
    {X : Exn → BoostState → Prop}
    (hother : ∀ w s, X (.other w) s) (himage : v.image ≠ none) :
    Spec (At ⟨.persistent, name, mutexName, total⟩ v outcomes) openExistingFile
      (Answered ⟨.persistent, name, mutexName, total⟩ v outcomes) X := by
  refine catchInterprocess_spec
    (M := fun _ s => (∃ b, At ⟨.persistent, name, mutexName, total⟩ { v with storage := b }
        (looked .persistent v.image outcomes) s) ∧ ¬ KeepsMap .persistent v.image outcomes)
    (Spec.bind _ (openOnly_spec.weaken_error fun _ s h => ?_) fun _ =>
      Spec.of_and fun hopens => ?_) (fun w s _ => hother w s) fun w => Spec.of_and fun hkeeps => ?_
  · rw [looked_of_not_opens h.2 fun _ => himage]
    refine ⟨⟨v.storage, h.1⟩, fun hkeeps => ?_⟩
    obtain ⟨-, hpass, -, seg, m, hseg, -⟩ := hkeeps
    exact h.2 ⟨hpass, seg, hseg⟩
  · have hlooked : looked .persistent v.image outcomes = outcomes.tail.tail :=
      looked_of_opens hopens
    obtain ⟨hpass, seg, hseg⟩ := hopens
    refine Spec.bind (fun _ => At ⟨.persistent, name, mutexName, total⟩ { v with storage := true }
      outcomes.tail) (modifyKv_spec fun s hs => hs.setStorage true) fun _ => ?_
    refine Spec.bind _ ((findMap_spec (v := { v with storage := true }) hseg).weaken_error
      fun _ s h => ⟨⟨true, hlooked ▸ h.1⟩, fun hkeeps => h.2 hkeeps.2.2.1⟩) fun found => ?_
    refine Spec.of_and fun hfound => Spec.of_and fun hpass' => ?_
    exact answer_spec hlooked (hfound ▸ keepsMap_iff hseg hpass hpass')
  · refine Spec.bind (fun _ => At ⟨.persistent, name, mutexName, total⟩ { v with storage := false }
      (looked .persistent v.image outcomes)) (Spec.modify fun s hs => ?_) fun _ => ?_
    · obtain ⟨b, hb⟩ := hs
      exact hb.setStorage false
    · exact Spec.pure fun s hs => Or.inr ⟨rfl, hkeeps, hs⟩

/-- What a creation leaves that ends well. -/
def Created (c : Site) (v : View) (size : Nat) (outcomes : List (Option Exn)) (s : BoostState) :
    Prop :=
  (KeepsMap c.mode v.image outcomes ∧
    At c { v with storage := true, mapPtr := true } outcomes.tail.tail s) ∨
  (¬ KeepsMap c.mode v.image outcomes ∧
    At c { View.created v size (some ∅) with mapPtr := true }
      (looked c.mode v.image outcomes).tail.tail s ∧
    Passes (looked c.mode v.image outcomes) ∧ Passes (looked c.mode v.image outcomes).tail)

/-- What a creation leaves that throws. -/
def NotCreated (c : Site) (v : View) (size : Nat) (outcomes : List (Option Exn)) (s : BoostState) :
    Prop :=
  ¬ KeepsMap c.mode v.image outcomes ∧
    ((∃ b, At c { v with image := none, storage := b } (looked c.mode v.image outcomes).tail s ∧
      ¬ Passes (looked c.mode v.image outcomes)) ∨
    (At c (View.created v size none) (looked c.mode v.image outcomes).tail.tail s ∧
      Passes (looked c.mode v.image outcomes) ∧ ¬ Passes (looked c.mode v.image outcomes).tail))

theorem createSegment_created (hkeeps : ¬ KeepsMap c.mode v.image outcomes) (b : Bool)
    {X : Exn → BoostState → Prop} (hX : ∀ e s, NotCreated c v size outcomes s → X e s) :
    Spec (At c { v with image := none, storage := b } (looked c.mode v.image outcomes))
      (createSegment c.mode size) (fun _ => Created c v size outcomes) X := by
  refine (createSegment_spec rfl).weaken (fun _ h => h) (fun _ s h => Or.inr ⟨hkeeps, h⟩)
    fun e s h => hX e s ⟨hkeeps, ?_⟩
  rcases h with h | h
  · exact Or.inl ⟨b, h⟩
  · exact Or.inr h

theorem createStorage_spec {X : Exn → BoostState → Prop} (hother : ∀ w s, X (.other w) s)
    (hX : ∀ e s, NotCreated c v size outcomes s → X e s) :
    Spec (At c v outcomes) (createStorage c.mode size) (fun _ => Created c v size outcomes) X := by
  obtain ⟨mode, name, mutexName, total⟩ := c
  cases mode with
  | memory =>
      have hkeeps : ¬ KeepsMap .memory v.image outcomes := fun h => by cases h.1
      refine Spec.bind _ (createMemoryStorage_look hother) fun _ => ?_
      refine Spec.bind _ removeImage_spec fun _ => ?_
      exact createSegment_created hkeeps v.storage hX
  | persistent =>
      refine Spec.get_bind fun s₀ hs₀ => ?_
      have hfile : s₀.host.files s₀.kv.persistentFilePath = v.image := by
        have hname : s₀.kv.persistentFilePath = name := hs₀.name
        rw [hname]
        exact hs₀.image
      rw [hfile]
      rcases himage : v.image with _ | image
      · have hkeeps : ¬ KeepsMap .persistent v.image outcomes := by
          rintro ⟨-, -, -, seg, m, hseg, -⟩
          rw [himage] at hseg
          cases hseg
        have hlooked : looked .persistent v.image outcomes = outcomes := by
          rw [himage]
          rfl
        refine (createSegment_created hkeeps v.storage hX).at ?_
        rw [hlooked, ← himage]
        exact hs₀
      · have hsome : v.image ≠ none := by
          rw [himage]
          exact Option.some_ne_none image
        have hopen := @openExistingFile_spec v outcomes name mutexName total X hother hsome
        refine Spec.bind _ (hopen.at hs₀) fun found => ?_
        cases found with
        | true =>
            refine Spec.pure fun s h => ?_
            rcases h with ⟨-, hkeeps, hat⟩ | ⟨hfalse, -⟩
            · exact Or.inl ⟨hkeeps, hat⟩
            · cases hfalse
        | false =>
            refine Spec.weaken (P := fun s => At ⟨.persistent, name, mutexName, total⟩
                { v with storage := false } (looked .persistent v.image outcomes) s ∧
                  ¬ KeepsMap .persistent v.image outcomes)
              (Spec.of_and fun hkeeps => Spec.bind _ removeImage_spec fun _ =>
                createSegment_created hkeeps false hX)
              (fun s h => ?_) (fun _ _ h => h) fun _ _ h => h
            rcases h with ⟨htrue, -⟩ | ⟨-, hkeeps, hat⟩
            · cases htrue
            · exact ⟨hat, hkeeps⟩

/-! ### Recovery -/

/-- What a server is when it has come up. -/
structure Came (c : Site) (v : View) (size : Nat) (outcomes : List (Option Exn)) (s : BoostState) :
    Prop where
  storage : s.kv.hasStorage c.mode = true
  useful : s.kv.hasMapPtr c.mode = true ∧ s.host.mutexes c.mutexName = true ↔
    ¬ Stuck c.mode v.image outcomes
  hasMap : s.kv.hasMapPtr c.mode = true → HasMap (s.host.image c.mode c.name)
  stays : StaysMapped c.mode v.image outcomes → s.host.image c.mode c.name = v.image
  new : ¬ StaysMapped c.mode v.image outcomes →
    ∃ seg, s.host.image c.mode c.name = some (.segment seg) ∧ seg.size = size
  mode : s.kv.storageMode = c.mode
  name : s.kv.segmentName c.mode = c.name
  mutexName : s.kv.mutexName = c.mutexName
  total : s.kv.totalMemorySize = c.total

/-- What it is when its construction has failed: there is nothing to open, or there is a
segment that lacks its map or its mutex. -/
def Failed (c : Site) (v : View) (size : Nat) (outcomes : List (Option Exn)) (s : BoostState) :
    Prop :=
  (∃ v' rest, At c v' rest s ∧ v'.image = none ∧ ¬ Stuck c.mode v.image outcomes ∧
    ¬ StaysMapped c.mode v.image outcomes) ∨
  ∃ v' rest seg, At c v' rest s ∧ v'.image = some (.segment seg) ∧
    (seg.sharedMap = none ∨ v'.mutex = false) ∧
    (Stuck c.mode v.image outcomes ↔ Reopens rest) ∧
    (StaysMapped c.mode v.image outcomes → v'.image = v.image ∧ Reopens rest) ∧
    (¬ StaysMapped c.mode v.image outcomes → Reopens rest → seg.size = size)

/-- What was created is usable when the mutex is made. -/
theorem created_mutex {v' : View} {rest : List (Option Exn)}
    (hnot : ¬ Stuck c.mode v.image outcomes) (hstays : ¬ StaysMapped c.mode v.image outcomes)
    (hv : v' = { View.created v size (some ∅) with mapPtr := true, mutex := true })
    {s : BoostState} (h : At c v' rest s) : Came c v size outcomes s := by
  subst hv
  exact
    { storage := h.storage
      useful := iff_of_true ⟨h.mapPtr, h.mutex⟩ hnot
      hasMap := fun _ => ⟨_, ∅, h.image, rfl⟩
      stays := fun hs => absurd hs hstays
      new := fun _ => ⟨_, h.image, rfl⟩
      mode := h.mode
      name := h.name
      mutexName := h.mutexName
      total := h.total }

/-- The end of the recovery: everything is made anew. -/
theorem recreate_spec {v₀ v' : View} {outcomes₀ rest : List (Option Exn)}
    (hnot : ¬ Stuck c.mode v₀.image outcomes₀) (hstays : ¬ StaysMapped c.mode v₀.image outcomes₀) :
    Spec (At c v' rest)
      (do let s ← get
          modifyHost s.kv.cleanupStorage
          removeMutex
          createStorage c.mode size
          openOrCreateMutex)
      (fun _ => Came c v₀ size outcomes₀) fun _ _ => True := by
  refine Spec.get_bind fun s₀ hs₀ => ?_
  refine Spec.bind (fun _ => At c { v' with image := none } rest)
    (Spec.modify fun s hs => (hs ▸ hs₀.cleanupStorage)) fun _ => ?_
  refine Spec.bind _ removeMutex_spec fun _ => ?_
  refine Spec.bind _ (createStorage_spec (fun _ _ => trivial) fun _ _ _ => trivial) fun _ => ?_
  intro s h
  rcases h with ⟨hkeeps, -⟩ | ⟨-, hat, -⟩
  · obtain ⟨-, -, -, seg, m, hseg, -⟩ := hkeeps
    cases hseg
  · have hmutex := (openOrCreateMutex_spec (c := c)).weaken (fun _ h => h)
      (fun _ _ h => created_mutex hnot hstays rfl h.1) (fun _ _ _ => trivial) s hat
    exact hmutex

/-- What the recovery tries first. -/
def reopen (mode : StorageMode) : Boost Unit := do
  openOnly mode
  modifyKv (·.setStorage mode true)
  let found ← findMap mode
  modifyKv (·.setMapPtr mode found)

/-- A recovery that has not been let open what is there. -/
def NotReopened (c : Site) (v : View) (outcomes : List (Option Exn)) (s : BoostState) : Prop :=
  (∃ v' rest, At c v' rest s) ∧ ¬ Stuck c.mode v.image outcomes ∧
    ¬ StaysMapped c.mode v.image outcomes

/-- What is opened again lacks what it lacked. -/
theorem reopen_spec {v₀ v' : View} {outcomes₀ rest : List (Option Exn)} {seg : Segment}
    (hseg : v'.image = some (.segment seg)) (hlacks : seg.sharedMap = none ∨ v'.mutex = false)
    (hstuck : Stuck c.mode v₀.image outcomes₀ ↔ Reopens rest)
    (hstays : StaysMapped c.mode v₀.image outcomes₀ → v'.image = v₀.image ∧ Reopens rest)
    (hnew : ¬ StaysMapped c.mode v₀.image outcomes₀ → Reopens rest → seg.size = size) :
    Spec (At c v' rest) (reopen c.mode)
      (fun _ => Came c v₀ size outcomes₀) (fun _ => NotReopened c v₀ outcomes₀) := by
  refine Spec.bind _ (openOnly_spec.weaken_error fun _ s h => ?_) fun _ =>
    Spec.of_and fun hopens => ?_
  · have hnot : ¬ Reopens rest := fun hr => h.2 ⟨hr.1, seg, hseg⟩
    exact ⟨⟨v', rest.tail, h.1⟩, fun hs => hnot (hstuck.mp hs), fun hs => hnot (hstays hs).2⟩
  · refine Spec.bind (fun _ => At c { v' with storage := true } rest.tail)
      (modifyKv_spec fun s hs => hs.setStorage true) fun _ => ?_
    refine Spec.bind _ ((findMap_spec (v := { v' with storage := true }) hseg).weaken_error
      fun _ s h => ?_) fun found => Spec.of_and fun hfound => Spec.of_and fun hpass => ?_
    · have hnot : ¬ Reopens rest := fun hr => h.2 hr.2
      exact ⟨⟨_, rest.tail.tail, h.1⟩, fun hs => hnot (hstuck.mp hs), fun hs => hnot (hstays hs).2⟩
    · have hreopens : Reopens rest := ⟨hopens.1, hpass⟩
      subst hfound
      refine Spec.modify fun s hs => ?_
      have hat := hs.setMapPtr seg.sharedMap.isSome
      exact
        { storage := hat.storage
          useful := by
            refine iff_of_false ?_ (not_not.mpr (hstuck.mpr hreopens))
            rw [hat.mapPtr, hat.mutex]
            rintro ⟨hmap, hmutex⟩
            rcases hlacks with hnone | hmissing
            · rw [hnone] at hmap
              cases hmap
            · rw [hmissing] at hmutex
              cases hmutex
          hasMap := by
            rw [hat.mapPtr, hat.image]
            intro hmap
            obtain ⟨m, hm⟩ := Option.isSome_iff_exists.mp hmap
            exact ⟨seg, m, hseg, hm⟩
          stays := fun hs => by
            rw [hat.image]
            exact (hstays hs).1
          new := fun hs => ⟨seg, hat.image.trans hseg, hnew hs hreopens⟩
          mode := hat.mode
          name := hat.name
          mutexName := hat.mutexName
          total := hat.total }

/-- There may be nothing to open. -/
theorem reopen_none_spec {v₀ v' : View} {outcomes₀ rest : List (Option Exn)}
    (hnone : v'.image = none) (hnot : ¬ Stuck c.mode v₀.image outcomes₀)
    (hstays : ¬ StaysMapped c.mode v₀.image outcomes₀) :
    Spec (At c v' rest) (reopen c.mode)
      (fun _ => Came c v₀ size outcomes₀) (fun _ => NotReopened c v₀ outcomes₀) := by
  refine Spec.bind _ (openOnly_spec.weaken_error fun _ s h => ?_) fun _ =>
    Spec.of_and fun hopens => ?_
  · exact ⟨⟨v', rest.tail, h.1⟩, hnot, hstays⟩
  · obtain ⟨-, seg, hseg⟩ := hopens
    rw [hnone] at hseg
    cases hseg

theorem recover_of_reopen {v' : View} {rest : List (Option Exn)}
    (hreopen : Spec (At c v' rest) (reopen c.mode)
      (fun _ => Came c v size outcomes) (fun _ => NotReopened c v outcomes)) :
    Spec (At c v' rest) (recover size) (fun _ => Came c v size outcomes) fun _ _ => True := by
  refine Spec.get_bind fun s₀ hs₀ => ?_
  rw [hs₀.mode]
  refine (catchInterprocess_spec hreopen (fun _ _ _ => trivial) fun w => ?_).at hs₀
  intro s h
  obtain ⟨⟨v'', rest', hat⟩, hnot, hstays⟩ := h
  exact recreate_spec hnot hstays s hat

theorem recover_spec : Spec (Failed c v size outcomes) (recover size)
    (fun _ => Came c v size outcomes) fun _ _ => True := by
  intro s h
  rcases h with ⟨v', rest, hat, hnone, hnot, hstays⟩ | ⟨v', rest, seg, hat, hseg, hlacks, hstuck,
    hstays, hnew⟩
  · exact recover_of_reopen (reopen_none_spec hnone hnot hstays) s hat
  · exact recover_of_reopen (reopen_spec hseg hlacks hstuck hstays hnew) s hat

/-! ### The constructor -/

theorem stuck_of_keeps (hkeeps : KeepsMap c.mode v.image outcomes) :
    Stuck c.mode v.image outcomes ↔ StuckAtMutex outcomes.tail.tail := by
  unfold Stuck
  rw [and_iff_right hkeeps, or_iff_left fun h => h.1 hkeeps]

theorem stuck_of_not_keeps (hkeeps : ¬ KeepsMap c.mode v.image outcomes) :
    Stuck c.mode v.image outcomes ↔ StuckCreating (looked c.mode v.image outcomes) := by
  unfold Stuck
  rw [and_iff_right hkeeps, or_iff_right fun h => hkeeps h.1]

theorem not_staysMapped (hkeeps : ¬ KeepsMap c.mode v.image outcomes) :
    ¬ StaysMapped c.mode v.image outcomes := fun h => hkeeps h.1

theorem failed_of_notCreated {s : BoostState} (h : NotCreated c v size outcomes s) :
    Failed c v size outcomes s := by
  obtain ⟨hkeeps, ⟨b, hat, hfails⟩ | ⟨hat, hpass, hfails⟩⟩ := h
  · refine Or.inl ⟨_, _, hat, rfl, fun hstuck => ?_, not_staysMapped hkeeps⟩
    exact hfails ((stuck_of_not_keeps hkeeps).mp hstuck).1
  · refine Or.inr ⟨_, _, _, hat, rfl, Or.inl rfl, ?_,
      fun hs => absurd hs (not_staysMapped hkeeps), fun _ _ => rfl⟩
    rw [stuck_of_not_keeps hkeeps]
    unfold StuckCreating
    rw [and_iff_right hpass, and_iff_right hfails, or_iff_left fun h => hfails h.1]

/-- The map that was found, when the mutex is made and when it is not. -/
theorem kept_mutex_spec (hkeeps : KeepsMap c.mode v.image outcomes) :
    Spec (At c { v with storage := true, mapPtr := true } outcomes.tail.tail)
      (do removeMutex
          openOrCreateMutex)
      (fun _ => Came c v size outcomes) (fun _ => Failed c v size outcomes) := by
  refine Spec.bind _ removeMutex_spec fun _ => ?_
  refine openOrCreateMutex_spec.weaken (fun _ h => h) (fun _ s h => ?_) fun _ s h => ?_
  · have hstays : StaysMapped c.mode v.image outcomes := ⟨hkeeps, Or.inl h.2⟩
    exact
      { storage := h.1.storage
        useful := by
          rw [stuck_of_keeps hkeeps]
          exact iff_of_true ⟨h.1.mapPtr, h.1.mutex⟩ fun hs => hs.1 h.2
        hasMap := fun _ => by
          rw [h.1.image]
          exact hkeeps.2.2.2
        stays := fun _ => h.1.image
        new := fun hs => absurd hstays hs
        mode := h.1.mode
        name := h.1.name
        mutexName := h.1.mutexName
        total := h.1.total }
  · obtain ⟨seg, m, hseg, -⟩ := hkeeps.2.2.2
    refine Or.inr ⟨_, _, seg, h.1, hseg, Or.inr rfl, ?_, fun hs => ⟨rfl, ?_⟩,
      fun hs hr => absurd ⟨hkeeps, Or.inr hr⟩ hs⟩
    · rw [stuck_of_keeps hkeeps]
      exact and_iff_right h.2
    · exact hs.2.resolve_left h.2

/-- The same of a new map. -/
theorem created_mutex_spec (hkeeps : ¬ KeepsMap c.mode v.image outcomes)
    (hpass : Passes (looked c.mode v.image outcomes))
    (hpass' : Passes (looked c.mode v.image outcomes).tail) :
    Spec (At c { View.created v size (some ∅) with mapPtr := true }
        (looked c.mode v.image outcomes).tail.tail)
      (do removeMutex
          openOrCreateMutex)
      (fun _ => Came c v size outcomes) (fun _ => Failed c v size outcomes) := by
  have hstuck : Stuck c.mode v.image outcomes ↔
      StuckAtMutex (looked c.mode v.image outcomes).tail.tail := by
    rw [stuck_of_not_keeps hkeeps]
    unfold StuckCreating
    rw [and_iff_right hpass, and_iff_right hpass', or_iff_right fun h => h.1 hpass']
  refine Spec.bind _ removeMutex_spec fun _ => ?_
  refine openOrCreateMutex_spec.weaken (fun _ h => h) (fun _ s h => ?_) fun _ s h => ?_
  · exact created_mutex (fun hs => (hstuck.mp hs).1 h.2) (not_staysMapped hkeeps) rfl h.1
  · refine Or.inr ⟨_, _, _, h.1, rfl, Or.inr rfl, ?_,
      fun hs => absurd hs (not_staysMapped hkeeps), fun _ _ => rfl⟩
    rw [hstuck]
    exact and_iff_right h.2

/-- A server that knows its names gets its segment and its mutex. -/
theorem provision_spec {X : Exn → BoostState → Prop} (hother : ∀ w s, X (.other w) s)
    (hX : ∀ e s, Failed c v size outcomes s → X e s) :
    Spec (At c v outcomes)
      (do createStorage c.mode size
          removeMutex
          openOrCreateMutex)
      (fun _ => Came c v size outcomes) X := by
  refine Spec.bind _ (createStorage_spec hother
    fun e s h => hX e s (failed_of_notCreated h)) fun _ => ?_
  intro s h
  rcases h with ⟨hkeeps, hat⟩ | ⟨hkeeps, hat, hpass, hpass'⟩
  · exact (kept_mutex_spec hkeeps).weaken_error hX s hat
  · exact (created_mutex_spec hkeeps hpass hpass').weaken_error hX s hat

end KvStore

/-- The name of the segment of a node. -/
def segmentNameOf (mode : StorageMode) (nodeTag : Bytes) : Bytes :=
  match mode with
  | .memory => if nodeTag = [] then str "Project" else str "Project_" ++ nodeTag
  | .persistent => persistentFilePathOf nodeTag

/-- What the store of a node starts with. -/
def siteOf (size : Nat) (mode : StorageMode) (nodeTag : Bytes) : Site where
  mode := mode
  name := segmentNameOf mode nodeTag
  mutexName := mutexNameOf nodeTag
  total := size

/-- What stands under them on a host, and no pointers. -/
def viewOf (c : Site) (host : Host) : View where
  image := host.image c.mode c.name
  mutex := host.mutexes c.mutexName
  storage := false
  mapPtr := false

namespace KvStore

open Boost

variable {mode : StorageMode} {size : Nat} {nodeTag : Bytes} {host : Host}
  {outcomes : List (Option Exn)} {s : Server}

/-- A store that has no names of its own. -/
theorem at_untagged (size : Nat) (mode : StorageMode) (connMode : ConnectionMode) (host : Host)
    (outcomes : List (Option Exn)) :
    At (siteOf size mode []) (viewOf (siteOf size mode []) host) outcomes
      { kv := { totalMemorySize := size, storageMode := mode, connMode := connMode }
        host := host
        outcomes := outcomes } := by
  cases mode with
  | memory => exact ⟨rfl, rfl, rfl, rfl, rfl, rfl, rfl, rfl, rfl⟩
  | persistent => exact ⟨rfl, rfl, rfl, rfl, rfl, rfl, rfl, rfl, rfl⟩

/-- A store whose names have its tag. -/
theorem at_tagged (size : Nat) (mode : StorageMode) (connMode : ConnectionMode) (host : Host)
    (outcomes : List (Option Exn)) (htag : nodeTag ≠ []) :
    At (siteOf size mode nodeTag) (viewOf (siteOf size mode nodeTag) host) outcomes
      { kv :=
          { shmName := str "Project_" ++ nodeTag
            persistentFilePath := str "./kvstore_persistent_" ++ nodeTag ++ str ".dat"
            mutexName := str "SharedMapMutex_" ++ nodeTag
            totalMemorySize := size
            storageMode := mode
            connMode := connMode }
        host := host
        outcomes := outcomes } := by
  have hmutex : mutexNameOf nodeTag = str "SharedMapMutex_" ++ nodeTag := if_neg htag
  cases mode with
  | memory => exact ⟨rfl, (if_neg htag).symm, hmutex.symm, rfl, rfl, rfl, rfl, rfl, rfl⟩
  | persistent => exact ⟨rfl, (if_neg htag).symm, hmutex.symm, rfl, rfl, rfl, rfl, rfl, rfl⟩

/-- What is left to do when the names are given. -/
def provide (size : Nat) (mode : StorageMode) (connMode : ConnectionMode) : Boost Unit := do
  match connMode with
  | .server => createStorage mode size
  | .client => connectToStorage mode
  if connMode = .server then removeMutex
  openOrCreateMutex

theorem setUp_of_provide {connMode : ConnectionMode} {Q : Unit → BoostState → Prop}
    {X : Exn → BoostState → Prop}
    (h : Spec (At (siteOf size mode nodeTag) (viewOf (siteOf size mode nodeTag) host) outcomes)
      (provide size mode connMode) Q X) :
    Spec
      (fun s => s =
        { kv := { totalMemorySize := size, storageMode := mode, connMode := connMode }
          host := host
          outcomes := outcomes })
      (setUp size mode connMode nodeTag) Q X := by
  unfold setUp
  by_cases htag : nodeTag = []
  · rw [if_neg (not_not.mpr htag)]
    subst htag
    exact h.at (at_untagged size mode connMode host outcomes)
  · rw [if_pos htag]
    refine Spec.bind _ (Spec.modify fun s hs => ?_) fun _ => h
    rw [hs]
    exact at_tagged size mode connMode host outcomes htag

theorem setUp_spec {X : Exn → BoostState → Prop} (hother : ∀ w s, X (.other w) s)
    (hX : ∀ e s, Failed (siteOf size mode nodeTag) (viewOf (siteOf size mode nodeTag) host) size
      outcomes s → X e s) :
    Spec
      (fun s => s =
        { kv := { totalMemorySize := size, storageMode := mode, connMode := .server }
          host := host
          outcomes := outcomes })
      (setUp size mode .server nodeTag)
      (fun _ => Came (siteOf size mode nodeTag) (viewOf (siteOf size mode nodeTag) host) size
        outcomes) X := by
  refine setUp_of_provide ?_
  unfold provide
  simp only [if_true]
  exact provision_spec (c := siteOf size mode nodeTag) hother hX

/-- What a server is that has come up, whichever calls have failed. -/
theorem getInstance_came
    (h : getInstance size mode .server nodeTag host outcomes = .ok s) :
    ∃ n rest, n = (if 0 < size then size else defaultMemorySize) ∧
      Came (siteOf n mode nodeTag) (viewOf (siteOf n mode nodeTag) host) n outcomes
        { kv := s.kv, host := s.host, outcomes := rest } := by
  obtain ⟨n, rest, hn, hrun⟩ := construct_of_getInstance h
  refine ⟨n, rest, hn, Spec.of_ok (X := fun _ _ => True) (catchInterprocess_spec
    (M := fun e s => ∀ w, e = .interprocess w →
      Failed (siteOf n mode nodeTag) (viewOf (siteOf n mode nodeTag) host) n outcomes s)
    (setUp_spec (fun w s w' hw => by cases hw) fun e s hs w hw => hs) (fun _ _ _ => trivial)
    fun w => ?_) rfl hrun⟩
  exact recover_spec.weaken (fun s hs => hs w rfl) (fun _ _ h => h) fun _ _ h => h

/-- **When a server that comes up is of use.**  The constructor may return with its map
pointer null or without its mutex, and it does so exactly if it has made a segment, or found
one, and is then kept from making the map or the mutex, but not from opening the segment
again.  In every other case the operations reach a map. -/
theorem server_useful_iff (size : Nat) (mode : StorageMode) (nodeTag : Bytes) (host : Host)
    (outcomes : List (Option Exn)) (s : Server)
    (h : getInstance size mode .server nodeTag host outcomes = .ok s) :
    (s.kv.hasMapPtr s.kv.storageMode = true ∧ s.host.mutexes s.kv.mutexName = true ↔
      ¬ Stuck mode (host.image mode (segmentNameOf mode nodeTag)) outcomes) ∧
    (¬ Stuck mode (host.image mode (segmentNameOf mode nodeTag)) outcomes → s.Serving) := by
  obtain ⟨n, rest, -, hcame⟩ := getInstance_came h
  have hmode : s.kv.storageMode = mode := hcame.mode
  have hname : s.kv.segmentName mode = segmentNameOf mode nodeTag := hcame.name
  have hmutex : s.kv.mutexName = mutexNameOf nodeTag := hcame.mutexName
  have huseful : s.kv.hasMapPtr s.kv.storageMode = true ∧ s.host.mutexes s.kv.mutexName = true ↔
      ¬ Stuck mode (host.image mode (segmentNameOf mode nodeTag)) outcomes := by
    rw [hmode, hmutex]
    exact hcame.useful
  refine ⟨huseful, fun hnot => ?_⟩
  obtain ⟨hptr, hpresent⟩ := huseful.mpr hnot
  rw [hmode] at hptr
  obtain ⟨seg, m, hseg, hm⟩ := hcame.hasMap hptr
  refine ⟨⟨m, sharedMap_eq_some.mpr ?_⟩, hpresent⟩
  rw [hmode, hname]
  exact ⟨hptr, seg, hseg, hm⟩

/-- The segment cannot be created at first, and the recovery creates it. -/
theorem server_useful_iff_recovered :
    ∃ s, getInstance 0 .memory .server (str "8080") {}
        [none, some (.interprocess (str "no space"))] = .ok s ∧
      s.kv.hasMapPtr s.kv.storageMode = true ∧ s.host.mutexes s.kv.mutexName = true ∧
        s.Serving := by
  have hnot : ¬ Stuck .memory none [none, some (.interprocess (str "no space"))] := by
    rintro (⟨⟨hmode, -⟩, -⟩ | ⟨-, hpass, -⟩)
    · cases hmode
    · cases hpass
  obtain ⟨huseful, hserving⟩ := server_useful_iff 0 .memory (str "8080") {}
    [none, some (.interprocess (str "no space"))] _ rfl
  obtain ⟨hptr, hmutex⟩ := huseful.mpr hnot
  exact ⟨_, rfl, hptr, hmutex, hserving hnot⟩

/-- The segment is created on an empty host, but the map is not, and the segment is opened. -/
theorem comes_up_without_map : ¬ ∀ (size : Nat) (mode : StorageMode) (nodeTag : Bytes)
    (host : Host) (outcomes : List (Option Exn)) (s : Server),
    getInstance size mode .server nodeTag host outcomes = .ok s →
      s.kv.hasMapPtr s.kv.storageMode = true ∧ s.host.mutexes s.kv.mutexName = true := by
  intro hall
  have huseful := hall 0 .memory [] {} [none, none, some (.interprocess (str "no space"))] _ rfl
  revert huseful
  decide

end KvStore

end DistKV
