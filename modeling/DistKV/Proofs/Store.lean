/-
What one operation does to a store.

A server is *serving* when its map pointer is set, the map is in the segment, and
the mutex can be opened; that is the case from construction to destruction, and no
operation changes it.  Then what it holds for a key is `contents`, and every
operation that memory *admits* acts on the contents as a write acts on one entry of
a replica column, on its own key and on no other.
-/
import DistKV.Store
import DistKV.Lib.Replica
import DistKV.Lib.Triple
import Mathlib.Data.List.TakeWhile

namespace DistKV

open Replica Hoare

namespace StoreOp

/-- The key an operation is about. -/
def key : StoreOp → Key
  | .find key => key
  | .insert key _ => key
  | .update key _ => key
  | .delete key => key

/-- What an operation tells the store to do about its key. -/
def write : StoreOp → Option (Write Bytes)
  | .find _ => none
  | .insert _ value => some (.insert (cStr value))
  | .update _ newValue => some (.update (cStr newValue))
  | .delete _ => some .delete

end StoreOp

namespace KvStore

variable {kv : KvStore} {h : Host} {m m' : HashMap}

theorem image_setImage (h : Host) (mode : StorageMode) (name : Bytes) (i : Option Image) :
    (h.setImage mode name i).image mode name = i := by
  cases mode with
  | memory => exact Function.update_self _ _ _
  | persistent => exact Function.update_self _ _ _

@[simp] theorem mutexes_setImage (h : Host) (mode : StorageMode) (name : Bytes)
    (i : Option Image) : (h.setImage mode name i).mutexes = h.mutexes := by
  cases mode <;> rfl

/-- A map that can be seen is in a segment. -/
theorem sharedMap_eq_some : kv.sharedMap h = some m ↔
    kv.hasMapPtr kv.storageMode = true ∧
      ∃ seg, h.image kv.storageMode (kv.segmentName kv.storageMode) = some (.segment seg) ∧
        seg.sharedMap = some m := by
  unfold sharedMap
  split
  · rename_i hptr
    cases hi : h.image kv.storageMode (kv.segmentName kv.storageMode) with
    | none => simp
    | some image =>
        cases image with
        | segment seg => simp [hptr]
        | corrupt => simp
  · rename_i hptr
    simp [hptr]

/-- What is written back is what is seen from then on. -/
theorem sharedMap_putMap (hm : kv.sharedMap h = some m) :
    kv.sharedMap (kv.putMap m' h) = some m' := by
  obtain ⟨hptr, seg, hi, -⟩ := sharedMap_eq_some.mp hm
  refine sharedMap_eq_some.mpr ⟨hptr, { seg with sharedMap := some m' }, ?_, rfl⟩
  unfold putMap
  rw [hi]
  exact image_setImage _ _ _ _

/-- `Update` asks for memory when the value grows, and only for what it grows by. -/
theorem growth_refused {oldSize newSize : Nat} {enough : Nat → Bool} :
    (decide (0 < if oldSize < newSize then newSize - oldSize else 0) &&
        !enough (if oldSize < newSize then newSize - oldSize else 0)) = true ↔
      oldSize < newSize ∧ enough (newSize - oldSize) = false := by
  by_cases hlt : oldSize < newSize
  · have hpos : 0 < newSize - oldSize := Nat.sub_pos_of_lt hlt
    rw [if_pos hlt, Bool.and_eq_true, decide_eq_true_eq, Bool.not_eq_true']
    exact and_congr_left fun _ => iff_of_true hpos hlt
  · rw [if_neg hlt, Bool.and_eq_true, decide_eq_true_eq]
    exact iff_of_false (fun h => Nat.lt_irrefl 0 h.1) fun h => hlt h.1

@[simp] theorem mutexes_putMap : (kv.putMap m' h).mutexes = h.mutexes := by
  unfold putMap
  split
  · exact mutexes_setImage _ _ _ _
  · rfl

/-! ### The `try` and `catch` blocks -/

theorem run_swallow (body : Attempt Unit) (h : Host) :
    body.swallow.run h = match body.run h with
      | .ok _ h' => .ok () h'
      | .error _ h' => .ok () h' := by
  unfold Attempt.swallow
  show EStateM.tryCatch body (fun _ => pure ()) h = _
  unfold EStateM.tryCatch
  show _ = match body h with
    | .ok _ h' => EStateM.Result.ok () h'
    | .error _ h' => .ok () h'
  rcases body h with ⟨⟨⟩, h'⟩ | ⟨e, h'⟩
  · rfl
  · rfl

theorem run_lockMutex (kv : KvStore) (h : Host) : kv.lockMutex.run h =
    if h.mutexes kv.mutexName then .ok () h else .error notFound h := by
  unfold lockMutex
  show (if h.mutexes kv.mutexName then (pure () : Attempt Unit) else throw notFound).run h = _
  split
  · rfl
  · rfl

theorem run_allocate (env : MemEnv) (h : Host) : (allocate env).run h =
    match env.alloc with
    | some e => .error e h
    | none => .ok () h := by
  unfold allocate
  rcases env.alloc with _ | e
  · rfl
  · rfl

end KvStore

namespace Server

structure Serving (s : Server) : Prop where
  map : ∃ m, s.kv.sharedMap s.host = some m
  mutex : s.host.mutexes s.kv.mutexName = true

/-- What the store holds for a key, as `Find` reads it. -/
def contents (s : Server) (key : Key) : Option Bytes :=
  ((s.kv.sharedMap s.host).bind fun m => m.lookup key).map cStr

/-- The store has the memory an operation asks for. -/
def Admits (env : MemEnv) (s : Server) : StoreOp → Prop
  | .insert key value =>
      s.kv.hasEnoughMemory env (KvStore.entrySize value) = true ∧
        (s.contents key = none → env.alloc = none)
  | .update key newValue =>
      ∀ old, s.contents key = some old →
        (old.length < newValue.length →
          s.kv.hasEnoughMemory env (newValue.length - old.length) = true) ∧
        env.alloc = none
  | _ => True

variable {s : Server} {env : MemEnv} {m m' : HashMap} {key : Key}

theorem contents_of_map (hm : s.kv.sharedMap s.host = some m) (key : Key) :
    s.contents key = (m.lookup key).map cStr := by
  unfold contents
  rw [hm]
  rfl

/-- `Find` returns what the store holds, and says so when it holds nothing. -/
theorem find_eq (hs : s.Serving) (key : Key) :
    s.find key = (s.contents key).getD (str "key not found") := by
  obtain ⟨m, hm⟩ := hs.map
  rw [contents_of_map hm]
  unfold find KvStore.find
  simp only [hm, hs.mutex, Bool.not_true, Bool.false_eq_true, if_false]
  cases m.lookup key <;> rfl

/-! ### What each operation leaves in the map -/

/-- The server with its map replaced. -/
def withMap (s : Server) (m : HashMap) : Server := { s with host := s.kv.putMap m s.host }

theorem Serving.withMap (hs : s.Serving) (m : HashMap) : (s.withMap m).Serving where
  map := by
    obtain ⟨m₀, hm⟩ := hs.map
    exact ⟨m, KvStore.sharedMap_putMap hm⟩
  mutex := by
    unfold Server.withMap
    rw [KvStore.mutexes_putMap]
    exact hs.mutex

theorem contents_withMap (hs : s.Serving) (m : HashMap) (key : Key) :
    (s.withMap m).contents key = (m.lookup key).map cStr := by
  obtain ⟨m₀, hm⟩ := hs.map
  exact contents_of_map (KvStore.sharedMap_putMap hm) key

/-- The server once its map has been changed, if it is there and the mutex can be opened. -/
def amend (s : Server) (f : HashMap → Option HashMap) : Server :=
  match s.kv.sharedMap s.host with
  | some m => if s.host.mutexes s.kv.mutexName then (f m).elim s s.withMap else s
  | none => s

/-- What an operation makes of the map, if it changes it. -/
def changes (env : MemEnv) (s : Server) (m : HashMap) : StoreOp → Option HashMap
  | .find _ => none
  | .insert key value =>
      if s.kv.hasEnoughMemory env (KvStore.entrySize value) = true ∧ m.lookup key = none ∧
        env.alloc = none then some (m.insert key (cStr value)) else none
  | .update key newValue =>
      match m.lookup key with
      | some old =>
          if ((cStr old).length < newValue.length →
              s.kv.hasEnoughMemory env (newValue.length - (cStr old).length) = true) ∧
            env.alloc = none then some (m.insert key (cStr newValue)) else none
      | none => none
  | .delete key => if (m.lookup key).isSome then some (m.erase key) else none

theorem after_swallow (s : Server) (body : Attempt Unit) : s.after body.swallow = s.after body := by
  unfold after
  rw [KvStore.run_swallow]
  cases body.run s.host <;> rfl

/-- What is behind the mutex is carried out if the map is there and the mutex can be opened. -/
theorem after_locked {f : HashMap → Option HashMap} {body : HashMap → Attempt Unit}
    (hbody : ∀ m, s.after (body m) = (f m).elim s s.withMap) :
    s.after (do
      let h ← get
      match s.kv.sharedMap h with
      | none => pure ()
      | some m =>
          s.kv.lockMutex
          body m) = s.amend f := by
  unfold after at hbody
  unfold after amend
  rw [run_get_bind]
  cases s.kv.sharedMap s.host with
  | none => rfl
  | some m =>
      dsimp only
      rw [EStateM.run_bind, KvStore.run_lockMutex]
      cases s.host.mutexes s.kv.mutexName with
      | false => rfl
      | true =>
          simp only [if_true]
          exact hbody m

/-- **What an operation comes to.** -/
theorem write_eq (env : MemEnv) (s : Server) (op : StoreOp) :
    s.write env op = s.amend fun m => s.changes env m op := by
  cases op with
  | find key =>
      unfold amend
      split
      · split
        · rfl
        · rfl
      · rfl
  | insert key value =>
      refine (after_swallow s _).trans (after_locked fun m => ?_)
      unfold after changes
      dsimp only
      cases s.kv.hasEnoughMemory env (KvStore.entrySize value) with
      | false => rfl
      | true =>
          cases m.lookup key with
          | some old => rfl
          | none =>
              simp only [Bool.not_true, Bool.false_eq_true, if_false]
              rw [EStateM.run_bind, KvStore.run_allocate]
              cases env.alloc <;> rfl
  | update key newValue =>
      refine (after_swallow s _).trans (after_locked fun m => ?_)
      unfold after changes
      dsimp only
      cases m.lookup key with
      | none => rfl
      | some old =>
          simp only [KvStore.growth_refused]
          by_cases hroom : (cStr old).length < newValue.length →
              s.kv.hasEnoughMemory env (newValue.length - (cStr old).length) = true
          · rw [if_neg (by simpa using hroom), EStateM.run_bind, KvStore.run_allocate]
            cases env.alloc with
            | some e =>
                rw [if_neg fun h => Option.some_ne_none e h.2]
                rfl
            | none =>
                rw [if_pos ⟨hroom, rfl⟩]
                rfl
          · rw [if_pos (by simpa using hroom), if_neg fun h => hroom h.1]
            rfl
  | delete key =>
      refine (after_swallow s _).trans (after_locked fun m => ?_)
      unfold after changes
      dsimp only
      cases m.lookup key <;> rfl

theorem amend_cases (s : Server) (f : HashMap → Option HashMap) :
    s.amend f = s ∨ ∃ m m', s.kv.sharedMap s.host = some m ∧ f m = some m' ∧
      s.amend f = s.withMap m' := by
  unfold amend
  cases hm : s.kv.sharedMap s.host with
  | none => exact Or.inl rfl
  | some m =>
      dsimp only
      split
      · cases hf : f m with
        | none => exact Or.inl rfl
        | some m' => exact Or.inr ⟨m, m', rfl, hf, rfl⟩
      · exact Or.inl rfl

theorem amend_eq (hm : s.kv.sharedMap s.host = some m)
    (hmutex : s.host.mutexes s.kv.mutexName = true) (f : HashMap → Option HashMap) :
    s.amend f = (f m).elim s s.withMap := by
  unfold amend
  rw [hm]
  exact if_pos hmutex

theorem amend_of_none {f : HashMap → Option HashMap}
    (h : ∀ m, s.kv.sharedMap s.host = some m → f m = none) : s.amend f = s := by
  rcases amend_cases s f with hsame | ⟨m, m', hm, hf, -⟩
  · exact hsame
  · rw [h m hm] at hf
    cases hf

/-- An operation puts what it brings under its key, or takes the key out. -/
theorem changes_eq_some {op : StoreOp} (h : s.changes env m op = some m') :
    (∃ w value, op.write = some w ∧ w.value = some value ∧ m' = m.insert op.key value) ∨
      m' = m.erase op.key := by
  unfold changes at h
  split at h
  · cases h
  · split at h
    · exact Or.inl ⟨_, _, rfl, rfl, (Option.some.inj h).symm⟩
    · cases h
  · split at h
    · split at h
      · exact Or.inl ⟨_, _, rfl, rfl, (Option.some.inj h).symm⟩
      · cases h
    · cases h
  · split at h
    · exact Or.inr (Option.some.inj h).symm
    · cases h

/-- An operation leaves a store as it is, or puts a map in the place of the one there that
holds the same for every other key. -/
theorem write_cases (env : MemEnv) (s : Server) (op : StoreOp) :
    s.write env op = s ∨ ∃ m m', s.kv.sharedMap s.host = some m ∧
      s.write env op = s.withMap m' ∧ ∀ key, key ≠ op.key → m'.lookup key = m.lookup key := by
  rw [write_eq]
  rcases amend_cases s fun m => s.changes env m op with hsame | ⟨m, m', hm, hchanges, hput⟩
  · exact Or.inl hsame
  · refine Or.inr ⟨m, m', hm, hput, fun key hne => ?_⟩
    rcases changes_eq_some hchanges with ⟨-, value, -, -, rfl⟩ | rfl
    · exact AList.lookup_insert_ne hne
    · exact AList.lookup_erase_ne hne

theorem Serving.write (hs : s.Serving) (env : MemEnv) (op : StoreOp) :
    (s.write env op).Serving := by
  rcases write_cases env s op with h | ⟨-, m', -, h, -⟩
  · rw [h]
    exact hs
  · rw [h]
    exact hs.withMap m'

/-- A server that serves from a segment it holds. -/
structure Up (s : Server) : Prop extends s.Serving where
  storage : s.kv.hasStorage s.kv.storageMode = true

theorem Up.write (hs : s.Up) (env : MemEnv) (op : StoreOp) : (s.write env op).Up where
  toServing := hs.toServing.write env op
  storage := by
    rcases write_cases env s op with h | ⟨-, m', -, h, -⟩
    · rw [h]
      exact hs.storage
    · rw [h]
      exact hs.storage

/-- What holds of a server and survives a new map survives a run. -/
theorem run_invariant {P : Server → Prop} (hP : ∀ s m, P s → P (s.withMap m))
    (calls : List (MemEnv × StoreOp)) {s : Server} (hs : P s) : P (s.run calls) := by
  induction calls generalizing s with
  | nil => exact hs
  | cons call rest ih =>
      refine @ih (s.write call.1 call.2) ?_
      rcases write_cases call.1 s call.2 with h | ⟨-, m', -, h, -⟩
      · rw [h]
        exact hs
      · rw [h]
        exact hP s m' hs

theorem insert_eq (hm : s.kv.sharedMap s.host = some m)
    (hmutex : s.host.mutexes s.kv.mutexName = true) {key : Key} {value : Bytes}
    (ha : s.Admits env (.insert key value)) :
    s.write env (.insert key value) =
      if (m.lookup key).isSome then s else s.withMap (m.insert key (cStr value)) := by
  obtain ⟨hmem, halloc⟩ := ha
  rw [write_eq, amend_eq hm hmutex]
  unfold changes
  dsimp only
  cases hl : m.lookup key with
  | some old =>
      rw [if_neg]
      · rfl
      · rintro ⟨-, habsent, -⟩
        cases habsent
  | none =>
      have habsent : s.contents key = none := by
        rw [contents_of_map hm, hl]
        rfl
      rw [if_pos ⟨hmem, rfl, halloc habsent⟩]
      rfl

/-- An insert of a key that is there changes nothing, whatever the memory. -/
theorem insert_present {key : Key} (h : s.contents key ≠ none) (env : MemEnv) (value : Bytes) :
    s.write env (.insert key value) = s := by
  rw [write_eq]
  refine amend_of_none fun m hm => if_neg ?_
  rintro ⟨-, hl, -⟩
  rw [contents_of_map hm, hl] at h
  exact h rfl

theorem update_eq (hm : s.kv.sharedMap s.host = some m)
    (hmutex : s.host.mutexes s.kv.mutexName = true) {key : Key} {newValue : Bytes}
    (ha : s.Admits env (.update key newValue)) :
    s.write env (.update key newValue) =
      if (m.lookup key).isSome then s.withMap (m.insert key (cStr newValue)) else s := by
  rw [write_eq, amend_eq hm hmutex]
  unfold changes
  dsimp only
  cases hl : m.lookup key with
  | none => rfl
  | some old =>
      have hadmits := ha (cStr old) (by rw [contents_of_map hm, hl]; rfl)
      dsimp only
      rw [if_pos hadmits]
      rfl

theorem delete_eq (hm : s.kv.sharedMap s.host = some m)
    (hmutex : s.host.mutexes s.kv.mutexName = true) (env : MemEnv) {key : Key} :
    s.write env (.delete key) = if (m.lookup key).isSome then s.withMap (m.erase key) else s := by
  rw [write_eq, amend_eq hm hmutex]
  unfold changes
  dsimp only
  cases m.lookup key <;> rfl

/-- **An operation the store has no memory for changes nothing.** -/
theorem write_of_not_admits {op : StoreOp} (ha : ¬ s.Admits env op) : s.write env op = s := by
  rw [write_eq]
  refine amend_of_none fun m hm => ?_
  cases op with
  | find key => rfl
  | insert key value =>
      refine if_neg ?_
      rintro ⟨hmem, -, halloc⟩
      exact ha ⟨hmem, fun _ => halloc⟩
  | update key newValue =>
      unfold changes
      dsimp only
      cases hl : m.lookup key with
      | none => rfl
      | some old =>
          refine if_neg fun hadmits => ha ?_
          intro old' hold
          rw [contents_of_map hm, hl] at hold
          cases hold
          exact hadmits
  | delete key => exact absurd trivial ha

/-- A store that does not serve is left as it is. -/
theorem write_of_not_serving (h : ¬ s.Serving) (env : MemEnv) (op : StoreOp) :
    s.write env op = s := by
  rw [write_eq]
  unfold amend
  cases hm : s.kv.sharedMap s.host with
  | none => rfl
  | some m => exact if_neg fun hmutex => h ⟨⟨m, hm⟩, hmutex⟩

@[simp] theorem cStr_cStr (v : Bytes) : cStr (cStr v) = cStr v := List.takeWhile_idem

/-- What a store is read to hold has no NUL in it. -/
theorem nulFree_of_contents {value : Bytes} (h : s.contents key = some value) :
    cStr value = value := by
  obtain ⟨stored, -, rfl⟩ := Option.map_eq_some_iff.mp h
  exact cStr_cStr stored

/-- What the store holds for another key is what it was, memory or no memory. -/
theorem contents_write_of_ne (hs : s.Serving) (env : MemEnv) {op : StoreOp}
    (hne : key ≠ op.key) : (s.write env op).contents key = s.contents key := by
  rcases write_cases env s op with h | ⟨m, m', hm, h, hsame⟩
  · rw [h]
  · rw [h, contents_withMap hs, hsame key hne, contents_of_map hm]

/-- What it holds for the key of the operation is what the operation makes of it. -/
theorem contents_write_self (hs : s.Serving) {op : StoreOp} (ha : s.Admits env op) :
    (s.write env op).contents op.key =
      match op.write with
      | some w => w.apply (s.contents op.key)
      | none => s.contents op.key := by
  rcases hs.map with ⟨m, hm⟩
  cases op with
  | find key => rfl
  | insert key value =>
      rw [insert_eq hm hs.mutex ha]
      dsimp only [StoreOp.key, StoreOp.write]
      rw [contents_of_map hm key]
      cases hl : m.lookup key with
      | none =>
          rw [if_neg (by simp), contents_withMap hs, AList.lookup_insert]
          simp
      | some old =>
          rw [if_pos (by simp), contents_of_map hm key, hl]
          simp
  | update key newValue =>
      rw [update_eq hm hs.mutex ha]
      dsimp only [StoreOp.key, StoreOp.write]
      rw [contents_of_map hm key]
      cases hl : m.lookup key with
      | none =>
          rw [if_neg (by simp), contents_of_map hm key, hl]
          simp
      | some old =>
          rw [if_pos (by simp), contents_withMap hs, AList.lookup_insert]
          simp
  | delete key =>
      rw [delete_eq hm hs.mutex env]
      dsimp only [StoreOp.key, StoreOp.write]
      cases hl : m.lookup key with
      | none =>
          rw [if_neg (by simp), contents_of_map hm key, hl]
          simp
      | some old =>
          rw [if_pos (by simp), contents_withMap hs, AList.lookup_erase]
          simp

/-- **What an operation does.**  A store with the memory for it carries an operation
out on its key, and holds what it held for every other. -/
theorem contents_write (hs : s.Serving) {op : StoreOp} (ha : s.Admits env op) (key : Key) :
    (s.write env op).contents key =
      if key = op.key then
        match op.write with
        | some w => w.apply (s.contents key)
        | none => s.contents key
      else s.contents key := by
  by_cases hkey : key = op.key
  · rw [if_pos hkey, hkey]
    exact contents_write_self hs ha
  · rw [if_neg hkey]
    exact contents_write_of_ne hs env hkey

end Server

end DistKV
