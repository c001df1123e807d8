/-
What a positive acknowledgement is worth.

The operations of a store swallow their exceptions, so a handler never sees one: every
write is acknowledged, whether it has taken effect or not.  A 1 is true exactly when the
store serves, has the memory, and finds the key as the write wants it.
-/
import DistKV.Handlers
import DistKV.Proofs.Start

namespace DistKV

open Replica

namespace Server

variable {s : Server} {env : MemEnv} {key : Key} {value : Bytes} {op : StoreOp}

/-- **A handler responds 1**, whatever is thrown in the call on its store. -/
theorem respond_swallow (body : KvStore → Attempt Unit) (s : Server) :
    (s.respond fun kv => (body kv).swallow) = (1, s.after (body s.kv).swallow) := by
  unfold respond after
  rw [KvStore.run_swallow]
  cases (body s.kv).run s.host <;> rfl

theorem kvInsert_eq (env : MemEnv) (key : Key) (value : Bytes) (s : Server) :
    s.kvInsert env key value = (1, s.write env (.insert key value)) :=
  respond_swallow (fun kv => kv.insertBody env key value) s

theorem kvUpdate_eq (env : MemEnv) (key : Key) (value : Bytes) (s : Server) :
    s.kvUpdate env key value = (1, s.write env (.update key value)) :=
  respond_swallow (fun kv => kv.updateBody env key value) s

theorem kvDelete_eq (env : MemEnv) (key : Key) (s : Server) :
    s.kvDelete key = (1, s.write env (.delete key)) :=
  respond_swallow (fun kv => kv.deleteBody key) s

/-- A write served in a cluster is one of these handlers at work. -/
theorem serve_eq_handler (env : MemEnv) (key : Key) (value : Bytes) (s : Server) :
    s.serve env (.insert key value) = (.ack, (s.kvInsert env key value).2) ∧
      s.serve env (.update key value) = (.ack, (s.kvUpdate env key value).2) ∧
      s.serve env (.delete key) = (.ack, (s.kvDelete key).2) := by
  rw [kvInsert_eq, kvUpdate_eq, kvDelete_eq env]
  exact ⟨rfl, rfl, rfl⟩

/-! ### When a write takes effect -/

/-- The store carries an operation out, or leaves everything as it is. -/
theorem contents_write_cases (s : Server) (env : MemEnv) (op : StoreOp) :
    (s.Serving ∧ s.Admits env op ∧ (s.write env op).contents op.key =
        match op.write with
        | some w => w.apply (s.contents op.key)
        | none => s.contents op.key) ∨
      ¬ (s.Serving ∧ s.Admits env op) ∧ s.write env op = s := by
  by_cases hs : s.Serving
  · by_cases ha : s.Admits env op
    · exact Or.inl ⟨hs, ha, contents_write_self hs ha⟩
    · exact Or.inr ⟨fun h => ha h.2, write_of_not_admits ha⟩
  · exact Or.inr ⟨fun h => hs h.1, write_of_not_serving hs env op⟩

/-- The effect a client reads into a positive response to a write. -/
def Effect (s s' : Server) : StoreOp → Prop
  | .insert key value => s.contents key = none ∧ s'.contents key = some value
  | .update key value => s.contents key ≠ none ∧ s'.contents key = some value
  | .delete key => s'.contents key = none
  | .find _ => True

/-- A response that is true: 1 and the effect, or 0 and the map as it was. -/
def Truthful (s : Server) (op : StoreOp) (out : Int × Server) : Prop :=
  (out.1 = 1 → Effect s out.2 op) ∧
    (out.1 ≠ 1 → out.1 = 0 ∧ out.2.kv.sharedMap out.2.host = s.kv.sharedMap s.host)

/-- A write finds the key as it wants it and a store that carries it out, and its value is
kept whole. -/
def Takes (env : MemEnv) (s : Server) : StoreOp → Prop
  | .insert key value => s.contents key = none ∧ cStr value = value ∧ s.Serving ∧
      s.Admits env (.insert key value)
  | .update key value => s.contents key ≠ none ∧ cStr value = value ∧
      (s.Serving ∧ s.Admits env (.update key value) ∨ s.contents key = some value)
  | .delete key => s.Serving ∨ s.contents key = none
  | .find _ => True

theorem effect_insert_iff : Effect s (s.write env (.insert key value)) (.insert key value) ↔
    s.Takes env (.insert key value) := by
  dsimp only [Effect, Takes]
  rcases contents_write_cases s env (.insert key value) with ⟨hs, ha, hafter⟩ | ⟨hnot, hsame⟩
  · dsimp only [StoreOp.key, StoreOp.write] at hafter
    rw [hafter]
    refine and_congr_right fun habsent => ?_
    rw [habsent, Write.apply_insert_none, Option.some.injEq]
    exact ⟨fun h => ⟨h, hs, ha⟩, fun h => h.1⟩
  · rw [hsame]
    refine iff_of_false ?_ fun h => hnot h.2.2
    intro h
    exact absurd (h.1.symm.trans h.2) (by simp)

theorem effect_update_iff : Effect s (s.write env (.update key value)) (.update key value) ↔
    s.Takes env (.update key value) := by
  dsimp only [Effect, Takes]
  rcases contents_write_cases s env (.update key value) with ⟨hs, ha, hafter⟩ | ⟨hnot, hsame⟩
  · dsimp only [StoreOp.key, StoreOp.write] at hafter
    rw [hafter]
    refine and_congr_right fun hpresent => ?_
    rcases Option.ne_none_iff_exists'.mp hpresent with ⟨old, hold⟩
    rw [hold, Write.apply_update_some, Option.some.injEq]
    exact ⟨fun h => ⟨h, Or.inl ⟨hs, ha⟩⟩, fun h => h.1⟩
  · rw [hsame]
    refine and_congr_right fun hpresent => ?_
    constructor
    · intro h
      exact ⟨nulFree_of_contents h, Or.inr h⟩
    · intro h
      exact h.2.resolve_left hnot

theorem effect_delete_iff : Effect s (s.write env (.delete key)) (.delete key) ↔
    s.Takes env (.delete key) := by
  dsimp only [Effect, Takes]
  rcases contents_write_cases s env (.delete key) with ⟨hs, ha, hafter⟩ | ⟨hnot, hsame⟩
  · dsimp only [StoreOp.key, StoreOp.write] at hafter
    rw [hafter]
    exact iff_of_true (Write.apply_delete _) (Or.inl hs)
  · rw [hsame]
    refine ⟨fun h => Or.inr h, fun h => h.resolve_left ?_⟩
    intro hs
    exact hnot ⟨hs, trivial⟩

theorem truthful_iff {s' : Server} : s.Truthful op (1, s') ↔ Effect s s' op := by
  unfold Truthful
  exact ⟨fun h => h.1 rfl, fun h => ⟨fun _ => h, fun hne => absurd rfl hne⟩⟩

/-- **What an acknowledgement is worth.**  Each of the write handlers answers truthfully if
and only if the store takes the write. -/
theorem acknowledgement_truthful_iff (s : Server) (env : MemEnv) (key : Key) (value : Bytes) :
    (s.Truthful (.insert key value) (s.kvInsert env key value) ↔
        s.Takes env (.insert key value)) ∧
      (s.Truthful (.update key value) (s.kvUpdate env key value) ↔
        s.Takes env (.update key value)) ∧
      (s.Truthful (.delete key) (s.kvDelete key) ↔ s.Takes env (.delete key)) := by
  rw [kvInsert_eq, kvUpdate_eq, kvDelete_eq env, truthful_iff, truthful_iff, truthful_iff]
  exact ⟨effect_insert_iff, effect_update_iff, effect_delete_iff⟩

/-- A store without free memory turns the insert down, and the handler responds 1. -/
theorem refused_insert_acknowledged : ¬ ∀ (s : Server) (env : MemEnv) (key : Key)
    (value : Bytes), s.Truthful (.insert key value) (s.kvInsert env key value) := by
  intro h
  have hnone : (fresh.kvInsert { freeMemory := 0, alloc := none } 1 (str "v")).2.contents 1 =
      none := by decide +kernel
  have hone : (fresh.kvInsert { freeMemory := 0, alloc := none } 1 (str "v")).1 = 1 := by
    decide +kernel
  have hsome := ((h fresh { freeMemory := 0, alloc := none } 1 (str "v")).1 hone).2
  rw [hnone] at hsome
  cases hsome

end Server

end DistKV
