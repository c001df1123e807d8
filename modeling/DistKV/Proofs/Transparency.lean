/-
Which values come back.

A store keeps a value up to its first NUL, and a `get` takes a value that reads like a
miss or an error for one.  Nothing else stands in the way: at local and remote replicas
alike, what is inserted comes back exactly if it is none of these, and then it also shows
that the key is there, unless it is the very text a `get` returns for a miss.
-/
import DistKV.Proofs.Start

namespace DistKV

open Replica

namespace Session

variable {D : Deployment} {V : Int} {s : Session} {c c' : Conditions} {key : Key} {value : Bytes}

/-- A key that no node of the ring has is not found. -/
theorem get_of_absent (hs : s.Wired D V) (hkey : s.Placed key) (hd : c.Delivered)
    (habsent : ∀ i ∈ s.dist.nodeToIp, s.column D key i = none) :
    (s.exec c (.get key)).1 = some rpcFailed := by
  rw [result_get_any hs hkey hd, habsent _ hkey.primary, habsent _ hkey.buddy]
  rfl

/-- The insert of an absent key leaves the value at both replicas, up to its first NUL. -/
theorem column_insert (hs : s.Wired D V) (hkey : s.Placed key) (hc : c.Ample)
    (hd : c.Delivered) (habsent : ∀ i ∈ s.dist.nodeToIp, s.column D key i = none) :
    (s.exec c (.insert key value)).2.column D key (s.dist.primary key) = some (cStr value) ∧
      (s.exec c (.insert key value)).2.column D key (s.dist.buddy key) =
        some (cStr value) := by
  have htakes : ∀ i, takes c D s.dist s.cluster (.insert key value) i = true :=
    fun i => (serves_of_smooth hc hd s.dist i).takes hs _
  have hinsert : s.Placed (Op.insert key value).key := hkey
  have hcolumn := exec_write (c := c) hs rfl rfl hinsert key
  rw [if_pos (show key = (Op.insert key value).key from rfl)] at hcolumn
  dsimp only [Op.key] at hcolumn
  rw [hcolumn]
  refine ⟨replicate_primary.trans ?_, replicate_buddy.trans ?_⟩
  · rw [if_pos (htakes _), habsent _ hkey.primary]
    rfl
  · rw [if_pos (htakes _), habsent _ hkey.buddy]
    rfl

/-- What a `get` returns after that. -/
theorem get_of_insert (hs : s.Wired D V) (hkey : s.Placed key) (hc : c.Ample)
    (hd : c.Delivered) (hd' : c'.Delivered)
    (habsent : ∀ i ∈ s.dist.nodeToIp, s.column D key i = none) :
    ((s.exec c (.insert key value)).2.exec c' (.get key)).1 =
      some (if isMissOrError (cStr value) then rpcFailed else cStr value) := by
  have hinsert : s.Placed (Op.insert key value).key := hkey
  have hdist : (s.exec c (.insert key value)).2.dist = s.dist := hs.dist_exec hinsert
  obtain ⟨hp, hb⟩ := @column_insert D V s c key value hs hkey hc hd habsent
  rw [result_get_any (hs.exec hinsert) (hkey.of_dist hdist) hd', hdist, hp, hb]
  unfold readAs
  rw [Option.filter_some]
  rcases isMissOrError (cStr value) with _ | _
  · rfl
  · rfl

/-- **Which values come back.**  For every key that no node of the ring has, a `get` after
an insert returns the value inserted, and not what a `get` before it returned, if and only
if the value has no NUL in it and is no text that stands for a miss or an error. -/
theorem round_trip_iff (D : Deployment) (V : Int) (hV : 1 ≤ V) (s : Session)
    (hs : s.Wired D V) (hnode : s.dist.nodeToIp.keys ≠ []) (key : Key) (value : Bytes)
    (habsent : ∀ i ∈ s.dist.nodeToIp, s.column D key i = none) (c c' c'' : Conditions)
    (hc : c.Ample) (hd : c.Delivered) (hd' : c'.Delivered) (hd'' : c''.Delivered) :
    (((s.exec c (.insert key value)).2.exec c' (.get key)).1 = some value ∧
      ((s.exec c (.insert key value)).2.exec c' (.get key)).1 ≠ (s.exec c'' (.get key)).1) ↔
    cStr value = value ∧ isMissOrError value = false ∧ value ≠ rpcFailed := by
  obtain ⟨i, hi⟩ := List.exists_mem_of_ne_nil _ hnode
  have hkey : s.Placed key := hs.placed hV (AList.mem_keys.mpr hi) key
  rw [get_of_insert hs hkey hc hd hd' habsent, get_of_absent hs hkey hd'' habsent]
  simp only [ne_eq, Option.some.injEq]
  by_cases hmiss : isMissOrError (cStr value) = true
  · rw [if_pos hmiss]
    refine iff_of_false (fun h => h.2 rfl) ?_
    intro h
    rw [h.1, h.2.1] at hmiss
    cases hmiss
  · rw [if_neg hmiss]
    constructor
    · intro h
      have hvalue : cStr value = value := h.1
      rw [hvalue] at hmiss h
      exact ⟨hvalue, Bool.not_eq_true _ |>.mp hmiss, h.2⟩
    · intro h
      rw [h.1]
      exact ⟨rfl, h.2.2⟩

theorem round_trip_iff_two :
    ((((start .byLength 2 [0, 1]).exec .fine (.insert 7 (str "v"))).2.exec .fine (.get 7)).1 =
        some (str "v") ∧
      (((start .byLength 2 [0, 1]).exec .fine (.insert 7 (str "v"))).2.exec .fine (.get 7)).1 ≠
        ((start .byLength 2 [0, 1]).exec .fine (.get 7)).1) ↔
    cStr (str "v") = str "v" ∧ isMissOrError (str "v") = false ∧ str "v" ≠ rpcFailed :=
  round_trip_iff .byLength 2 (by decide) (start .byLength 2 [0, 1]) (start_wired (by decide))
    (by decide) 7 (str "v") (fun i _ => start_column 7 i) .fine .fine .fine
    Conditions.fine_ample Conditions.fine_delivered Conditions.fine_delivered
    Conditions.fine_delivered

/-- A value that reads like an error is taken for one. -/
theorem error_text_lost : ¬ ∀ (D : Deployment) (V : Int) (s : Session) (key : Key)
    (value : Bytes) (c c' : Conditions), 1 ≤ V → s.Wired D V → s.dist.nodeToIp.keys ≠ [] →
    (∀ i ∈ s.dist.nodeToIp, s.column D key i = none) → c.Ample → c.Delivered → c'.Delivered →
    ((s.exec c (.insert key value)).2.exec c' (.get key)).1 = some value := by
  intro h
  have hget := h .byLength 2 (start .byLength 2 [0, 1]) 7 (str "Error: disk full") .fine .fine
    (by decide) (start_wired (by decide)) (by decide) (fun i _ => start_column 7 i)
    Conditions.fine_ample Conditions.fine_delivered Conditions.fine_delivered
  revert hget
  decide +kernel

end Session

end DistKV
