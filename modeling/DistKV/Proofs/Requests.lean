/-
What a call asks the stores.

A call is a program that depends on the answers it gets.  Whatever they are, it asks only
the two replicas of its key, only about that key, and it asks them to store only values that
it was given or has been told; and a `get` returns what it has been told, or the text for none.
-/
import DistKV.Proofs.Calls

namespace DistKV

/-- The value an operation of a store brings. -/
def StoreOp.value : StoreOp → Option Bytes
  | .insert _ value => some value
  | .update _ newValue => some newValue
  | .find _ => none
  | .delete _ => none

/-- The value a call brings. -/
def Op.value : Op → Option Bytes
  | .insert _ value => some value
  | .update _ newValue => some newValue
  | .deleteKey _ => none
  | .get _ => none

namespace KVDistributor

variable {τ υ : Type} {d : KVDistributor} {i : NodeId} {key : Key} {value : Bytes}

/-- A request of a call about a key: it goes to a replica, and what it brings is a `V`. -/
structure Asks (d : KVDistributor) (key : Key) (V : Bytes → Prop) (r : Request) : Prop where
  target : ∃ n, (n = d.primary key ∨ n = d.buddy key) ∧ n ∈ d.nodeToIp ∧ r.target = d.target n
  key : r.op.key = key
  value : ∀ value, r.op.value = some value → V value

/-- A value that is found is a `U`. -/
def Tells (U : Bytes → Prop) (_ : Request) (a : Reply) : Prop :=
  ∀ value, found a = some value → U value

/-- A stretch of a call about a key, that leaves the distributor as it is.  It brings `V`s, and
finds `U`s. -/
def Obeys (d : KVDistributor) (key : Key) (V U : Bytes → Prop) (P : τ → Prop) (c : Call τ) :
    Prop :=
  (c.run d).Assures (d.Asks key V) (Tells U) fun t => P t.1 ∧ t.2 = d

variable {V U : Bytes → Prop} {P : τ → Prop} {Q : υ → Prop}

theorem Obeys.bind {c : Call τ} {f : τ → Call υ} (hc : d.Obeys key V U P c)
    (hf : ∀ t, P t → d.Obeys key V U Q (f t)) : d.Obeys key V U Q (c >>= f) := by
  refine Prog.Assures.bind hc ?_
  intro t ht
  obtain ⟨a, d'⟩ := t
  obtain ⟨ha, rfl⟩ := ht
  exact hf a ha

theorem obeys_pure {t : τ} (ht : P t) : d.Obeys key V U P (pure t) := ⟨ht, rfl⟩

theorem obeys_getThe {f : KVDistributor → Call τ} (h : d.Obeys key V U P (f d)) :
    d.Obeys key V U P (getThe KVDistributor >>= f) := h

/-- The replicas of the key are looked up in the map, and stand in it. -/
def IsReplica (d : KVDistributor) (key : Key) (i : NodeId) : Prop :=
  (i = d.primary key ∨ i = d.buddy key) ∧ d.Reachable i

theorem obeys_ask (hi : d.IsReplica key i) (hnonneg : ¬ i < 0) {op : StoreOp}
    (hkey : op.key = key) (hvalue : ∀ value, op.value = some value → V value) :
    d.Obeys key V U (fun a => Tells U { target := d.target i, op := op } a)
      (targetOf i >>= fun target => request target op) := by
  have hmem := hi.2 (not_lt.mp hnonneg)
  unfold Obeys
  rw [StateT.run_bind, run_targetOf hmem]
  exact ⟨⟨⟨i, hi.1, hmem, rfl⟩, hkey, hvalue⟩, fun a ha => ⟨ha, rfl⟩⟩

theorem obeys_readFromNode (hi : d.IsReplica key i) :
    d.Obeys key V U (fun found => ∀ value, found = some value → U value) (readFromNode i key) := by
  unfold readFromNode
  split
  · exact obeys_pure fun value h => by cases h
  · rename_i hnonneg
    have hask := @obeys_ask d i key V U hi hnonneg (.find key) rfl fun value h => by cases h
    have hread := hask.bind fun a ha => @obeys_pure _ d key V U
      (fun found => ∀ value, found = some value → U value) (found a) ha
    rw [bind_assoc] at hread
    exact hread

theorem obeys_writeToNode (hi : d.IsReplica key i) (hvalue : V value) (op : RemoteOp) :
    d.Obeys key V U (fun _ => True) (writeToNode i key value op) := by
  unfold writeToNode
  split
  · exact obeys_pure trivial
  · rename_i hnonneg
    have hkey : (op.storeOp key value).key = key := by
      cases op with
      | insert => rfl
      | update => rfl
    have hbrings : ∀ v, (op.storeOp key value).value = some v → V v := by
      intro v hv
      cases op with
      | insert => cases hv; exact hvalue
      | update => cases hv; exact hvalue
    have hwrite := (obeys_ask hi hnonneg hkey hbrings).bind fun _ _ =>
      @obeys_pure _ d key V U (fun _ : Unit => True) () trivial
    rw [bind_assoc] at hwrite
    exact hwrite

theorem obeys_deleteOnNode (hi : d.IsReplica key i) :
    d.Obeys key V U (fun _ => True) (deleteOnNode i key) := by
  unfold deleteOnNode
  split
  · exact obeys_pure trivial
  · rename_i hnonneg
    have hask := @obeys_ask d i key V U hi hnonneg (.delete key) rfl fun value h => by cases h
    have hdelete := hask.bind fun _ _ =>
      @obeys_pure _ d key V U (fun _ : Unit => True) () trivial
    rw [bind_assoc] at hdelete
    exact hdelete

/-- A write has no result. -/
theorem obeys_onReplicas {write : NodeId → Call Unit}
    (hwrite : ∀ i, d.IsReplica key i → d.Obeys key V U (fun _ => True) (write i))
    (hp : d.IsReplica key (d.primary key)) (hb : d.IsReplica key (d.buddy key)) :
    d.Obeys key V U (fun _ => True) (onReplicas key write) := by
  unfold onReplicas
  refine obeys_getThe ((hwrite _ hp).bind ?_)
  intro _ _
  split
  · exact obeys_pure trivial
  · exact hwrite _ hb

/-- What a call returns. -/
def Returns (U : Bytes → Prop) (result : Option Bytes) : Prop :=
  ∀ value, result = some value → value = rpcFailed ∨ U value

theorem obeys_get (hp : d.IsReplica key (d.primary key)) (hb : d.IsReplica key (d.buddy key))
    (hback : ∀ value, U value → V value) :
    d.Obeys key V U (fun value => value = rpcFailed ∨ U value) (get key) := by
  unfold get
  refine obeys_getThe ((obeys_readFromNode hp).bind ?_)
  intro found hfound
  cases found with
  | some value => exact obeys_pure (Or.inr (hfound value rfl))
  | none =>
      dsimp only
      split
      · exact obeys_pure (Or.inl rfl)
      · refine (obeys_readFromNode hb).bind ?_
        intro found hfound
        cases found with
        | some value =>
            refine (obeys_writeToNode hp (hback value (hfound value rfl)) .insert).bind ?_
            intro _ _
            exact obeys_pure (Or.inr (hfound value rfl))
        | none => exact obeys_pure (Or.inl rfl)

/-- **What a call asks, and what it returns.** -/
theorem RingOfMap.obeys_perform (hring : d.RingOfMap) (op : Op)
    (hvalue : ∀ value, op.value = some value → V value) (hback : ∀ value, U value → V value) :
    d.Obeys op.key V U (Returns U) op.perform := by
  obtain ⟨hprimary, hbuddy⟩ := hring.reachable op.key
  have hp : d.IsReplica op.key (d.primary op.key) := ⟨Or.inl rfl, hprimary⟩
  have hb : d.IsReplica op.key (d.buddy op.key) := ⟨Or.inr rfl, hbuddy⟩
  have hnone : ∀ {c : Call Unit}, d.Obeys op.key V U (fun _ => True) c →
      d.Obeys op.key V U (Returns U) (do
        c
        pure none) := by
    intro c hc
    exact hc.bind fun _ _ => obeys_pure fun value h => by cases h
  cases op with
  | insert key value =>
      exact hnone (obeys_onReplicas (fun i hi => obeys_writeToNode hi (hvalue value rfl) .insert)
        hp hb)
  | update key value =>
      exact hnone (obeys_onReplicas (fun i hi => obeys_writeToNode hi (hvalue value rfl) .update)
        hp hb)
  | deleteKey key =>
      exact hnone (obeys_onReplicas (fun i hi => obeys_deleteOnNode hi) hp hb)
  | get key =>
      refine (obeys_get hp hb hback).bind ?_
      intro value hreturned
      refine obeys_pure ?_
      intro v hv
      cases hv
      exact hreturned

end KVDistributor

end DistKV
