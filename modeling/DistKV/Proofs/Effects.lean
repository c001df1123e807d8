/-
What the writes of concurrent clients do to the primaries.

A write reaches the primary of its key in one turn of its client, and nothing but the writes
that do changes what a primary holds.  So no write is lost there or takes effect twice, and
the writes of each client do so in the order in which it calls them.
-/
import DistKV.Proofs.Atomic

namespace DistKV

open Replica Machine

namespace Clients

variable {κ : Type} {D : Deployment} {V : Int} {m : NodeMap} {s : Clients κ} {t t' : Watched κ}
  {i : κ} {c : Conditions} {key : Key} {op : Op} {turns : List (Turn κ)} {turn : Turn κ}

/-- The write that a client is in, if it has two requests to go. -/
def unacted (client : Client) : List Op :=
  match client.running with
  | some (op, .request _ k) =>
      match op.stored, k .ack with
      | some _, .request _ _ => [op]
      | _, _ => []
  | _ => []

theorem unacted_of_done {client : Client} {out : Option Bytes × KVDistributor}
    (hrun : client.running = some (op, .done out)) : unacted client = [] := by
  unfold unacted
  rw [hrun]

theorem unacted_of_idle {client : Client} (hrun : client.running = none) :
    unacted client = [] := by
  unfold unacted
  rw [hrun]

/-- A `get` writes nothing of its own. -/
theorem unacted_of_get {client : Client} {p : Prog Request Reply (Option Bytes × KVDistributor)}
    (hrun : client.running = some (.get key, p)) : unacted client = [] := by
  unfold unacted
  rw [hrun]
  cases p with
  | done out => rfl
  | request r k => rfl

/-- A write with one request to go has acted. -/
theorem unacted_of_last {client : Client} {r : Request} {out : Option Bytes × KVDistributor}
    (hrun : client.running = some (op, .request r fun _ => .done out)) : unacted client = [] := by
  unfold unacted
  rw [hrun]
  dsimp only
  split
  · rename_i h
    cases h
  · rfl

/-- A write that has just begun has not. -/
theorem unacted_of_begun (h : Tracked D V m t) (hr : TwoReplicas (ringOf m V) m) {client : Client}
    (hdist : client.dist = (t.1.client i).dist)
    (hrun : client.running = some (op, op.perform.run client.dist)) :
    unacted client = if op.stored.isSome then [op] else [] := by
  cases hw : op.storeOp with
  | none =>
      obtain ⟨k, rfl⟩ := Op.eq_get_of_storeOp hw
      exact unacted_of_get hrun
  | some request =>
      obtain ⟨-, w, -, hstored⟩ := Op.stored_of_storeOp hw
      rw [hdist, h.sharing.perform_write hr hw] at hrun
      unfold unacted
      rw [hrun]
      simp only [hstored]
      rfl

/-! ### Writes that act -/

variable [DecidableEq κ]

/-- The writes that are on their way now and have not been before. -/
def reached (t t' : Watched κ) : List (κ × Op) := t'.2.filter fun e => e ∉ t.2

/-- The writes that reach their primary, in the order in which they do. -/
def acted (t : Watched κ) : List (Turn κ) → List (κ × Op)
  | [] => []
  | turn :: turns => reached t (watch t turn) ++ acted (watch t turn) turns

@[simp] theorem acted_cons (t : Watched κ) (turn : Turn κ) (turns : List (Turn κ)) :
    acted t (turn :: turns) = reached t (watch t turn) ++ acted (watch t turn) turns := rfl

/-- The write that client `i` begins in a turn. -/
def begins (i : κ) (s : Clients κ) : Turn κ → List Op
  | .begin j op => if j = i ∧ s.calling i = none ∧ op.stored.isSome then [op] else []
  | .advance _ _ => []

/-- The writes that client `i` begins, in the order in which it does. -/
def writesBegun (i : κ) (s : Clients κ) : List (Turn κ) → List Op
  | [] => []
  | turn :: turns => begins i s turn ++ writesBegun i (s.step turn) turns

@[simp] theorem writesBegun_cons (i : κ) (s : Clients κ) (turn : Turn κ) (turns : List (Turn κ)) :
    writesBegun i s (turn :: turns) = begins i s turn ++ writesBegun i (s.step turn) turns := rfl

/-- The writes of one client. -/
def writesOf (i : κ) (es : List (κ × Op)) : List Op := (es.filter fun e => e.1 = i).map Prod.snd

theorem writesOf_append (es es' : List (κ × Op)) :
    writesOf i (es ++ es') = writesOf i es ++ writesOf i es' := by
  simp [writesOf]

theorem reached_of_subset (h : ∀ e ∈ t'.2, e ∈ t.2) : reached t t' = [] := by
  refine List.filter_eq_nil_iff.mpr ?_
  intro e he
  simpa using h e he

theorem reached_of_snoc {e : κ × Op} (h : t'.2 = t.2 ++ [e]) (he : e ∉ t.2) :
    reached t t' = [e] := by
  unfold reached
  rw [h, List.filter_append, List.filter_eq_nil_iff.mpr fun e' he' => by simpa using he']
  simp [he]

/-! ### What becomes of the entries -/

/-- A turn changes an entry at the primary if and only if it makes a write reach it. -/
theorem reached_turn (h : Tracked D V m t) (hr : TwoReplicas (ringOf m V) m)
    (hturn : Delivers t turn ∧ KeepsOrder D V m t turn ∧ RevivesNothing D V m t turn) :
    reached t (watch t turn) = [] ∧
        (∀ key, (watch t turn).1.atPrimary D V m key = t.1.atPrimary D V m key) ∨
      ∃ i c op w, turn = .advance i c ∧ op.stored = some w ∧
        reached t (watch t turn) = [(i, op)] ∧
        ∀ key, (watch t turn).1.atPrimary D V m key =
          if op.key = key then w.apply (t.1.atPrimary D V m key) else t.1.atPrimary D V m key := by
  have hnodup := (h.turn hr hturn).nodup
  cases h.acts hr hturn.1 hturn.2.2 with
  | nothing _ hq hcluster =>
      refine Or.inl ⟨reached_of_subset fun e he => hq ▸ he, fun key => ?_⟩
      unfold atPrimary
      rw [hcluster]
  | primary i c op w hstored hq hprimary hbuddy =>
      have hnew : (i, op) ∉ t.2 := by
        rw [hq, List.map_append, List.nodup_append] at hnodup
        intro hmem
        exact hnodup.2.2 i (List.mem_map.mpr ⟨_, hmem, rfl⟩) i (by simp) rfl
      exact Or.inr ⟨i, c, op, w, rfl, hstored, reached_of_snoc hq hnew, hprimary⟩
  | buddy i c op w ws ws' hstored hq hq' hprimary hbuddy =>
      refine Or.inl ⟨reached_of_subset fun e he => ?_, hprimary⟩
      rw [hq'] at he
      rw [hq]
      exact ((List.sublist_cons_self (i, op) ws').append_left ws).subset he

theorem atPrimary_turn (h : Tracked D V m t) (hr : TwoReplicas (ringOf m V) m)
    (hturn : Delivers t turn ∧ KeepsOrder D V m t turn ∧ RevivesNothing D V m t turn) (key : Key) :
    (watch t turn).1.atPrimary D V m key =
      carry (onTheWay (reached t (watch t turn)) key) (t.1.atPrimary D V m key) := by
  rcases reached_turn h hr hturn with ⟨hnone, hsame⟩ | ⟨i, c, op, w, -, hstored, hone, hchange⟩
  · rw [hnone, hsame key]
    rfl
  · rw [hone, hchange key, onTheWay_cons hstored]
    split
    · rfl
    · rfl

theorem atPrimary_run (h : Tracked D V m t) (hr : TwoReplicas (ringOf m V) m)
    (hturns : Along watch (fun t turn =>
      Delivers t turn ∧ KeepsOrder D V m t turn ∧ RevivesNothing D V m t turn) t turns)
    (key : Key) :
    (run watch t turns).1.atPrimary D V m key =
      carry (onTheWay (acted t turns) key) (t.1.atPrimary D V m key) := by
  induction turns generalizing t with
  | nil => rfl
  | cons turn turns ih =>
      rw [run_cons, ih (h.turn hr hturns.1) hturns.2, atPrimary_turn h hr hturns.1 key]
      rw [acted_cons, onTheWay_append, carry_append]

/-! ### What becomes of the calls -/

/-- A turn of another client. -/
theorem writesOf_reached_of_ne (h : Tracked D V m t) (hr : TwoReplicas (ringOf m V) m) {j : κ}
    (hturn : Delivers t (.advance j c) ∧ KeepsOrder D V m t (.advance j c) ∧
      RevivesNothing D V m t (.advance j c)) (hj : i ≠ j) :
    writesOf i (reached t (watch t (.advance j c))) = [] := by
  rcases reached_turn h hr hturn with ⟨hnone, -⟩ | ⟨i', c', op, w, hi, -, hone, -⟩
  · rw [hnone]
    rfl
  · cases hi
    rw [hone]
    simp [writesOf, Ne.symm hj]

/-- A turn in which a client has no write to put on its way. -/
theorem unacted_quiet (hq : ∀ e ∈ t'.2, e ∈ t.2) (hbefore : unacted (t.1.client i) = [])
    (hafter : unacted (t'.1.client i) = []) :
    unacted (t.1.client i) = writesOf i (reached t t') ++ unacted (t'.1.client i) := by
  rw [reached_of_subset hq, hbefore, hafter]
  rfl

/-- A request of a `get`. -/
theorem unacted_read {r : Request} {k : Reply → Prog Request Reply (Option Bytes × KVDistributor)}
    (hrun : (t.1.client i).running = some (.get key, .request r k)) :
    unacted (t.1.client i) =
      writesOf i (reached t (watch t (.advance i c))) ++
        unacted ((watch t (.advance i c)).1.client i) := by
  refine unacted_quiet ?_ (unacted_of_get hrun) ?_
  · rw [Tracked.watch_request hrun]
    exact fun e he => List.mem_of_mem_erase he
  · rw [watch_fst]
    exact unacted_of_get (running_request hrun)

/-- The turn of the client itself. -/
theorem unacted_advance (h : Tracked D V m t) (hr : TwoReplicas (ringOf m V) m) :
    unacted (t.1.client i) =
      writesOf i (reached t (watch t (.advance i c))) ++
        unacted ((watch t (.advance i c)).1.client i) := by
  cases h.stage i with
  | idle hrun hq =>
      refine unacted_quiet ?_ (unacted_of_idle hrun) ?_
      · simp [watch, hrun]
      · rw [watch_fst]
        simp only [step, hrun]
        exact unacted_of_idle hrun
  | begun op hrun hq =>
      cases hw : op.storeOp with
      | none =>
          obtain ⟨k, rfl⟩ := Op.eq_get_of_storeOp hw
          rw [h.sharing.perform_get hr] at hrun
          exact unacted_read hrun
      | some request =>
          obtain ⟨-, w, -, hstored⟩ := Op.stored_of_storeOp hw
          have hbefore := unacted_of_begun h hr rfl hrun
          rw [h.sharing.perform_write hr hw] at hrun
          have hafter : unacted ((watch t (.advance i c)).1.client i) = [] := by
            rw [watch_fst]
            exact unacted_of_last (running_request hrun)
          have hone : reached t (watch t (.advance i c)) = [(i, op)] := by
            refine reached_of_snoc ?_ (hq op)
            rw [Tracked.watch_request hrun]
            simp only [hw]
          rw [hbefore, hafter, hone, hstored]
          simp [writesOf]
  | replicating op request hw hrun hmem =>
      refine unacted_quiet ?_ (unacted_of_last hrun) ?_
      · rw [Tracked.watch_request hrun]
        simp only [hw]
        exact fun e he => List.mem_of_mem_erase he
      · rw [watch_fst]
        exact unacted_of_done (running_request hrun)
  | fallingBack key hrun hq =>
      unfold fallback at hrun
      exact unacted_read hrun
  | writingBack key value hrun hq => exact unacted_read hrun
  | returning op result hrun hq =>
      refine unacted_quiet ?_ (unacted_of_done hrun) ?_
      · simp [watch, hrun]
      · rw [watch_fst]
        exact unacted_of_idle (by simp [step, hrun])

/-- **One turn.** -/
theorem unacted_turn (h : Tracked D V m t) (hr : TwoReplicas (ringOf m V) m)
    (hturn : Delivers t turn ∧ KeepsOrder D V m t turn ∧ RevivesNothing D V m t turn) (i : κ) :
    unacted (t.1.client i) ++ begins i t.1 turn =
      writesOf i (reached t (watch t turn)) ++ unacted ((watch t turn).1.client i) := by
  cases turn with
  | begin j op =>
      have hnone : reached t (watch t (.begin j op)) = [] := reached_of_subset fun e he => he
      rw [hnone, watch_fst]
      by_cases hj : i = j
      · subst hj
        cases hrun : (t.1.client i).running with
        | some call =>
            simp [begins, step, hrun, calling, writesOf]
        | none =>
            have hbegun : unacted ((t.1.step (.begin i op)).client i) =
                if op.stored.isSome then [op] else [] :=
              unacted_of_begun h hr (i := i) (by simp [step, hrun]) (by simp [step, hrun])
            rw [unacted_of_idle hrun, hbegun]
            simp [begins, hrun, calling, writesOf]
      · rw [client_step_of_ne (Or.inl ⟨op, rfl⟩) hj]
        simp [begins, Ne.symm hj, writesOf]
  | advance j c =>
      show unacted (t.1.client i) ++ [] = _
      rw [List.append_nil]
      by_cases hj : i = j
      · subst hj
        exact unacted_advance h hr
      · rw [writesOf_reached_of_ne h hr hturn hj, watch_fst,
          client_step_of_ne (Or.inr ⟨c, rfl⟩) hj]
        rfl

theorem unacted_run (h : Tracked D V m t) (hr : TwoReplicas (ringOf m V) m)
    (hturns : Along watch (fun t turn =>
      Delivers t turn ∧ KeepsOrder D V m t turn ∧ RevivesNothing D V m t turn) t turns) (i : κ) :
    unacted (t.1.client i) ++ writesBegun i t.1 turns =
      writesOf i (acted t turns) ++ unacted ((run watch t turns).1.client i) := by
  induction turns generalizing t with
  | nil => simp [writesBegun, acted, writesOf]
  | cons turn turns ih =>
      have hnext := ih (h.turn hr hturns.1) hturns.2
      rw [watch_fst] at hnext
      rw [writesBegun_cons, acted_cons, run_cons, writesOf_append, List.append_assoc, ← hnext,
        ← List.append_assoc, unacted_turn h hr hturns.1 i, watch_fst, List.append_assoc]

/-- **Every write acts once.**  If requests are delivered, no write overtakes another one where
that makes a difference and no `get` writes a key back to a primary that has none, then what a
primary holds is what the writes that have reached it lead to; and of the writes that a client
has begun each has reached its primary once, in their order, but for the one that it is in and
has made no request for. -/
theorem every_write_acts_once (D : Deployment) (V : Int) (hV : 1 ≤ V) (m : NodeMap)
    (htwo : ∃ a ∈ m, ∃ b ∈ m, a ≠ b) (s : Clients κ) (hs : s.Sharing D V m)
    (hquiet : s.Quiet) (hagree : s.Agree D V m) (turns : List (Turn κ))
    (hturns : Along watch (fun t turn =>
      Delivers t turn ∧ KeepsOrder D V m t turn ∧ RevivesNothing D V m t turn) (s, []) turns) :
    (∀ key, (run step s turns).atPrimary D V m key =
      carry (onTheWay (acted (s, []) turns) key) (s.atPrimary D V m key)) ∧
    ∀ i, writesBegun i s turns =
      writesOf i (acted (s, []) turns) ++ unacted ((run step s turns).client i) := by
  rcases htwo with ⟨a, ha, b, hb, hab⟩
  have hr := twoReplicas hV ha hb hab
  have htracked := tracked_of_quiet hs hquiet hagree
  have hrun : (run watch (s, []) turns).1 = run step s turns := run_watch (s, []) turns
  rw [← hrun]
  refine ⟨atPrimary_run htracked hr hturns, ?_⟩
  intro i
  have hall := unacted_run htracked hr hturns i
  rw [unacted_of_idle (hquiet i)] at hall
  exact hall

theorem every_write_acts_once_pair :
    (∀ key, (run step pair readDuringInsert).atPrimary .byLength 2
        (Deployment.byLength.mapOf [0, 1]) key =
      carry (onTheWay (acted (pair, []) readDuringInsert) key)
        (pair.atPrimary .byLength 2 (Deployment.byLength.mapOf [0, 1]) key)) ∧
    ∀ i, writesBegun i pair readDuringInsert =
      writesOf i (acted (pair, []) readDuringInsert) ++
        unacted ((run step pair readDuringInsert).client i) := by
  refine every_write_acts_once .byLength 2 (by decide) _ two_nodes pair pair_sharing
    (fun _ => rfl) pair_agree readDuringInsert ?_
  have hadvance : ∀ {t : Watched Bool} (i : Bool), t.2.length ≤ 1 → t.1.writingBack i = none →
      Delivers t (.advance i .fine) ∧
        KeepsOrder .byLength 2 (Deployment.byLength.mapOf [0, 1]) t (.advance i .fine) ∧
        RevivesNothing .byLength 2 (Deployment.byLength.mapOf [0, 1]) t (.advance i .fine) :=
    fun i hlength hnone =>
      ⟨delivers_fine i, keepsOrder_of_length hlength, revivesNothing_of_none hnone⟩
  exact ⟨⟨trivial, trivial, trivial⟩, ⟨trivial, trivial, trivial⟩,
    hadvance false (by decide +kernel) (by decide +kernel),
    hadvance true (by decide +kernel) (by decide +kernel),
    hadvance false (by decide +kernel) (by decide +kernel),
    hadvance true (by decide +kernel) (by decide +kernel),
    hadvance false (by decide +kernel) (by decide +kernel), trivial⟩

end Clients

end DistKV
