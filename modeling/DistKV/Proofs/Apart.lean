/-
Gets that keep apart from deletes.

If no `get` runs while its key is being deleted, then a `get` that falls back on the buddy
and finds the key there finds it at the primary, too, by the time it writes it back: what
is at the buddy is at the primary as well, unless its delete is on the way to the buddy.
So keeping the two apart is enough for replicas to agree, if writes keep their order.
-/
import DistKV.Proofs.Agreement

namespace DistKV

open Replica Machine

namespace Clients

variable {κ : Type} {D : Deployment} {V : Int} {m : NodeMap} {t : Watched κ} {i j : κ}
  {c : Conditions} {key : Key} {op : Op}

/-- No `get` and delete of one key are in progress together, and a `get` that is about to
write its key back finds it at the primary. -/
structure Apart (D : Deployment) (V : Int) (m : NodeMap) (t : Watched κ) : Prop where
  calls : ∀ i j key, t.1.calling i = some (.get key) → t.1.calling j ≠ some (.deleteKey key)
  held : ∀ i key, t.1.writingBack i = some key →
    t.1.cluster.column D key ((ringOf m V).getPrimaryNode key) ≠ none

/-- While a client reads a key, the key is at the primary if it is at the buddy. -/
theorem Apart.held_of_buddy (h : Apart D V m t) (ht : Tracked D V m t)
    (hget : t.1.calling i = some (.get key))
    (hb : t.1.cluster.column D key ((ringOf m V).getBuddyNode key) ≠ none) :
    t.1.cluster.column D key ((ringOf m V).getPrimaryNode key) ≠ none := by
  rw [ht.ahead key]
  refine carry_ne_none ?_ hb
  intro w hw hdelete
  rcases mem_onTheWay hw with ⟨e, he, hkey, hstored⟩
  rw [hdelete] at hstored
  have hcalling : t.1.calling e.1 = some e.2 := ht.calling_of_mem he
  rw [Op.eq_deleteKey hstored, hkey] at hcalling
  exact h.calls i e.1 key hget hcalling

theorem calling_of_running {s : Clients κ} {p : Prog Request Reply (Option Bytes × KVDistributor)}
    (hrun : (s.client i).running = some (op, p)) : s.calling i = some op := by
  unfold calling
  rw [hrun]
  rfl

theorem calling_of_writingBack {s : Clients κ} (h : s.writingBack i = some key) :
    s.calling i = some (.get key) := by
  unfold writingBack at h
  split at h
  · rename_i hrun
    split at h
    · cases h
      exact calling_of_running hrun
    · cases h
  · cases h

/-- Nobody writes back in a call that is a write. -/
theorem writingBack_of_storeOp {s : Clients κ}
    {p : Prog Request Reply (Option Bytes × KVDistributor)}
    (hrun : (s.client j).running = some (op, p)) {request : StoreOp}
    (hw : op.storeOp = some request) : s.writingBack j = none := by
  unfold writingBack
  rw [hrun]
  cases op with
  | insert k value => rfl
  | update k value => rfl
  | deleteKey k => rfl
  | get k => cases hw

/-- What was about to be written back is at the primary. -/
theorem Apart.revivesNothing (h : Apart D V m t) (turn : Turn κ) : RevivesNothing D V m t turn := by
  cases turn with
  | begin i op => trivial
  | advance i c => exact h.held i

theorem apart_of_quiet {s : Clients κ} (hquiet : s.Quiet) : Apart D V m (s, []) where
  calls := by
    intro i j key hget
    unfold calling at hget
    rw [hquiet i] at hget
    cases hget
  held := by
    intro i key hkey
    unfold writingBack at hkey
    rw [hquiet i] at hkey
    cases hkey

variable [DecidableEq κ]

/-- No `get` begins while a delete of its key is in progress, nor the other way round. -/
def KeepsApart (t : Watched κ) : Turn κ → Prop
  | .begin i op => t.1.calling i = none → ∀ j key,
      (op = .get key → t.1.calling j ≠ some (.deleteKey key)) ∧
        (op = .deleteKey key → t.1.calling j ≠ some (.get key))
  | .advance _ _ => True

/-! ### Who calls what -/

/-- A call in progress was in progress before, or has just begun. -/
theorem calling_step {s : Clients κ} {turn : Turn κ} (h : (s.step turn).calling j = some op) :
    s.calling j = some op ∨ s.calling j = none ∧ turn = .begin j op := by
  unfold calling at h ⊢
  cases turn with
  | begin i op' =>
      cases hrun : (s.client i).running with
      | some call =>
          simp only [step, hrun] at h
          exact Or.inl h
      | none =>
          simp only [step, hrun] at h
          by_cases hj : j = i
          · rw [hj, Function.update_self] at h
            refine Or.inr ⟨by rw [hj, hrun]; rfl, ?_⟩
            rw [hj, show op' = op from Option.some.inj h]
          · rw [Function.update_of_ne hj] at h
            exact Or.inl h
  | advance i c =>
      refine Or.inl ?_
      cases hrun : (s.client i).running with
      | none =>
          simp only [step, hrun] at h
          exact h
      | some call =>
          obtain ⟨op', p⟩ := call
          cases p with
          | done out =>
              simp only [step, hrun] at h
              by_cases hj : j = i
              · rw [hj, Function.update_self] at h
                cases h
              · rw [Function.update_of_ne hj] at h
                exact h
          | request r k =>
              simp only [step, hrun] at h
              by_cases hj : j = i
              · rw [hj, Function.update_self] at h
                rw [hj, hrun]
                exact h
              · rw [Function.update_of_ne hj] at h
                exact h

theorem watch_fst (t : Watched κ) (turn : Turn κ) : (watch t turn).1 = t.1.step turn := by
  cases turn with
  | begin i op => rfl
  | advance i c => rfl

theorem Apart.calls_turn (h : Apart D V m t) {turn : Turn κ} (hturn : KeepsApart t turn)
    (i j : κ) (key : Key) (hget : (t.1.step turn).calling i = some (.get key)) :
    (t.1.step turn).calling j ≠ some (.deleteKey key) := by
  intro hdelete
  rcases calling_step hget with hget | ⟨hnone, hbegin⟩
  · rcases calling_step hdelete with hdelete | ⟨hnone', hbegin'⟩
    · exact h.calls i j key hget hdelete
    · rw [hbegin'] at hturn
      exact (hturn hnone' i key).2 rfl hget
  · rcases calling_step hdelete with hdelete | ⟨-, hbegin'⟩
    · rw [hbegin] at hturn
      exact (hturn hnone j key).1 rfl hdelete
    · rw [hbegin] at hbegin'
      cases hbegin'

/-! ### What is at the primary -/

theorem cluster_request {s : Clients κ} {r : Request}
    {k : Reply → Prog Request Reply (Option Bytes × KVDistributor)}
    (hrun : (s.client i).running = some (op, .request r k)) :
    (s.step (.advance i c)).cluster = (s.cluster.handle c (s.client i).attached r).2 := by
  simp only [step, hrun]

/-- While a key is read nobody takes it from its primary. -/
theorem Apart.held_advance (h : Apart D V m t) (ht : Tracked D V m t)
    (hr : TwoReplicas (ringOf m V) m) (hc : c.Ample) (hd : c.Delivered)
    (hget : t.1.calling j = some (.get key))
    (hheld : t.1.cluster.column D key ((ringOf m V).getPrimaryNode key) ≠ none) :
    (t.1.step (.advance i c)).cluster.column D key ((ringOf m V).getPrimaryNode key) ≠ none := by
  cases ht.stage i with
  | idle hrun hq =>
      simp only [step, hrun]
      exact hheld
  | begun op hrun hq =>
      cases hw : op.storeOp with
      | some request =>
          rcases Op.stored_of_storeOp hw with ⟨hkey, w, hwrite, hstored⟩
          rw [ht.sharing.perform_write hr hw] at hrun
          rw [cluster_request hrun,
            ht.sharing.column_write (i := i) hc hd (hr.primary op.key) hwrite key, hkey]
          by_cases hk : key = op.key
          · subst hk
            rw [if_pos rfl, Function.update_self]
            refine Write.apply_ne_none ?_ hheld
            intro hdelete
            rw [hdelete] at hstored
            refine h.calls j i op.key hget ?_
            rw [← Op.eq_deleteKey hstored]
            exact calling_of_running hrun
          · rw [if_neg hk]
            exact hheld
      | none =>
          obtain ⟨k, rfl⟩ := Op.eq_get_of_storeOp hw
          rw [ht.sharing.perform_get hr] at hrun
          rw [cluster_request hrun, ht.sharing.handle_find (hr.primary k) k]
          exact hheld
  | replicating op request hw hrun hq =>
      rcases Op.stored_of_storeOp hw with ⟨hkey, w, hwrite, -⟩
      rw [cluster_request hrun,
        ht.sharing.column_write (i := i) hc hd (hr.buddy op.key) hwrite key, hkey]
      by_cases hk : key = op.key
      · subst hk
        rw [if_pos rfl, Function.update_of_ne (hr.distinct op.key).symm]
        exact hheld
      · rw [if_neg hk]
        exact hheld
  | fallingBack k hrun hq =>
      unfold fallback at hrun
      rw [cluster_request hrun, ht.sharing.handle_find (hr.buddy k) k]
      exact hheld
  | writingBack k value hrun hq =>
      have hk : t.1.writingBack i = some k := by
        unfold writingBack
        rw [hrun]
        rfl
      rw [cluster_request hrun,
        ht.sharing.handle_insert_present (hr.primary k) (h.held i k hk) value]
      exact hheld
  | returning op result hrun hq =>
      simp only [step, hrun]
      exact hheld

/-! ### Who is about to write back -/

/-- A turn of one client is no turn of another. -/
theorem client_step_of_ne {s : Clients κ} {turn : Turn κ}
    (h : (∃ op, turn = .begin i op) ∨ ∃ c, turn = .advance i c) (hj : j ≠ i) :
    (s.step turn).client j = s.client j := by
  rcases h with ⟨op, rfl⟩ | ⟨c, rfl⟩
  · unfold step
    dsimp only
    split
    · rfl
    · exact Function.update_of_ne hj _ _
  · unfold step
    dsimp only
    split
    · rfl
    · exact Function.update_of_ne hj _ _
    · exact Function.update_of_ne hj _ _

/-- A client that has just begun does not write back. -/
theorem writingBack_begin (ht : Tracked D V m t) (hr : TwoReplicas (ringOf m V) m)
    (h : (t.1.step (.begin j op)).writingBack j = some key) : t.1.writingBack j = some key := by
  unfold writingBack at h ⊢
  cases hrun : (t.1.client j).running with
  | some call =>
      simp only [step, hrun] at h
      exact h
  | none =>
      simp only [step, hrun, Function.update_self] at h
      cases op with
      | insert k value => cases h
      | update k value => cases h
      | deleteKey k => cases h
      | get k =>
          rw [ht.sharing.perform_get hr] at h
          cases h

theorem running_request {s : Clients κ} {r : Request}
    {k : Reply → Prog Request Reply (Option Bytes × KVDistributor)}
    (hrun : (s.client i).running = some (op, .request r k)) :
    ((s.step (.advance i c)).client i).running =
      some (op, k (s.cluster.handle c (s.client i).attached r).1) := by
  simp only [step, hrun, Function.update_self]

/-- A client that goes on and is about to write back has just found the key at the buddy. -/
theorem writingBack_advance (ht : Tracked D V m t) (hr : TwoReplicas (ringOf m V) m)
    (h : (t.1.step (.advance j c)).writingBack j = some key) :
    t.1.calling j = some (.get key) ∧
      t.1.cluster.column D key ((ringOf m V).getBuddyNode key) ≠ none ∧
      (t.1.step (.advance j c)).cluster = t.1.cluster := by
  cases ht.stage j with
  | idle hrun hq =>
      unfold writingBack at h
      simp only [step, hrun] at h
      cases h
  | begun op hrun hq =>
      cases hw : op.storeOp with
      | some request =>
          rw [ht.sharing.perform_write hr hw] at hrun
          rw [writingBack_of_storeOp (running_request hrun) hw] at h
          cases h
      | none =>
          obtain ⟨k, rfl⟩ := Op.eq_get_of_storeOp hw
          rw [ht.sharing.perform_get hr] at hrun
          unfold writingBack at h
          rw [running_request hrun] at h
          cases hfound : KVDistributor.found (t.1.cluster.handle c (t.1.client j).attached
              ((t.1.client j).dist.requestTo ((ringOf m V).getPrimaryNode k) (.find k))).1 with
          | some value =>
              rw [hfound] at h
              cases h
          | none =>
              rw [hfound] at h
              cases h
  | replicating op request hw hrun hq =>
      rw [writingBack_of_storeOp (running_request hrun) hw] at h
      cases h
  | fallingBack k hrun hq =>
      have hcalling := calling_of_running hrun
      unfold fallback at hrun
      have hcluster := cluster_request (c := c) hrun
      rw [ht.sharing.handle_find (hr.buddy k) k] at hcluster
      unfold writingBack at h
      rw [running_request hrun] at h
      cases hfound : KVDistributor.found (t.1.cluster.handle c (t.1.client j).attached
          ((t.1.client j).dist.requestTo ((ringOf m V).getBuddyNode k) (.find k))).1 with
      | some value =>
          rw [hfound] at h
          cases h
          have hbuddy := Session.column_of_found (ht.sharing.wired j)
            (ht.sharing.mem (hr.buddy key) j) ht.sharing.up hfound
          refine ⟨hcalling, ?_, hcluster⟩
          rw [hbuddy]
          exact Option.some_ne_none value
      | none =>
          rw [hfound] at h
          cases h
  | writingBack k value hrun hq =>
      unfold writingBack at h
      rw [running_request hrun] at h
      cases h
  | returning op result hrun hq =>
      unfold writingBack at h
      simp only [step, hrun, Function.update_self] at h
      cases h

/-! ### Turns -/

/-- **One turn.** -/
theorem Apart.turn (h : Apart D V m t) (ht : Tracked D V m t) (hr : TwoReplicas (ringOf m V) m)
    {turn : Turn κ} (hdelivers : Delivers t turn) (hturn : KeepsApart t turn) :
    Apart D V m (watch t turn) where
  calls := by
    rw [watch_fst]
    exact h.calls_turn hturn
  held := by
    rw [watch_fst]
    intro j key hkey
    cases turn with
    | begin i op =>
        have hcluster : (t.1.step (.begin i op)).cluster = t.1.cluster := by
          unfold step
          dsimp only
          split
          · rfl
          · rfl
        rw [hcluster]
        refine h.held j key ?_
        by_cases hj : j = i
        · subst hj
          exact writingBack_begin ht hr hkey
        · unfold writingBack at hkey
          rw [client_step_of_ne (Or.inl ⟨op, rfl⟩) hj] at hkey
          exact hkey
    | advance i c =>
        by_cases hj : j = i
        · subst hj
          rcases writingBack_advance ht hr hkey with ⟨hget, hbuddy, hcluster⟩
          rw [hcluster]
          exact h.held_of_buddy ht hget hbuddy
        · unfold writingBack at hkey
          rw [client_step_of_ne (Or.inr ⟨c, rfl⟩) hj] at hkey
          exact h.held_advance ht hr hdelivers.1 hdelivers.2 (calling_of_writingBack hkey)
            (h.held j key hkey)

/-- **Gets that keep apart from deletes revive nothing.** -/
theorem revivesNothing_of_keepsApart (hr : TwoReplicas (ringOf m V) m) {turns : List (Turn κ)}
    (ht : Tracked D V m t) (h : Apart D V m t)
    (hturns : Along watch (fun t turn =>
      Delivers t turn ∧ KeepsOrder D V m t turn ∧ KeepsApart t turn) t turns) :
    Along watch (RevivesNothing D V m) t turns := by
  induction turns generalizing t with
  | nil => trivial
  | cons turn turns ih =>
      rcases hturns with ⟨⟨hdelivers, horder, hapart⟩, hrest⟩
      have hrevives := h.revivesNothing turn
      exact ⟨hrevives, ih (ht.turn hr ⟨hdelivers, horder, hrevives⟩)
        (h.turn ht hr hdelivers hapart) hrest⟩

/-- So replicas agree whenever all is quiet, as long as writes keep their order. -/
theorem agree_of_keepsApart (hV : 1 ≤ V) (htwo : ∃ a ∈ m, ∃ b ∈ m, a ≠ b) {s : Clients κ}
    (hs : s.Sharing D V m) (hquiet : s.Quiet) (hagree : s.Agree D V m) {turns : List (Turn κ)}
    (hturns : Along watch (fun t turn =>
      Delivers t turn ∧ KeepsOrder D V m t turn ∧ KeepsApart t turn) (s, []) turns)
    (hend : (run step s turns).Quiet) : (run step s turns).Agree D V m := by
  rcases htwo with ⟨a, ha, b, hb, hab⟩
  have hr := twoReplicas hV ha hb hab
  have htracked := tracked_of_quiet hs hquiet hagree
  have hrevives := revivesNothing_of_keepsApart hr htracked (apart_of_quiet hquiet) hturns
  have hall : Along watch (fun t turn => Delivers t turn ∧ KeepsOrder D V m t turn ∧
      RevivesNothing D V m t turn) (s, []) turns :=
    (hturns.and hrevives).imp fun _ _ h => ⟨h.1.1, h.1.2.1, h.2⟩
  have hrun := run_watch (s, []) turns
  rw [← hrun] at hend ⊢
  exact (htracked.run hr hall).agree hend

end Clients

end DistKV
