/-
What concurrent clients see of each other.

If writes keep their order on the way to the buddy, then the buddy goes through all that
the primary has been through, only later.  A `get` that misses at the primary and falls
back on the buddy may find there what has reached the primary in the meantime.  It finds
nothing older, as long as nobody deletes the key while it is running.
-/
import DistKV.Proofs.Apart

namespace DistKV

open Replica Machine

/-- What a call stores, if anything, does not read like a miss or an error. -/
def Op.Legible (op : Op) : Prop :=
  ∀ w value, op.stored = some w → w.value = some value → isMissOrError value = false

namespace Clients

variable {κ : Type} {D : Deployment} {V : Int} {m : NodeMap} {s : Clients κ} {t : Watched κ}
  {i : κ} {c : Conditions} {key : Key} {op : Op} {turns : List (Turn κ)} {turn : Turn κ}

/-- What the primary of a key has for it. -/
def atPrimary (D : Deployment) (V : Int) (m : NodeMap) (s : Clients κ) (key : Key) :
    Option Bytes :=
  s.cluster.column D key ((ringOf m V).getPrimaryNode key)

def atBuddy (D : Deployment) (V : Int) (m : NodeMap) (s : Clients κ) (key : Key) :
    Option Bytes :=
  s.cluster.column D key ((ringOf m V).getBuddyNode key)

/-- Writes of one key reach the buddy in the order in which they have reached the primary. -/
def NoOvertaking (t : Watched κ) : Turn κ → Prop
  | .begin _ _ => True
  | .advance i _ => ∀ op ws ws', t.2 = ws ++ (i, op) :: ws' → ∀ e ∈ ws, e.2.key ≠ op.key

/-- No call brings a value that reads like a miss or an error. -/
def BringsLegible (t : Watched κ) : Turn κ → Prop
  | .begin i op => t.1.calling i = none → op.Legible
  | .advance _ _ => True

theorem onTheWay_of_ne {ws : List (κ × Op)} (h : ∀ e ∈ ws, e.2.key ≠ key) :
    onTheWay ws key = [] := by
  refine List.eq_nil_iff_forall_not_mem.mpr ?_
  intro w hw
  rcases mem_onTheWay hw with ⟨e, he, hkey, -⟩
  exact h e he hkey

/-- Where nothing is overtaken, overtaking makes no difference. -/
theorem NoOvertaking.keepsOrder (h : NoOvertaking t turn) : KeepsOrder D V m t turn := by
  cases turn with
  | begin i op => trivial
  | advance i c =>
      intro op ws ws' w hq _
      rw [onTheWay_of_ne (h op ws ws' hq)]
      rfl

/-! ### What holds at any time -/

/-- Clients over replicas whose values can be told from misses and errors. -/
structure Sane (D : Deployment) (V : Int) (m : NodeMap) (t : Watched κ) : Prop where
  tracked : Tracked D V m t
  apart : Apart D V m t
  calls : ∀ i op, t.1.calling i = some op → op.Legible
  buddy : ∀ key value, t.1.atBuddy D V m key = some value → isMissOrError value = false

/-- What a read by a client finds at a node of the map. -/
theorem Sharing.found_eq (hs : s.Sharing D V m) (hd : c.Delivered) {n : NodeId} (hn : n ∈ m)
    (hlegible : ∀ value, s.cluster.column D key n = some value → isMissOrError value = false) :
    KVDistributor.found (s.cluster.handle c (s.client i).attached
      ((s.client i).dist.requestTo n (.find key))).1 = s.cluster.column D key n := by
  refine (Session.found_handle_any (hs.wired i) (hs.mem hn i) hs.up).trans ?_
  rw [if_pos (hd.answers _)]
  exact Session.readAs_of_not_isMissOrError hlegible

namespace Sane

theorem legible (h : Sane D V m t) {w : Write Bytes} (hw : w ∈ onTheWay t.2 key) (value : Bytes)
    (hvalue : w.value = some value) : isMissOrError value = false := by
  rcases mem_onTheWay hw with ⟨e, he, -, hstored⟩
  exact h.calls e.1 e.2 (h.tracked.calling_of_mem he) w value hstored hvalue

theorem primary (h : Sane D V m t) (key : Key) :
    ∀ value, t.1.atPrimary D V m key = some value → isMissOrError value = false := by
  unfold atPrimary
  rw [h.tracked.ahead key]
  exact carry_induction (h.buddy key) fun w hw => h.legible hw

/-- While a client reads a key, no delete of it is on its way. -/
theorem no_delete (h : Sane D V m t) (hget : t.1.calling i = some (.get key)) :
    ∀ w ∈ onTheWay t.2 key, w ≠ .delete := by
  intro w hw hdelete
  rcases mem_onTheWay hw with ⟨e, he, hkey, hstored⟩
  rw [hdelete] at hstored
  refine h.apart.calls i e.1 key hget ?_
  rw [← hkey, ← Op.eq_deleteKey hstored]
  exact h.tracked.calling_of_mem he

end Sane

theorem sane_of_quiet (hs : s.Sharing D V m) (hquiet : s.Quiet) (hagree : s.Agree D V m)
    (hlegible : ∀ key value, s.atBuddy D V m key = some value → isMissOrError value = false) :
    Sane D V m (s, []) where
  tracked := tracked_of_quiet hs hquiet hagree
  apart := apart_of_quiet hquiet
  calls := by
    intro i op hcalling
    unfold calling at hcalling
    rw [hquiet i] at hcalling
    cases hcalling
  buddy := hlegible

variable [DecidableEq κ]

/-- A turn with every request delivered, where writes keep their order, gets keep apart from
deletes, and values can be told from misses and errors. -/
structure Steady (t : Watched κ) (turn : Turn κ) : Prop where
  delivers : Delivers t turn
  inOrder : NoOvertaking t turn
  apart : KeepsApart t turn
  legible : BringsLegible t turn

/-! ### What a turn does -/

/-- What a turn does to the entries, and to the writes on their way: nothing, or it carries
out a write at the primary, or at the buddy. -/
inductive Acts (D : Deployment) (V : Int) (m : NodeMap) (t t' : Watched κ) : Turn κ → Prop
  | nothing (turn : Turn κ) (hq : t'.2 = t.2) (hcluster : t'.1.cluster = t.1.cluster) :
      Acts D V m t t' turn
  | primary (i : κ) (c : Conditions) (op : Op) (w : Write Bytes) (hstored : op.stored = some w)
      (hq : t'.2 = t.2 ++ [(i, op)])
      (hprimary : ∀ key, t'.1.atPrimary D V m key =
        if op.key = key then w.apply (t.1.atPrimary D V m key) else t.1.atPrimary D V m key)
      (hbuddy : ∀ key, t'.1.atBuddy D V m key = t.1.atBuddy D V m key) :
      Acts D V m t t' (.advance i c)
  | buddy (i : κ) (c : Conditions) (op : Op) (w : Write Bytes) (ws ws' : List (κ × Op))
      (hstored : op.stored = some w) (hq : t.2 = ws ++ (i, op) :: ws') (hq' : t'.2 = ws ++ ws')
      (hprimary : ∀ key, t'.1.atPrimary D V m key = t.1.atPrimary D V m key)
      (hbuddy : ∀ key, t'.1.atBuddy D V m key =
        if op.key = key then w.apply (t.1.atBuddy D V m key) else t.1.atBuddy D V m key) :
      Acts D V m t t' (.advance i c)

namespace Tracked

/-- A request of a `get` that changes no server. -/
theorem acts_read (hq : ∀ op, (i, op) ∉ t.2) {r : Request}
    {k : Reply → Prog Request Reply (Option Bytes × KVDistributor)}
    (hrun : (t.1.client i).running = some (.get key, .request r k))
    (hcluster : (t.1.cluster.handle c (t.1.client i).attached r).2 = t.1.cluster) :
    Acts D V m t (watch t (.advance i c)) (.advance i c) := by
  refine .nothing _ ?_ ?_
  · rw [watch_request hrun]
    exact List.erase_of_not_mem (hq (.get key))
  · rw [watch_request hrun]
    exact hcluster

/-- The first request of a write. -/
theorem acts_primary (h : Tracked D V m t) (hr : TwoReplicas (ringOf m V) m) (hc : c.Ample)
    (hd : c.Delivered) {request : StoreOp} (hw : op.storeOp = some request)
    (hrun : (t.1.client i).running = some (op, op.perform.run (t.1.client i).dist)) :
    Acts D V m t (watch t (.advance i c)) (.advance i c) := by
  rcases Op.stored_of_storeOp hw with ⟨hkey, w, hwrite, hstored⟩
  have hcol := h.sharing.column_write (i := i) hc hd (hr.primary op.key) hwrite
  rw [hkey] at hcol
  rw [h.sharing.perform_write hr hw] at hrun
  refine .primary i c op w hstored ?_ ?_ ?_
  · rw [watch_request hrun]
    simp only [hw]
  · intro key
    rw [watch_request hrun]
    unfold atPrimary
    rw [hcol key]
    by_cases hk : key = op.key
    · rw [if_pos hk, if_pos hk.symm, hk, Function.update_self]
    · rw [if_neg hk, if_neg fun he => hk he.symm]
  · intro key
    rw [watch_request hrun]
    unfold atBuddy
    rw [hcol key]
    by_cases hk : key = op.key
    · rw [if_pos hk, hk, Function.update_of_ne (hr.distinct op.key)]
    · rw [if_neg hk]

/-- The second request of a write. -/
theorem acts_buddy (h : Tracked D V m t) (hr : TwoReplicas (ringOf m V) m) (hc : c.Ample)
    (hd : c.Delivered) {request : StoreOp} (hw : op.storeOp = some request)
    (hrun : (t.1.client i).running = some (op, .request ((t.1.client i).dist.requestTo
      ((ringOf m V).getBuddyNode op.key) request) fun _ => .done (none, (t.1.client i).dist)))
    (hmem : (i, op) ∈ t.2) : Acts D V m t (watch t (.advance i c)) (.advance i c) := by
  rcases Op.stored_of_storeOp hw with ⟨hkey, w, hwrite, hstored⟩
  have hcol := h.sharing.column_write (i := i) hc hd (hr.buddy op.key) hwrite
  rw [hkey] at hcol
  rcases List.append_of_mem hmem with ⟨ws, ws', hq⟩
  have hnot : (i, op) ∉ ws := by
    intro hin
    have hnodup := h.nodup
    rw [hq, List.map_append, List.nodup_append] at hnodup
    exact hnodup.2.2 i (List.mem_map.mpr ⟨_, hin, rfl⟩) i (by simp) rfl
  refine .buddy i c op w ws ws' hstored hq ?_ ?_ ?_
  · rw [watch_request hrun]
    simp only [hw]
    rw [hq, List.erase_append_right _ hnot, List.erase_cons_head]
  · intro key
    rw [watch_request hrun]
    unfold atPrimary
    rw [hcol key]
    by_cases hk : key = op.key
    · rw [if_pos hk, hk, Function.update_of_ne (hr.distinct op.key).symm]
    · rw [if_neg hk]
  · intro key
    rw [watch_request hrun]
    unfold atBuddy
    rw [hcol key]
    by_cases hk : key = op.key
    · rw [if_pos hk, if_pos hk.symm, hk, Function.update_self]
    · rw [if_neg hk, if_neg fun he => hk he.symm]

/-- **What a turn can do.** -/
theorem acts (h : Tracked D V m t) (hr : TwoReplicas (ringOf m V) m) (hdelivers : Delivers t turn)
    (hrevives : RevivesNothing D V m t turn) : Acts D V m t (watch t turn) turn := by
  cases turn with
  | begin i op =>
      refine .nothing _ rfl ?_
      unfold watch step
      dsimp only
      split
      · rfl
      · rfl
  | advance i c =>
      rcases hdelivers with ⟨hc, hd⟩
      cases h.stage i with
      | idle hrun hq =>
          have hsame : watch t (.advance i c) = t := by
            unfold watch step
            simp only [hrun]
          rw [hsame]
          exact .nothing _ rfl rfl
      | begun op hrun hq =>
          cases hw : op.storeOp with
          | some request => exact h.acts_primary hr hc hd hw hrun
          | none =>
              obtain ⟨k, rfl⟩ := Op.eq_get_of_storeOp hw
              rw [h.sharing.perform_get hr] at hrun
              exact acts_read hq hrun (h.sharing.handle_find (hr.primary k) k)
      | replicating op request hw hrun hmem => exact h.acts_buddy hr hc hd hw hrun hmem
      | fallingBack k hrun hq =>
          unfold fallback at hrun
          exact acts_read hq hrun (h.sharing.handle_find (hr.buddy k) k)
      | writingBack k value hrun hq =>
          refine acts_read hq hrun (h.sharing.handle_insert_present (hr.primary k) ?_ value)
          refine hrevives k ?_
          unfold writingBack
          rw [hrun]
          rfl
      | returning op result hrun hq =>
          refine .nothing _ ?_ ?_
          · simp only [watch, hrun]
          · simp only [watch, step, hrun]

/-- The buddy lags behind the primary. -/
theorem lag (h : Tracked D V m t) (hr : TwoReplicas (ringOf m V) m) (hdelivers : Delivers t turn)
    (horder : NoOvertaking t turn) (hrevives : RevivesNothing D V m t turn) (key : Key) :
    Lag (onTheWay t.2 key) (t.1.atBuddy D V m key)
      (onTheWay (watch t turn).2 key) ((watch t turn).1.atBuddy D V m key) := by
  cases h.acts hr hdelivers hrevives with
  | nothing _ hq hcluster =>
      unfold atBuddy
      rw [hq, hcluster]
      exact .stay _ _
  | primary i c op w hstored hq hprimary hbuddy =>
      rw [hq, hbuddy key, onTheWay_append, onTheWay_cons hstored]
      by_cases hk : op.key = key
      · rw [if_pos hk]
        exact .send _ _ w
      · rw [if_neg hk, show onTheWay ([] : List (κ × Op)) key = [] from rfl, List.append_nil]
        exact .stay _ _
  | buddy i c op w ws ws' hstored hq hq' hprimary hbuddy =>
      have hfirst := horder op ws ws' hq
      rw [hq, hq', hbuddy key, onTheWay_append, onTheWay_append, onTheWay_cons hstored]
      by_cases hk : op.key = key
      · rw [if_pos hk, if_pos hk, onTheWay_of_ne fun e he => hk ▸ hfirst e he]
        exact .arrive _ _ w
      · rw [if_neg hk, if_neg hk]
        exact .stay _ _

end Tracked

namespace Sane

theorem lag (h : Sane D V m t) (hr : TwoReplicas (ringOf m V) m) (hturn : Steady t turn)
    (key : Key) :
    Lag (Clients.onTheWay t.2 key) (t.1.atBuddy D V m key)
      (Clients.onTheWay (watch t turn).2 key) ((watch t turn).1.atBuddy D V m key) :=
  h.tracked.lag hr hturn.delivers hturn.inOrder (h.apart.revivesNothing turn) key

/-- **One turn.** -/
theorem next (h : Sane D V m t) (hr : TwoReplicas (ringOf m V) m) (hturn : Steady t turn) :
    Sane D V m (watch t turn) where
  tracked := h.tracked.turn hr
    ⟨hturn.delivers, hturn.inOrder.keepsOrder, h.apart.revivesNothing turn⟩
  apart := h.apart.turn h.tracked hr hturn.delivers hturn.apart
  calls := by
    intro i op hcalling
    rw [watch_fst] at hcalling
    rcases calling_step hcalling with hold | ⟨hnone, hbegin⟩
    · exact h.calls i op hold
    · have hlegible := hturn.legible
      rw [hbegin] at hlegible
      exact hlegible hnone
  buddy := by
    intro key value hvalue
    have hlag := h.lag hr hturn key
    generalize Clients.onTheWay (watch t turn).2 key = q' at hlag
    generalize hb : (watch t turn).1.atBuddy D V m key = b' at hlag hvalue
    generalize hq : Clients.onTheWay t.2 key = q at hlag
    generalize hbuddy : t.1.atBuddy D V m key = b at hlag
    cases hlag with
    | stay => exact h.buddy key value (hbuddy.trans hvalue)
    | send w => exact h.buddy key value (hbuddy.trans hvalue)
    | arrive w =>
        rcases Write.apply_eq_some hvalue with hold | hnew
        · exact h.buddy key value (hbuddy.trans hold)
        · exact h.legible (hq ▸ List.mem_cons_self) value hnew

end Sane

/-! ### What a `get` returns -/

/-- At some moment since client `i` has begun the call it is in, the primary of the key has
had `x` for it. -/
def Since (D : Deployment) (V : Int) (m : NodeMap) (s : Clients κ) (turns : List (Turn κ))
    (i : κ) (op : Op) (key : Key) (x : Option Bytes) : Prop :=
  ∃ pre, pre <+: turns ∧ (run step s pre).atPrimary D V m key = x ∧
    ∀ past, pre <+: past → past <+: turns → (run step s past).calling i = some op

theorem since_now (h : (run step s turns).calling i = some op) :
    Since D V m s turns i op key ((run step s turns).atPrimary D V m key) := by
  refine ⟨turns, List.prefix_refl turns, rfl, ?_⟩
  intro past hpre hpast
  rw [hpast.eq_of_length_le hpre.length_le]
  exact h

theorem Since.snoc {x : Option Bytes} (h : Since D V m s turns i op key x)
    (hcalling : (run step s (turns ++ [turn])).calling i = some op) :
    Since D V m s (turns ++ [turn]) i op key x := by
  obtain ⟨pre, hpre, hx, hpast⟩ := h
  refine ⟨pre, hpre.trans (List.prefix_append turns [turn]), hx, ?_⟩
  intro past hle hprefix
  rcases List.prefix_concat_iff.mp hprefix with heq | hshort
  · rw [heq]
    exact hcalling
  · exact hpast past hle hshort

/-- How far a `get` has got, if `Held` says what the primary has held meanwhile. -/
inductive Answering (D : Deployment) (V : Int) (m : NodeMap) (Held : Option Bytes → Prop)
    (t : Watched κ) (i : κ) (key : Key) (p : Prog Request Reply (Option Bytes × KVDistributor)) :
    Prop where
  | begun (hp : p = (Op.get key).perform.run (t.1.client i).dist)
  | fallingBack (hp : p = fallback (t.1.client i).dist key ((ringOf m V).getPrimaryNode key)
        ((ringOf m V).getBuddyNode key))
      (htrail : Trail Held (onTheWay t.2 key) (t.1.atBuddy D V m key))
  | answered (hp : p.Ends fun out => ∃ x, Held x ∧ out.1 = some (x.getD rpcFailed))

variable {Held Held' : Option Bytes → Prop} {p : Prog Request Reply (Option Bytes × KVDistributor)}

/-- Whatever others do in the meantime. -/
theorem Answering.wait (h : Answering D V m Held t i key p) (hs : Sane D V m t)
    (hr : TwoReplicas (ringOf m V) m) (hturn : Steady t turn)
    (hsame : (watch t turn).1.client i = t.1.client i) (hheld : ∀ x, Held x → Held' x)
    (hnow : Held' ((watch t turn).1.atPrimary D V m key)) :
    Answering D V m Held' (watch t turn) i key p := by
  cases h with
  | begun hp =>
      refine .begun ?_
      rw [hsame]
      exact hp
  | fallingBack hp htrail =>
      refine .fallingBack ?_ ((htrail.mono hheld).step (hs.lag hr hturn key) ?_)
      · rw [hsame]
        exact hp
      · have hahead := (hs.next hr hturn).tracked.ahead key
        exact hahead ▸ hnow
  | answered hp =>
      refine .answered (hp.mono ?_)
      rintro out ⟨x, hx, hout⟩
      exact ⟨x, hheld x hx, hout⟩

/-- What is left of a call after a turn was left of it before. -/
theorem running_advance (h : ((s.step (.advance i c)).client i).running = some (op, p)) :
    ∃ r k, (s.client i).running = some (op, .request r k) ∧
      p = k (s.cluster.handle c (s.client i).attached r).1 := by
  rcases hrun : (s.client i).running with _ | ⟨op', p'⟩
  · simp only [step, hrun] at h
    cases h
  · cases p' with
    | done out =>
        simp only [step, hrun, Function.update_self] at h
        cases h
    | request r k =>
        rw [running_request hrun] at h
        cases h
        exact ⟨r, k, rfl, rfl⟩

/-- The turn of the client itself. -/
theorem Answering.advance {r : Request}
    {k : Reply → Prog Request Reply (Option Bytes × KVDistributor)}
    (h : Answering D V m Held t i key (.request r k)) (hs : Sane D V m t)
    (hr : TwoReplicas (ringOf m V) m) (hturn : Steady t (.advance i c))
    (hrun : (t.1.client i).running = some (.get key, .request r k))
    (hheld : ∀ x, Held x → Held' x) (hnow : Held' (t.1.atPrimary D V m key)) :
    Answering D V m Held' (watch t (.advance i c)) i key
      (k (t.1.cluster.handle c (t.1.client i).attached r).1) := by
  have hsharing := hs.tracked.sharing
  have hd := hturn.delivers.2
  cases h with
  | begun hp =>
      rw [hsharing.perform_get hr] at hp
      cases hp
      have hfound := hsharing.found_eq (i := i) hd (hr.primary key) (hs.primary key)
      dsimp only
      rw [hfound]
      cases hx : t.1.cluster.column D key ((ringOf m V).getPrimaryNode key) with
      | some value => exact .answered ⟨some value, hx ▸ hnow, rfl⟩
      | none =>
          have hheldNone : Held' none := hx ▸ hnow
          have hnone : carry (onTheWay t.2 key) (t.1.atBuddy D V m key) = none :=
            (hs.tracked.ahead key).symm.trans hx
          have hafter : (watch t (.advance i c)).1.atPrimary D V m key = none := by
            unfold atPrimary
            rw [watch_fst, cluster_request hrun, hsharing.handle_find (hr.primary key) key]
            exact hx
          have hcarry : carry (onTheWay (watch t (.advance i c)).2 key)
              ((watch t (.advance i c)).1.atBuddy D V m key) = none :=
            ((hs.next hr hturn).tracked.ahead key).symm.trans hafter
          have htrail : Trail Held' (onTheWay t.2 key) (t.1.atBuddy D V m key) :=
            trail_of_none (hs.no_delete (calling_of_running hrun)) hnone hheldNone
          refine .fallingBack ?_ (htrail.step (hs.lag hr hturn key) ?_)
          · rw [watch_fst]
            simp only [step, hrun, Function.update_self]
          · rw [hcarry]
            exact hheldNone
  | fallingBack hp htrail =>
      unfold fallback at hp
      cases hp
      have hfound := hsharing.found_eq (i := i) hd (hr.buddy key) (hs.buddy key)
      have hbuddy : Held' (t.1.cluster.column D key ((ringOf m V).getBuddyNode key)) :=
        hheld _ htrail.replica
      dsimp only
      rw [hfound]
      cases hx : t.1.cluster.column D key ((ringOf m V).getBuddyNode key) with
      | some value =>
          rw [hx] at hbuddy
          exact .answered fun _ => ⟨some value, hbuddy, rfl⟩
      | none =>
          rw [hx] at hbuddy
          exact .answered ⟨none, hbuddy, rfl⟩
  | answered hp =>
      refine .answered ((hp _).mono ?_)
      rintro out ⟨x, hx, hout⟩
      exact ⟨x, hheld x hx, hout⟩

theorem sane_of_run (hr : TwoReplicas (ringOf m V) m) (hs : Sane D V m t)
    (hturns : Along watch Steady t turns) : Sane D V m (run watch t turns) :=
  hturns.invariant hs fun _ _ h hturn => h.next hr hturn

/-- A `get` in progress is answering. -/
theorem answering_of_run (hr : TwoReplicas (ringOf m V) m) (hs : Sane D V m (s, []))
    (hquiet : s.Quiet) (hturns : Along watch Steady (s, []) turns) :
    ∀ i key p, ((run watch (s, []) turns).1.client i).running = some (.get key, p) →
      Answering D V m (Since D V m s turns i (.get key) key) (run watch (s, []) turns) i key p := by
  refine hturns.induction (P := fun turns t => ∀ i key p,
    (t.1.client i).running = some (.get key, p) →
      Answering D V m (Since D V m s turns i (.get key) key) t i key p) ?_ ?_
  · intro i key p hrun
    cases (hquiet i).symm.trans hrun
  · intro turns turn hbefore ih hturn i key p hrun
    have hsane := sane_of_run hr hs hbefore
    have hfst : run step s turns = (run watch (s, []) turns).1 := (run_watch (s, []) turns).symm
    have hfst' : run step s (turns ++ [turn]) = (watch (run watch (s, []) turns) turn).1 := by
      rw [run_snoc, hfst, watch_fst]
    have hcalling : (run step s (turns ++ [turn])).calling i = some (.get key) := by
      rw [hfst']
      exact calling_of_running hrun
    have hnow : Since D V m s (turns ++ [turn]) i (.get key) key
        ((run step s (turns ++ [turn])).atPrimary D V m key) := since_now hcalling
    rw [hfst'] at hnow
    have hheld : ∀ x, Since D V m s turns i (.get key) key x →
        Since D V m s (turns ++ [turn]) i (.get key) key x := fun _ h => h.snoc hcalling
    generalize run watch (s, []) turns = t at *
    have hwait : (watch t turn).1.client i = t.1.client i →
        Answering D V m (Since D V m s (turns ++ [turn]) i (.get key) key) (watch t turn) i key p :=
      fun hsame => (ih i key p (hsame ▸ hrun)).wait hsane hr hturn hsame hheld hnow
    cases turn with
    | begin j op =>
        by_cases hij : i = j
        · subst hij
          cases hidle : (t.1.client i).running with
          | some call =>
              refine hwait ?_
              rw [watch_fst]
              simp only [step, hidle]
          | none =>
              rw [watch_fst] at hrun
              simp only [step, hidle, Function.update_self] at hrun
              cases hrun
              refine .begun ?_
              rw [watch_fst]
              simp only [step, hidle, Function.update_self]
        · exact hwait (by rw [watch_fst]; exact client_step_of_ne (Or.inl ⟨op, rfl⟩) hij)
    | advance j c =>
        by_cases hij : i = j
        · subst hij
          rw [watch_fst] at hrun
          obtain ⟨r, k, hbefore, rfl⟩ := running_advance hrun
          have hcalled : (run step s turns).calling i = some (.get key) := by
            rw [hfst]
            exact calling_of_running hbefore
          have hprimary := hheld _ (since_now hcalled)
          rw [hfst] at hprimary
          exact (ih i key _ hbefore).advance hsane hr hturn hbefore hheld hprimary
        · exact hwait (by rw [watch_fst]; exact client_step_of_ne (Or.inr ⟨c, rfl⟩) hij)

/-- **A `get` is atomic.** -/
theorem get_is_atomic (D : Deployment) (V : Int) (hV : 1 ≤ V) (m : NodeMap)
    (htwo : ∃ a ∈ m, ∃ b ∈ m, a ≠ b) (s : Clients κ) (hs : s.Sharing D V m)
    (hquiet : s.Quiet) (hagree : s.Agree D V m)
    (hlegible : ∀ key value, s.atBuddy D V m key = some value → isMissOrError value = false)
    (turns : List (Turn κ)) (hturns : Along watch Steady (s, []) turns) (i : κ) (key : Key)
    (result : Option Bytes) (dist : KVDistributor)
    (hreturn : ((run step s turns).client i).running = some (.get key, .done (result, dist))) :
    ∃ x, Since D V m s turns i (.get key) key x ∧ result = some (x.getD rpcFailed) := by
  rcases htwo with ⟨a, ha, b, hb, hab⟩
  have hr := twoReplicas hV ha hb hab
  have hsane := sane_of_quiet hs hquiet hagree hlegible
  have hsharing := (sane_of_run hr hsane hturns).tracked.sharing
  rw [← run_watch (s, []) turns] at hreturn
  cases answering_of_run hr hsane hquiet hturns i key _ hreturn with
  | begun hp =>
      rw [hsharing.perform_get hr] at hp
      cases hp
  | fallingBack hp htrail =>
      unfold fallback at hp
      cases hp
  | answered hp => exact hp

/-- A client reads key 2 at the primary before another inserts it, and at the buddy after. -/
def readAcrossInsert : List (Turn Bool) :=
  [.begin false (.insert 2 (str "v")), .begin true (.get 2), .advance true .fine,
   .advance false .fine, .advance false .fine, .advance true .fine, .advance true .fine]

theorem steady_fine {t : Watched Bool} (i : Bool) (h : t.2.length ≤ 1) :
    Steady t (.advance i .fine) where
  delivers := delivers_fine i
  inOrder := by
    intro op ws ws' hq e he
    rw [hq] at h
    cases ws with
    | nil => cases he
    | cons e' ws => simp at h
  apart := trivial
  legible := trivial

/-- The `get` returns what the primary has held meanwhile. -/
theorem get_is_atomic_pair : ∃ x,
    Since .byLength 2 (Deployment.byLength.mapOf [0, 1]) pair readAcrossInsert true (.get 2) 2 x ∧
      some (str "v") = some (x.getD rpcFailed) := by
  refine get_is_atomic .byLength 2 (by decide) _ two_nodes pair pair_sharing (fun _ => rfl)
    pair_agree ?_ readAcrossInsert ?_ true 2 _ (pair.client true).dist ?_
  · intro key value hvalue
    cases (Server.contents_fresh key).symm.trans hvalue
  · refine ⟨⟨trivial, trivial, ?_, ?_⟩, ⟨trivial, trivial, ?_, ?_⟩,
      steady_fine true (by decide +kernel),
      steady_fine false (by decide +kernel), steady_fine false (by decide +kernel),
      steady_fine true (by decide +kernel), steady_fine true (by decide +kernel), trivial⟩
    · intro _ j key
      exact ⟨nofun, nofun⟩
    · intro _ w value hw hvalue
      cases hw
      cases hvalue
      decide
    · intro _ j key
      refine ⟨fun h => ?_, nofun⟩
      cases h
      cases j with
      | false => decide +kernel
      | true => decide +kernel
    · intro _ w value hw hvalue
      cases hw
  · rfl

end Clients

end DistKV
