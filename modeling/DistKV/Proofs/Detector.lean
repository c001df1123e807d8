/-
What the failure detector says of whom.

Every entry about another server carries the reading of the clock at which the last record
about that server was taken, whichever of the three merges has taken it (`Dated`).  So as
long as the clock does not run backwards the age of an entry is the time since then, and the
subtraction in `detectFailures` never wraps.  What the detector does to one entry is a matter
of its age and the two thresholds.
-/
import DistKV.Lib.Run
import DistKV.Proofs.MergePaths
import Mathlib.Algebra.Group.Int.Defs

namespace DistKV

open MemberTable Machine

namespace GossipMembership

variable {g : GossipMembership} {self id : NodeId} {held : Stamps} {log : Hearings}
  {takes : Stamps → MemberRecord → Bool}

/-! ### Readings of the clock and records that are taken -/

/-- The readings of the clock, in their order. -/
def Action.readings : Action → List UInt64
  | .mergeView clock view => (timed clock view).map Prod.snd
  | .mergeResponse clock view => (timed clock view).map Prod.snd
  | .bootstrap clock view => (timed clock view).map Prod.snd
  | .beat now now' => [now, now']
  | .detectFailures now => [now]
  | .depart => []

/-- When failures are looked for. -/
def Action.detectsAt : Action → Option UInt64
  | .beat _ now' => some now'
  | .detectFailures now => some now
  | _ => none

/-- What is taken of a message, and when.  The merge of `start` takes everything that is not
about the server itself. -/
def hears (g : GossipMembership) : Action → Hearings
  | .mergeView clock view =>
      ((timed clock view).foldl (hear (newer g.selfNodeId)) (g.memberTable.stamps, [])).2
  | .mergeResponse clock view =>
      ((timed clock view).foldl (hear (newer g.selfNodeId)) (g.memberTable.stamps, [])).2
  | .bootstrap clock view =>
      ((timed clock view).foldl (hear fun _ r => r.nodeId ≠ g.selfNodeId)
        (g.memberTable.stamps, [])).2
  | _ => []

/-- What a server has taken in a run. -/
def hearings (g : GossipMembership) : List Action → Hearings
  | [] => []
  | a :: as => g.hears a ++ (g.perform a).hearings as

theorem hearings_snoc (g : GossipMembership) (as : List Action) (a : Action) :
    g.hearings (as ++ [a]) = g.hearings as ++ (run perform g as).hears a := by
  induction as generalizing g with
  | nil => exact List.append_nil _
  | cons b as ih =>
      show g.hears b ++ (g.perform b).hearings (as ++ [a]) = _
      rw [ih, ← List.append_assoc]
      rfl

/-! ### Entries carry the time of the last record that was taken -/

/-- Every entry about another server is dated with the last record about it. -/
structure Dated (i : NodeId) (dates : NodeId → Option UInt64) (log : Hearings) : Prop where
  heard : ∀ id date, id ≠ i → dates id = some date → (id, date) ∈ log
  last : ∀ id date τ, id ≠ i → dates id = some date → (id, τ) ∈ log → τ ≤ date

/-- When the entries of a table were heard. -/
def dates (held : Stamps) (id : NodeId) : Option UInt64 := (held id).map Prod.snd

theorem Dated.hear (takes : Stamps → MemberRecord → Bool) (h : Dated self (dates held) log)
    {e : Incoming} (hlog : ∀ x ∈ log, x.2 ≤ e.2) :
    Dated self (dates (hear takes (held, log) e).1) (hear takes (held, log) e).2 := by
  unfold GossipMembership.hear
  split
  · dsimp only
    have hdates : ∀ id, dates (Function.update held e.1.nodeId (some (e.1.version, e.2))) id =
        if id = e.1.nodeId then some e.2 else dates held id := by
      intro id
      unfold dates
      by_cases hid : id = e.1.nodeId
      · rw [if_pos hid, hid, Function.update_self, Option.map_some]
      · rw [if_neg hid, Function.update_of_ne hid]
    constructor
    · intro id date hself hdate
      rw [hdates] at hdate
      by_cases hid : id = e.1.nodeId
      · rw [if_pos hid] at hdate
        cases hdate
        rw [hid]
        exact List.mem_append_right _ List.mem_cons_self
      · rw [if_neg hid] at hdate
        exact List.mem_append_left _ (h.heard id date hself hdate)
    · intro id date τ hself hdate hmem
      rw [hdates] at hdate
      rcases List.mem_append.mp hmem with hold | hnew
      · by_cases hid : id = e.1.nodeId
        · rw [if_pos hid] at hdate
          cases hdate
          exact hlog _ hold
        · rw [if_neg hid] at hdate
          exact h.last id date τ hself hdate hold
      · have heq := List.mem_singleton.mp hnew
        rw [Prod.mk.injEq] at heq
        rw [if_pos heq.1] at hdate
        cases hdate
        exact UInt64.le_of_eq heq.2
  · exact h

/-- Whoever hears a message record by record adds to what has been taken so far. -/
theorem fold_hear_append (es : List Incoming) (held : Stamps) (log : Hearings) :
    es.foldl (hear takes) (held, log) = ((es.foldl (hear takes) (held, [])).1,
      log ++ (es.foldl (hear takes) (held, [])).2) := by
  induction es using List.reverseRecOn with
  | nil => exact Prod.ext rfl (List.append_nil log).symm
  | append_singleton es e ih =>
      rw [List.foldl_append, List.foldl_append, ih]
      show hear takes _ e = ((hear takes _ e).1, log ++ (hear takes _ e).2)
      unfold hear
      dsimp only
      split
      · rw [List.append_assoc]
      · rfl

theorem mem_fold_hear (es : List Incoming) (held : Stamps) {x : NodeId × UInt64}
    (hx : x ∈ (es.foldl (hear takes) (held, [])).2) : x.2 ∈ es.map Prod.snd := by
  induction es using List.reverseRecOn with
  | nil => cases hx
  | append_singleton es e ih =>
      rw [List.foldl_append] at hx
      rw [List.map_append]
      change x ∈ (hear takes _ e).2 at hx
      unfold hear at hx
      split at hx
      · rcases List.mem_append.mp hx with hold | hnew
        · exact List.mem_append_left _ (ih hold)
        · rw [List.mem_singleton.mp hnew]
          exact List.mem_append_right _ List.mem_cons_self
      · exact List.mem_append_left _ (ih hx)

theorem Dated.fold (h : Dated self (dates held) log) (es : List Incoming)
    (hlog : ∀ x ∈ log, ∀ τ ∈ es.map Prod.snd, x.2 ≤ τ)
    (hes : (es.map Prod.snd).Pairwise (· ≤ ·)) :
    Dated self (dates (es.foldl (GossipMembership.hear takes) (held, [])).1)
      (log ++ (es.foldl (GossipMembership.hear takes) (held, [])).2) := by
  induction es using List.reverseRecOn with
  | nil =>
      rw [List.foldl_nil, List.append_nil]
      exact h
  | append_singleton es e ih =>
      rw [List.map_append, List.pairwise_append] at hes
      rw [List.map_append] at hlog
      have hbefore := ih (fun x hx τ hτ => hlog x hx τ (List.mem_append_left _ hτ)) hes.1
      have hearlier : ∀ x ∈ log ++ (es.foldl (GossipMembership.hear takes) (held, [])).2,
          x.2 ≤ e.2 := by
        intro x hx
        rcases List.mem_append.mp hx with hold | hnew
        · exact hlog x hold e.2 (List.mem_append_right _ List.mem_cons_self)
        · exact hes.2.2 _ (mem_fold_hear es held hnew) e.2 List.mem_cons_self
      have hstep := hbefore.hear takes hearlier
      have hall : (es ++ [e]).foldl (GossipMembership.hear takes) (held, log) = _ :=
        fold_hear_append (es ++ [e]) held log
      rw [List.foldl_append, fold_hear_append es held log] at hall
      change GossipMembership.hear takes _ e = _ at hall
      rw [hall] at hstep
      exact hstep

/-! ### What is done to a server -/

theorem stamps_mergeView (clock : Nat → UInt64) (view : List MemberRecord)
    (g : GossipMembership) : (g.mergeView clock view).2.memberTable.stamps =
      ((timed clock view).foldl (hear (newer g.selfNodeId)) (g.memberTable.stamps, [])).1 := by
  have hnone : (g.memberTable, false).2 = true ↔ ([] : Hearings) ≠ [] := by simp
  have hfold := (fold_heard (mergeRecord_absorbs g.selfNodeId) (timed clock view) hnone).1
  rw [mergeView_eq, memberTable_settle]
  exact hfold.symm

theorem stamps_mergeResponse (clock : Nat → UInt64) (view : List MemberRecord)
    (g : GossipMembership) : (g.mergeResponse clock view).memberTable.stamps =
      ((timed clock view).foldl (hear (newer g.selfNodeId)) (g.memberTable.stamps, [])).1 := by
  have hnone : (g.memberTable, false).2 = true ↔ ([] : Hearings) ≠ [] := by simp
  have hfold := (fold_heard (mergeResponseRecord_absorbs g.selfNodeId) (timed clock view)
    hnone).1
  rw [mergeResponse_eq, memberTable_settle]
  exact hfold.symm

theorem stamps_bootstrap (clock : Nat → UInt64) (view : List MemberRecord)
    (g : GossipMembership) : (g.bootstrap clock view).memberTable.stamps =
      ((timed clock view).foldl (hear fun _ r => r.nodeId ≠ g.selfNodeId)
        (g.memberTable.stamps, [])).1 := by
  unfold bootstrap
  dsimp only
  induction timed clock view using List.reverseRecOn with
  | nil => rfl
  | append_singleton es e ih =>
      rw [List.foldl_append, List.foldl_append, List.foldl_cons, List.foldl_nil, List.foldl_cons,
        List.foldl_nil]
      unfold bootstrapRecord hear at ih ⊢
      dsimp only
      by_cases hself : e.1.nodeId = g.selfNodeId
      · rw [if_pos hself, if_neg (by simpa using hself), ih]
      · rw [if_neg hself, if_pos (decide_eq_true hself), stamps_put, ih]

theorem find_detectFailures_of_ne (hid : id ≠ g.selfNodeId) (now : UInt64) :
    (g.detectFailures now).memberTable.find id =
      (g.memberTable.find id).map (detect g.config now) := by
  rw [find_detectFailures]
  simp only [if_neg hid]

theorem find_beat_of_ne (hid : id ≠ g.selfNodeId) (now now' : UInt64) :
    (g.beat now now').memberTable.find id =
      (g.memberTable.find id).map (detect g.config now') := by
  unfold beat
  obtain ⟨hself, hconfig⟩ := selfNodeId_modifySelf (fun entry =>
    { record := { entry.record with heartbeatCounter := entry.record.heartbeatCounter + 1 }
      lastUpdatedMs := now }) g
  rw [find_detectFailures_of_ne (by rw [hself]; exact hid), hconfig,
    find_modifySelf_of_ne (by exact fun _ => rfl) hid]

theorem lastUpdatedMs_detect (config : GossipConfig) (now : UInt64) (entry : MemberEntry) :
    (detect config now entry).lastUpdatedMs = entry.lastUpdatedMs := by
  rcases detect_cases config now entry with hsame | ⟨status, -, hdetect⟩
  · rw [hsame]
  · rw [hdetect]

theorem dates_eq (t : MemberTable) (id : NodeId) :
    dates t.stamps id = (t.find id).map MemberEntry.lastUpdatedMs := by
  unfold dates stamps
  rw [Option.map_map]
  rfl

/-- Looking for failures dates nothing anew. -/
theorem dates_map_detect {t : MemberTable} {config : GossipConfig} {now : UInt64}
    (h : t.find id = (g.memberTable.find id).map (detect config now)) :
    dates t.stamps id = dates g.memberTable.stamps id := by
  rw [dates_eq, dates_eq, h, Option.map_map]
  exact congrArg (fun f => (g.memberTable.find id).map f)
    (funext fun entry => lastUpdatedMs_detect config now entry)

theorem Dated.congr {i : NodeId} {dates dates' : NodeId → Option UInt64} (h : Dated i dates log)
    (hsame : ∀ id, id ≠ i → dates' id = dates id) : Dated i dates' log where
  heard := fun id date hid hdate => h.heard id date hid (hsame id hid ▸ hdate)
  last := fun id date τ hid hdate => h.last id date τ hid (hsame id hid ▸ hdate)

theorem Dated.perform (h : Dated g.selfNodeId (dates g.memberTable.stamps) log) (a : Action)
    (hlog : ∀ x ∈ log, ∀ τ ∈ a.readings, x.2 ≤ τ) (ha : a.readings.Pairwise (· ≤ ·)) :
    Dated g.selfNodeId (dates (g.perform a).memberTable.stamps) (log ++ g.hears a) := by
  cases a with
  | mergeView clock view =>
      rw [show (g.perform (.mergeView clock view)).memberTable.stamps = _ from
        stamps_mergeView clock view g]
      exact h.fold (timed clock view) hlog ha
  | mergeResponse clock view =>
      rw [show (g.perform (.mergeResponse clock view)).memberTable.stamps = _ from
        stamps_mergeResponse clock view g]
      exact h.fold (timed clock view) hlog ha
  | bootstrap clock view =>
      rw [show (g.perform (.bootstrap clock view)).memberTable.stamps = _ from
        stamps_bootstrap clock view g]
      exact h.fold (timed clock view) hlog ha
  | beat now now' =>
      show Dated _ _ (log ++ [])
      rw [List.append_nil]
      exact h.congr fun id hid => dates_map_detect (find_beat_of_ne hid now now')
  | detectFailures now =>
      show Dated _ _ (log ++ [])
      rw [List.append_nil]
      exact h.congr fun id hid => dates_map_detect (find_detectFailures_of_ne hid now)
  | depart =>
      show Dated _ _ (log ++ [])
      rw [List.append_nil]
      refine h.congr fun id hid => ?_
      rw [dates_eq, dates_eq]
      exact congrArg (Option.map _) (find_modifySelf_of_ne
        (g := { g with running := false }) (fun _ => rfl) hid)

theorem mem_hears {a : Action} {x : NodeId × UInt64} (hx : x ∈ g.hears a) : x.2 ∈ a.readings := by
  cases a with
  | mergeView clock view => exact mem_fold_hear _ _ hx
  | mergeResponse clock view => exact mem_fold_hear _ _ hx
  | bootstrap clock view => exact mem_fold_hear _ _ hx
  | beat now now' => cases hx
  | detectFailures now => cases hx
  | depart => cases hx

theorem mem_hearings {as : List Action} {x : NodeId × UInt64} (hx : x ∈ g.hearings as) :
    x.2 ∈ as.flatMap Action.readings := by
  induction as generalizing g with
  | nil => cases hx
  | cons a as ih =>
      rw [List.flatMap_cons]
      rcases List.mem_append.mp hx with hfirst | hrest
      · exact List.mem_append_left _ (mem_hears hfirst)
      · exact List.mem_append_right _ (ih hrest)

theorem selfNodeId_run (g : GossipMembership) (as : List Action) :
    (run perform g as).selfNodeId = g.selfNodeId :=
  run_eq_of_step selfNodeId_perform g as

/-- **Every entry about another is dated with the last record that was taken.** -/
theorem Dated.run (h : Dated g.selfNodeId (dates g.memberTable.stamps) []) (as : List Action)
    (hclock : (as.flatMap Action.readings).Pairwise (· ≤ ·)) :
    Dated g.selfNodeId (dates (Machine.run GossipMembership.perform g as).memberTable.stamps)
      (g.hearings as) := by
  induction as using List.reverseRecOn with
  | nil => exact h
  | append_singleton as a ih =>
      rw [List.flatMap_append, List.pairwise_append] at hclock
      rw [List.flatMap_singleton] at hclock
      have hself := selfNodeId_run g as
      have hbefore := ih hclock.1
      rw [← hself] at hbefore
      rw [run_snoc, hearings_snoc, ← hself]
      exact hbefore.perform a (fun x hx τ hτ => hclock.2.2 _ (mem_hearings hx) τ hτ) hclock.2.1

/-! ### The detector -/

section Detector

variable {config : GossipConfig} {now : UInt64} {entry : MemberEntry}

/-- A threshold is an `int` that is not negative. -/
def Threshold (ms : Int) : Prop := 0 ≤ ms ∧ ms < 2 ^ 31

/-- The comparison of an age that has not wrapped. -/
theorem age_gt_iff {ms : Int} (hms : Threshold ms) {τ : UInt64} (hτ : τ ≤ now) :
    now - τ > UInt64.ofInt ms ↔ ms < now.toNat - τ.toNat := by
  have hle := UInt64.le_iff_toNat_le.mp hτ
  have hthreshold : (UInt64.ofInt ms).toNat = ms.toNat := by
    unfold UInt64.ofInt
    rw [UInt64.toNat_ofNat']
    have := hms.1
    have := hms.2
    omega
  rw [gt_iff_lt, UInt64.lt_iff_toNat_lt, UInt64.toNat_sub_of_le _ _ hτ, hthreshold]
  have := hms.1
  omega

/-- What is older than the date of an entry is over the threshold if the entry is. -/
theorem age_gt_of_le {ms : Int} (hms : Threshold ms) {last τ : UInt64} (hlast : last ≤ now)
    (hτ : τ ≤ last) (hage : now - last > UInt64.ofInt ms) : ms < now.toNat - τ.toNat := by
  have hlt := (age_gt_iff hms hlast).mp hage
  have hle := UInt64.le_iff_toNat_le.mp hτ
  omega

/-- An entry leaves `alive` only with the age for it. -/
theorem status_detect_ne_alive (halive : entry.record.status = .alive)
    (h : (detect config now entry).record.status ≠ .alive) :
    now - entry.lastUpdatedMs > UInt64.ofInt config.suspectThresholdMs := by
  by_contra hyoung
  exact h ((status_detect_eq_alive config now entry).mpr ⟨halive, hyoung⟩)

/-- An entry becomes dead only with the age for it. -/
theorem status_detect_eq_dead (h : (detect config now entry).record.status = .dead) :
    entry.record.status = .dead ∨
      now - entry.lastUpdatedMs > UInt64.ofInt config.deadThresholdMs := by
  unfold detect at h
  dsimp only at h
  by_cases hage : now - entry.lastUpdatedMs > UInt64.ofInt config.deadThresholdMs
  · exact Or.inr hage
  · left
    split at h
    · rw [if_neg fun hc => hage hc.2] at h
      cases h
    · rw [if_neg fun hc => hage hc.2] at h
      exact h

/-- An entry is left a suspect only without the age to be dead. -/
theorem status_detect_eq_suspect (h : (detect config now entry).record.status = .suspect) :
    ¬ now - entry.lastUpdatedMs > UInt64.ofInt config.deadThresholdMs := by
  unfold detect at h
  dsimp only at h
  intro hage
  split at h
  · rw [if_pos ⟨rfl, hage⟩] at h
    cases h
  · split at h
    · cases h
    · rename_i hnot
      exact hnot ⟨h, hage⟩

theorem find_perform_of_detectsAt {a : Action} (ha : a.detectsAt = some now)
    (hid : id ≠ g.selfNodeId) : (g.perform a).memberTable.find id =
      (g.memberTable.find id).map (detect g.config now) := by
  cases a with
  | beat now₀ now' =>
      cases ha
      exact find_beat_of_ne hid now₀ now
  | detectFailures now' =>
      cases ha
      exact find_detectFailures_of_ne hid now
  | _ => cases ha

theorem mem_readings_of_detectsAt {a : Action} (ha : a.detectsAt = some now) :
    now ∈ a.readings := by
  cases a with
  | beat now₀ now' =>
      cases ha
      exact List.mem_cons_of_mem _ List.mem_cons_self
  | detectFailures now' =>
      cases ha
      exact List.mem_cons_self
  | _ => cases ha

theorem config_settle (g : GossipMembership) (result : MemberTable × Bool) :
    (g.settle result).config = g.config := by
  unfold settle notifyChange
  dsimp only
  split
  · split
    · rfl
    · split
      · rfl
      · rfl
  · rfl

theorem config_perform (g : GossipMembership) (a : Action) : (g.perform a).config = g.config := by
  cases a with
  | mergeView clock view => exact config_settle g _
  | mergeResponse clock view => exact config_settle g _
  | bootstrap clock view => rfl
  | beat now now' => exact (config_settle _ _).trans (selfNodeId_modifySelf _ g).2
  | detectFailures now => exact config_settle g _
  | depart => exact (selfNodeId_modifySelf _ { g with running := false }).2

theorem config_run (g : GossipMembership) (as : List Action) :
    (run perform g as).config = g.config :=
  run_eq_of_step config_perform g as

end Detector

/-- A server that has been constructed knows nobody else. -/
theorem dated_construct (i : NodeId) (config : GossipConfig) (loaded : UInt32) (now : UInt64) :
    Dated i (dates (construct i config loaded now).memberTable.stamps) [] := by
  have hnone : ∀ id, id ≠ i →
      dates (construct i config loaded now).memberTable.stamps id = none := by
    intro id hid
    have hfind := find_construct i config loaded now id
    rw [if_neg hid] at hfind
    rw [dates_eq]
    exact congrArg (Option.map _) hfind
  constructor
  · intro id date hid hdate
    rw [hnone id hid] at hdate
    cases hdate
  · intro id date τ hid hdate
    rw [hnone id hid] at hdate
    cases hdate

/-- **The failure detector is accurate and complete.**  Take any run of a server under a clock
that does not run backwards, and any step of it that looks for failures.  Entries about others
are dated with the last record that was taken about them, which is not in the future; every entry
is kept, and leaves `alive`, or becomes `dead`, only if no record has been taken for longer than
the threshold; and no entry that is too old for its status is left with it. -/
theorem detector_accurate_and_complete (i : NodeId) (config : GossipConfig) (loaded : UInt32)
    (now₀ : UInt64) (hsuspect : Threshold config.suspectThresholdMs)
    (hdead : Threshold config.deadThresholdMs) (as : List Action)
    (hclock : (now₀ :: as.flatMap Action.readings).Pairwise (· ≤ ·))
    (pre : List Action) (a : Action) (now : UInt64) (hpre : pre ++ [a] <+: as)
    (hnow : a.detectsAt = some now) (g : GossipMembership)
    (hg : g = construct i config loaded now₀ ∨
      g = (construct i config loaded now₀).setChangeCallback) :
    (∀ id entry, id ≠ i → (run perform g pre).memberTable.find id = some entry →
      entry.lastUpdatedMs ≤ now ∧ (id, entry.lastUpdatedMs) ∈ g.hearings pre ∧
        ∀ τ, (id, τ) ∈ g.hearings pre → τ ≤ entry.lastUpdatedMs) ∧
    (∀ id entry, id ≠ i → (run perform g pre).memberTable.find id = some entry →
      ∃ entry', (run perform g (pre ++ [a])).memberTable.find id = some entry' ∧
      (entry.record.status = .alive → entry'.record.status ≠ .alive →
        ∀ τ, (id, τ) ∈ g.hearings pre → config.suspectThresholdMs < now.toNat - τ.toNat) ∧
      (entry.record.status ≠ .dead → entry'.record.status = .dead →
        ∀ τ, (id, τ) ∈ g.hearings pre → config.deadThresholdMs < now.toNat - τ.toNat)) ∧
    (∀ id entry', id ≠ i →
      (run perform g (pre ++ [a])).memberTable.find id = some entry' →
      (entry'.record.status = .alive →
        now.toNat - entry'.lastUpdatedMs.toNat ≤ config.suspectThresholdMs) ∧
      (entry'.record.status = .suspect →
        now.toNat - entry'.lastUpdatedMs.toNat ≤ config.deadThresholdMs)) := by
  have hstart : g.selfNodeId = i ∧ g.config = config ∧
      Dated g.selfNodeId (dates g.memberTable.stamps) [] := by
    rcases hg with rfl | rfl
    · exact ⟨rfl, rfl, dated_construct i config loaded now₀⟩
    · exact ⟨rfl, rfl, dated_construct i config loaded now₀⟩
  obtain ⟨rfl, hconfig, hdated⟩ := hstart
  obtain ⟨rest, rfl⟩ := hpre
  rw [List.pairwise_cons, List.flatMap_append, List.flatMap_append, List.flatMap_singleton,
    List.pairwise_append, List.pairwise_append] at hclock
  obtain ⟨-, ⟨hreadings, -, hnext⟩, -⟩ := hclock
  have hrun := hdated.run pre hreadings
  have hpast : ∀ x ∈ g.hearings pre, x.2 ≤ now := fun x hx =>
    hnext _ (mem_hearings hx) now (mem_readings_of_detectsAt hnow)
  have hentry : ∀ id entry, id ≠ g.selfNodeId →
      (run perform g pre).memberTable.find id = some entry →
      entry.lastUpdatedMs ≤ now ∧ (id, entry.lastUpdatedMs) ∈ g.hearings pre ∧
        ∀ τ, (id, τ) ∈ g.hearings pre → τ ≤ entry.lastUpdatedMs := by
    intro id entry hid hfind
    have hdate : dates (run perform g pre).memberTable.stamps id = some entry.lastUpdatedMs := by
      rw [dates_eq, hfind, Option.map_some]
    have hmem := hrun.heard id _ hid hdate
    exact ⟨hpast _ hmem, hmem, fun τ hτ => hrun.last id _ τ hid hdate hτ⟩
  have hafter : ∀ id, id ≠ g.selfNodeId → (run perform g (pre ++ [a])).memberTable.find id =
      ((run perform g pre).memberTable.find id).map (detect config now) := by
    intro id hid
    rw [run_snoc, find_perform_of_detectsAt hnow (by rw [selfNodeId_run]; exact hid), config_run,
      hconfig]
  refine ⟨hentry, fun id entry hid hfind => ?_, fun id entry' hid hfind' => ?_⟩
  · obtain ⟨hle, -, hlast⟩ := hentry id entry hid hfind
    refine ⟨detect config now entry, by rw [hafter id hid, hfind, Option.map_some], ?_, ?_⟩
    · intro halive hleft τ hτ
      exact age_gt_of_le hsuspect hle (hlast τ hτ) (status_detect_ne_alive halive hleft)
    · intro hnot hbecomes τ hτ
      have hage := (status_detect_eq_dead hbecomes).resolve_left hnot
      exact age_gt_of_le hdead hle (hlast τ hτ) hage
  · rw [hafter id hid, Option.map_eq_some_iff] at hfind'
    obtain ⟨entry, hfind, rfl⟩ := hfind'
    obtain ⟨hle, -, -⟩ := hentry id entry hid hfind
    rw [lastUpdatedMs_detect]
    constructor
    · intro halive
      have hyoung := ((status_detect_eq_alive config now entry).mp halive).2
      exact not_lt.mp fun hlt => hyoung ((age_gt_iff hsuspect hle).mpr hlt)
    · intro hleft
      have hyoung := status_detect_eq_suspect hleft
      exact not_lt.mp fun hlt => hyoung ((age_gt_iff hdead hle).mpr hlt)

/-- A server with the thresholds of `config.json` has heard of server 1 at time 5, and suspects
it at time 4000. -/
theorem detector_accurate_and_complete_one :
    ((1 : NodeId), (5 : UInt64)) ∈ (construct 0 ⟨str "a:1", [], 3000, 10000⟩ 0 0).hearings
      [.mergeView (fun _ => 5) [moving1]] ∧
    ∃ entry', (run perform (construct 0 ⟨str "a:1", [], 3000, 10000⟩ 0 0)
        [.mergeView (fun _ => 5) [moving1], .beat 4000 4000]).memberTable.find 1 = some entry' ∧
      (entry'.record.status ≠ .alive →
        (3000 : Int) < (4000 : UInt64).toNat - (5 : UInt64).toNat) := by
  have hmem : ((1 : NodeId), (5 : UInt64)) ∈ (construct 0 ⟨str "a:1", [], 3000, 10000⟩ 0
      0).hearings [.mergeView (fun _ => 5) [moving1]] := by decide
  obtain ⟨entry', hfind, halive, -⟩ := (detector_accurate_and_complete 0
    ⟨str "a:1", [], 3000, 10000⟩ 0 0 ⟨by decide, by decide⟩ ⟨by decide, by decide⟩
    [.mergeView (fun _ => 5) [moving1], .beat 4000 4000] (by decide)
    [.mergeView (fun _ => 5) [moving1]] (.beat 4000 4000) 4000 (List.prefix_refl _) rfl _
    (Or.inl rfl)).2.1 1 ⟨moving1, 5⟩ (by decide) rfl
  exact ⟨hmem, entry', hfind, fun hleft => halive rfl hleft 5 hmem⟩

end GossipMembership

end DistKV
