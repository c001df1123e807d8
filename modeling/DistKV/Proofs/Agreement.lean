/-
Replicas of concurrent clients agree when all is quiet.

Under two conditions on the turns: a write must not overtake, on its way to the buddy,
another write of the key where that makes a difference, and a `get` must not write a key
back to a primary that has none.  Without either condition there are runs of two clients,
with every request delivered, after which the replicas disagree for good.
-/
import DistKV.Proofs.Clients

namespace DistKV

open Replica Machine

namespace Clients

variable {κ : Type} {D : Deployment} {V : Int} {m : NodeMap} {s : Clients κ} {t : Watched κ}

/-- Clients that have not begun, over replicas that agree. -/
theorem tracked_of_quiet (hs : s.Sharing D V m) (hquiet : s.Quiet) (hagree : s.Agree D V m) :
    Tracked D V m (s, []) where
  sharing := hs
  stage := fun i => .idle (hquiet i) (by simp)
  nodup := List.nodup_nil
  ahead := hagree

/-- Once no call is in progress nothing is on its way. -/
theorem Tracked.agree (h : Tracked D V m t) (hquiet : t.1.Quiet) : t.1.Agree D V m := by
  have hq : t.2 = [] := by
    refine List.eq_nil_iff_forall_not_mem.mpr ?_
    rintro ⟨i, op⟩ hmem
    exact h.not_mem_of_idle (hquiet i) op hmem
  intro key
  rw [h.ahead key, hq]
  rfl

/-- A single write on its way overtakes nothing. -/
theorem keepsOrder_of_length {turn : Turn κ} (h : t.2.length ≤ 1) : KeepsOrder D V m t turn := by
  cases turn with
  | begin i op => trivial
  | advance i c =>
      intro op ws ws' w hq _
      rw [hq] at h
      cases ws with
      | nil => rfl
      | cons e ws => simp at h

/-- Where nothing is written back nothing is revived. -/
theorem revivesNothing_of_none {i : κ} {c : Conditions} (h : t.1.writingBack i = none) :
    RevivesNothing D V m t (.advance i c) := by
  intro key hkey
  rw [h] at hkey
  cases hkey

variable [DecidableEq κ]

theorem Tracked.run (h : Tracked D V m t) (hr : TwoReplicas (ringOf m V) m)
    {turns : List (Turn κ)} (hturns : Along watch (fun t turn =>
      Delivers t turn ∧ KeepsOrder D V m t turn ∧ RevivesNothing D V m t turn) t turns) :
    Tracked D V m (Machine.run watch t turns) :=
  hturns.invariant h fun _ _ ht hturn => ht.turn hr hturn

/-- **Concurrent clients.**  However the clients take turns, if every request is delivered,
no write overtakes another on its way to the buddy where that makes a difference, and no
`get` writes a key back to a primary that has none, then the replicas of every key agree
whenever no call is in progress. -/
theorem quiet_replicas_agree (D : Deployment) (V : Int) (hV : 1 ≤ V) (m : NodeMap)
    (htwo : ∃ a ∈ m, ∃ b ∈ m, a ≠ b) (s : Clients κ) (hs : s.Sharing D V m)
    (hquiet : s.Quiet) (hagree : s.Agree D V m) (turns : List (Turn κ))
    (hturns : Along watch (fun t turn =>
      Delivers t turn ∧ KeepsOrder D V m t turn ∧ RevivesNothing D V m t turn) (s, []) turns)
    (hend : (run step s turns).Quiet) : (run step s turns).Agree D V m := by
  rcases htwo with ⟨a, ha, b, hb, hab⟩
  have htracked := (tracked_of_quiet hs hquiet hagree).run (twoReplicas hV ha hb hab) hturns
  have hrun := run_watch (s, []) turns
  rw [← hrun] at hend ⊢
  exact htracked.agree hend

/-! ### Two clients -/

/-- Two clients over nodes 0 and 1. -/
def pair : Clients Bool where
  client := fun _ => { dist := (Session.start .byLength 2 [0, 1]).dist, attached := [] }
  cluster := fun _ => Server.fresh

theorem pair_sharing : pair.Sharing .byLength 2 (Deployment.byLength.mapOf [0, 1]) where
  ring := fun _ => rfl
  map := fun _ => rfl
  locates := Deployment.locates_mapOf (by decide)
  attached := fun _ h => absurd (show (0 : Int) ≤ -1 from h) (by decide)
  up := fun _ => Server.fresh_up

theorem pair_agree : pair.Agree .byLength 2 (Deployment.byLength.mapOf [0, 1]) := by
  intro key
  exact (Server.contents_fresh key).trans (Server.contents_fresh key).symm

theorem two_nodes : ∃ a ∈ Deployment.byLength.mapOf [0, 1],
    ∃ b ∈ Deployment.byLength.mapOf [0, 1], a ≠ b :=
  ⟨0, Deployment.mem_mapOf.mpr (by decide), 1, Deployment.mem_mapOf.mpr (by decide), by decide⟩

theorem delivers_fine {t : Watched Bool} (i : Bool) : Delivers t (.advance i .fine) :=
  ⟨Conditions.fine_ample, Conditions.fine_delivered⟩

/-- A client inserts key 2, and the other reads it before the insert is over. -/
def readDuringInsert : List (Turn Bool) :=
  [.begin false (.insert 2 (str "v")), .begin true (.get 2), .advance false .fine,
   .advance true .fine, .advance false .fine, .advance true .fine, .advance false .fine]

theorem quiet_replicas_agree_pair :
    (run step pair readDuringInsert).Agree .byLength 2 (Deployment.byLength.mapOf [0, 1]) := by
  refine quiet_replicas_agree .byLength 2 (by decide) _ two_nodes pair pair_sharing
    (fun _ => rfl) pair_agree readDuringInsert ?_ ?_
  · have hadvance : ∀ {t : Watched Bool} (i : Bool), t.2.length ≤ 1 ∧ t.1.writingBack i = none →
        Delivers t (.advance i .fine) ∧
          KeepsOrder .byLength 2 (Deployment.byLength.mapOf [0, 1]) t (.advance i .fine) ∧
          RevivesNothing .byLength 2 (Deployment.byLength.mapOf [0, 1]) t (.advance i .fine) :=
      fun i h => ⟨delivers_fine i, keepsOrder_of_length h.1, revivesNothing_of_none h.2⟩
    exact ⟨⟨trivial, trivial, trivial⟩, ⟨trivial, trivial, trivial⟩,
      hadvance false (by decide +kernel), hadvance true (by decide +kernel),
      hadvance false (by decide +kernel), hadvance true (by decide +kernel),
      hadvance false (by decide +kernel), trivial⟩
  · intro i
    exact Option.isNone_iff_eq_none.mp (by revert i; decide +kernel)

/-- Replicas agree in every quiet state of every run whose turns are `ok`. -/
def AgreeUnder (ok : Deployment → Int → NodeMap → Watched Bool → Turn Bool → Prop) : Prop :=
  ∀ (D : Deployment) (V : Int) (m : NodeMap) (s : Clients Bool) (turns : List (Turn Bool)),
    1 ≤ V → (∃ a ∈ m, ∃ b ∈ m, a ≠ b) → s.Sharing D V m → s.Quiet → s.Agree D V m →
    Along watch (ok D V m) (s, []) turns → (run step s turns).Quiet →
      (run step s turns).Agree D V m

/-- Two inserts of key 2 reach node 1, the primary, in one order and node 0 in the other. -/
def crossedInserts : List (Turn Bool) :=
  [.begin false (.insert 2 (str "v")), .begin true (.insert 2 (str "w")), .advance false .fine,
   .advance true .fine, .advance true .fine, .advance false .fine, .advance true .fine,
   .advance false .fine]

/-- A `get` of key 2 finds the key at the buddy when a delete has reached the primary only,
and writes it back there when the delete is over. -/
def getDuringDelete : List (Turn Bool) :=
  [.begin false (.insert 2 (str "v")), .advance false .fine, .advance false .fine,
   .advance false .fine, .begin false (.deleteKey 2), .advance false .fine,
   .begin true (.get 2), .advance true .fine, .advance true .fine, .advance false .fine,
   .advance false .fine, .advance true .fine, .advance true .fine]

/-- That every request is delivered is not enough, and neither of the two conditions is. -/
theorem replicas_part : ¬ AgreeUnder (fun _ _ _ => Delivers) ∧
    ¬ AgreeUnder (fun D V m t turn => Delivers t turn ∧ RevivesNothing D V m t turn) ∧
    ¬ AgreeUnder (fun D V m t turn => Delivers t turn ∧ KeepsOrder D V m t turn) := by
  have hcrossed : ¬ AgreeUnder fun D V m t turn =>
      Delivers t turn ∧ RevivesNothing D V m t turn := by
    intro h
    have hadvance : ∀ {t : Watched Bool} (i : Bool), t.1.writingBack i = none →
        Delivers t (.advance i .fine) ∧
          RevivesNothing .byLength 2 (Deployment.byLength.mapOf [0, 1]) t (.advance i .fine) :=
      fun i hnone => ⟨delivers_fine i, revivesNothing_of_none hnone⟩
    have hagree := h .byLength 2 _ pair crossedInserts (by decide) two_nodes pair_sharing
      (fun _ => rfl) pair_agree
      ⟨⟨trivial, trivial⟩, ⟨trivial, trivial⟩, hadvance false (by decide +kernel),
        hadvance true (by decide +kernel), hadvance true (by decide +kernel),
        hadvance false (by decide +kernel), hadvance true (by decide +kernel),
        hadvance false (by decide +kernel), trivial⟩
      (fun i => Option.isNone_iff_eq_none.mp (by revert i; decide +kernel)) 2
    revert hagree
    decide +kernel
  refine ⟨?_, hcrossed, ?_⟩
  · intro h
    exact hcrossed fun D V m s turns hV htwo hs hquiet hagree hturns hend =>
      h D V m s turns hV htwo hs hquiet hagree (hturns.imp fun _ _ hturn => hturn.1) hend
  · intro h
    have hadvance : ∀ {t : Watched Bool} (i : Bool), t.2.length ≤ 1 →
        Delivers t (.advance i .fine) ∧
          KeepsOrder .byLength 2 (Deployment.byLength.mapOf [0, 1]) t (.advance i .fine) :=
      fun i hlength => ⟨delivers_fine i, keepsOrder_of_length hlength⟩
    have hagree := h .byLength 2 _ pair getDuringDelete (by decide) two_nodes pair_sharing
      (fun _ => rfl) pair_agree
      ⟨⟨trivial, trivial⟩, hadvance false (by decide +kernel), hadvance false (by decide +kernel),
        hadvance false (by decide +kernel), ⟨trivial, trivial⟩,
        hadvance false (by decide +kernel), ⟨trivial, trivial⟩,
        hadvance true (by decide +kernel), hadvance true (by decide +kernel),
        hadvance false (by decide +kernel), hadvance false (by decide +kernel),
        hadvance true (by decide +kernel), hadvance true (by decide +kernel), trivial⟩
      (fun i => Option.isNone_iff_eq_none.mp (by revert i; decide +kernel)) 2
    revert hagree
    decide +kernel

end Clients

end DistKV
