/-
What is known about a member rises.

The merges of `mergeView` and of a gossip round, the failure detector, the heartbeat and
`stop` never make the version of another member's entry smaller.  The merge of `start` is
the exception: it takes whatever a seed says last, while the server already answers
requests, and so it may know more than the seed.  Knowledge rises along a run exactly if
no seed is behind what the server has heard by then.
-/
import DistKV.Proofs.MergeView
import DistKV.Lib.Run

namespace DistKV

open MemberTable Machine

namespace GossipMembership

variable {g g' g'' : GossipMembership} {a : Action} {id : NodeId} {entry : MemberEntry}

theorem selfNodeId_perform (g : GossipMembership) (a : Action) :
    (g.perform a).selfNodeId = g.selfNodeId := by
  rcases a with ⟨clock, incoming⟩ | ⟨clock, response⟩ | ⟨clock, response⟩ | ⟨now, now'⟩ | ⟨now⟩ | _
  · exact selfNodeId_mergeView clock incoming g
  · exact selfNodeId_settle g _
  · rfl
  · exact selfNodeId_beat now now' g
  · exact selfNodeId_detectFailures g now
  · exact selfNodeId_depart g

/-- No other member is dropped, and no version of one falls. -/
def Rises (g g' : GossipMembership) : Prop :=
  ∀ id entry, id ≠ g.selfNodeId → g.memberTable.find id = some entry →
    ∃ entry', g'.memberTable.find id = some entry' ∧
      entry.record.version ≤ entry'.record.version

theorem Rises.refl (g : GossipMembership) : Rises g g :=
  fun _ entry _ h => ⟨entry, h, le_rfl⟩

theorem Rises.trans (hself : g'.selfNodeId = g.selfNodeId) (h : Rises g g')
    (h' : Rises g' g'') : Rises g g'' := by
  intro id entry hid hfind
  rcases h id entry hid hfind with ⟨entry', hfind', hle⟩
  rcases h' id entry' (hself ▸ hid) hfind' with ⟨entry'', hfind'', hle'⟩
  exact ⟨entry'', hfind'', hle.trans hle'⟩

/-- A seed says about nobody less than what is known. -/
def Fresh (g : GossipMembership) : Action → Prop
  | .bootstrap _ response => ∀ id r entry, id ≠ g.selfNodeId →
      lastAbout id response = some r → g.memberTable.find id = some entry →
      entry.record.version ≤ r.version
  | _ => True

/-- What the failure detector makes of an entry is no older. -/
theorem rises_detectFailures (g : GossipMembership) (now : UInt64) :
    Rises g (g.detectFailures now) := by
  intro id entry hid hfind
  refine ⟨detect g.config now entry, ?_, version_le_detect _ _ _⟩
  rw [find_detectFailures, hfind, Option.map_some, if_neg hid]

theorem rises_modifySelf {f : MemberEntry → MemberEntry}
    (hf : ∀ entry, (f entry).record.nodeId = entry.record.nodeId) :
    Rises g (g.modifySelf f) := by
  intro id entry hid hfind
  exact ⟨entry, (find_modifySelf_of_ne hf hid).trans hfind, le_rfl⟩

theorem rises_beat (g : GossipMembership) (now now' : UInt64) : Rises g (g.beat now now') := by
  have hself := (selfNodeId_modifySelf (beaten now) g).1
  have hbeat : Rises g (g.modifySelf (beaten now)) := rises_modifySelf fun _ => rfl
  exact hbeat.trans hself (rises_detectFailures _ now')

theorem rises_depart (g : GossipMembership) : Rises g g.depart :=
  @rises_modifySelf { g with running := false } _ fun _ => rfl

/-- The merge of `start` is the one that may lose something. -/
theorem rises_bootstrap_iff (clock : Nat → UInt64) (response : List MemberRecord)
    (g : GossipMembership) :
    Rises g (g.bootstrap clock response) ↔ g.Fresh (.bootstrap clock response) := by
  constructor
  · intro h id r entry hid hlast hfind
    rcases h id entry hid hfind with ⟨entry', hfind', hle⟩
    have hrecord := record_bootstrap clock response g hid
    rw [hfind', hlast] at hrecord
    rw [← Option.some.inj hrecord]
    exact hle
  · intro h id entry hid hfind
    have hrecord := record_bootstrap clock response g hid
    rcases hlast : lastAbout id response with _ | r
    · rw [hlast, hfind] at hrecord
      rcases Option.map_eq_some_iff.mp hrecord with ⟨entry', hfind', heq⟩
      refine ⟨entry', hfind', ?_⟩
      rw [heq]
    · rw [hlast] at hrecord
      rcases Option.map_eq_some_iff.mp hrecord with ⟨entry', hfind', rfl⟩
      exact ⟨entry', hfind', h id _ entry hid hlast hfind⟩

theorem rises_perform_iff (g : GossipMembership) (a : Action) :
    Rises g (g.perform a) ↔ g.Fresh a := by
  rcases a with ⟨clock, incoming⟩ | ⟨clock, response⟩ | ⟨clock, response⟩ | ⟨now, now'⟩ | ⟨now⟩ | _
  · exact iff_of_true (fun _ _ _ h => find_mergeView_mono h) trivial
  · exact iff_of_true (fun _ _ _ h => find_mergeResponse_mono h) trivial
  · exact rises_bootstrap_iff clock response g
  · exact iff_of_true (rises_beat g now now') trivial
  · exact iff_of_true (rises_detectFailures g now) trivial
  · exact iff_of_true (rises_depart g) trivial

/-- As long as every seed is fresh, nothing is forgotten. -/
theorem rises_run {as : List Action} (h : Along perform Fresh g as) :
    Rises g (run perform g as) := by
  induction as generalizing g with
  | nil => exact Rises.refl g
  | cons a as ih =>
      exact ((rises_perform_iff g a).mpr h.1).trans (selfNodeId_perform g a) (ih h.2)

/-- **What is known about a member rises.**  Whatever is done to a membership, in any order:
from any point to any later one no other member is dropped and no version falls, if and
only if no seed is behind what is known when its response is merged. -/
theorem knowledge_rises_iff (g : GossipMembership) (as : List Action) :
    (∀ pre mid, pre ++ mid <+: as →
      Rises (run perform g pre) (run perform g (pre ++ mid))) ↔
    Along perform Fresh g as := by
  constructor
  · intro h
    refine along_iff.mpr ?_
    intro pre a hpre
    have hrises := h pre [a] hpre
    rw [run_snoc] at hrises
    exact (rises_perform_iff _ a).mp hrises
  · intro h pre mid hpre
    have halong := (along_append.mp (h.initial hpre)).2
    rw [run_append]
    exact rises_run halong

/-- The last record of a member that has departed. -/
def departed7 : MemberRecord where
  nodeId := 7
  endpoint := str "c:1"
  status := .dead
  heartbeatCounter := 5
  generation := 1

/-- A seed brings a departed member back. -/
theorem seed_revives : ¬ ∀ (i : NodeId) (config : GossipConfig) (loaded : UInt32)
    (now : UInt64) (as : List Action) (a : Action),
    Rises (run perform (construct i config loaded now).setChangeCallback as)
      ((run perform (construct i config loaded now).setChangeCallback as).perform a) := by
  intro h
  have hrises := h 0
    { endpoint := str "a:1", seedNodes := [str "b:1"], suspectThresholdMs := 3000
      deadThresholdMs := 10000 } 0 0
    [.mergeView (fun _ => 0) [departed7]]
    (.bootstrap (fun _ => 0) [{ departed7 with status := .alive, heartbeatCounter := 3 }])
  rcases hrises 7 { record := departed7, lastUpdatedMs := 0 } (by decide) (by decide) with
    ⟨entry', hfind', hle⟩
  have hentry : some entry' =
      some { record := { departed7 with status := .alive, heartbeatCounter := 3 }
             lastUpdatedMs := 0 } := by
    rw [← hfind']
    decide
  rw [Option.some.inj hentry] at hle
  revert hle
  decide

end GossipMembership

end DistKV
