/-
Owners of keyed points, and who comes next when one of them goes.

Points carry a key from a linear order and belong to an owner.  An owner *leads* a
set of points when it owns one with the least key, and it *follows* `i` when it
leads what is left once the points of `i` are gone.  Taking an owner's points out
never changes who leads unless it was the leader, and takes the follower's place
from nobody but itself; that is the whole of what consistent hashing promises, and
none of it depends on what the points are.

The last section reads both off a list sorted by key: the head leads it, and the
first point of another owner follows.
-/
import Mathlib.Data.Set.Basic
import Mathlib.Data.List.Pairwise
import Mathlib.Order.Defs.LinearOrder

namespace Succession

variable {α ι κ : Type*} [LinearOrder κ] (key : α → κ) (owner : α → ι)

/-- The points of `T` that do not belong to `i`. -/
def without (i : ι) (T : Set α) : Set α := {a | a ∈ T ∧ owner a ≠ i}

/-- `i` owns a point of `T` that no point of `T` comes before. -/
def Leads (T : Set α) (i : ι) : Prop := ∃ a ∈ T, owner a = i ∧ ∀ b ∈ T, key a ≤ key b

/-- `j` leads once the points of `i` are taken out. -/
def Follows (T : Set α) (i j : ι) : Prop := Leads key owner (without owner i T) j

variable {key owner} {T : Set α} {i j n : ι}

theorem without_comm (i n : ι) (T : Set α) :
    without owner i (without owner n T) = without owner n (without owner i T) := by
  ext a
  exact and_right_comm

/-- Nobody leads twice, as long as points of one key belong to one owner. -/
theorem Leads.unique (hkey : ∀ a b, key a = key b → owner a = owner b)
    (hi : Leads key owner T i) (hj : Leads key owner T j) : i = j := by
  obtain ⟨a, ha, rfl, hamin⟩ := hi
  obtain ⟨b, hb, rfl, hbmin⟩ := hj
  exact hkey a b (le_antisymm (hamin b hb) (hbmin a ha))

theorem Leads.owns (h : Leads key owner T i) : ∃ a ∈ T, owner a = i := by
  obtain ⟨a, ha, hown, -⟩ := h
  exact ⟨a, ha, hown⟩

/-- A leader still leads when somebody else's points are taken out. -/
theorem Leads.without (h : Leads key owner T i) (hne : i ≠ n) :
    Leads key owner (without owner n T) i := by
  obtain ⟨a, ha, hown, hmin⟩ := h
  exact ⟨a, ⟨ha, by rw [hown]; exact hne⟩, hown, fun b hb => hmin b hb.1⟩

theorem Follows.ne (h : Follows key owner T i j) : j ≠ i := by
  obtain ⟨a, ha, hown⟩ := Leads.owns h
  rw [← hown]
  exact ha.2

/-- A follower still follows when a third party's points are taken out. -/
theorem Follows.without (h : Follows key owner T i j) (hne : j ≠ n) :
    Follows key owner (without owner n T) i j := by
  unfold Follows
  rw [without_comm]
  exact Leads.without h hne

theorem Follows.unique (hkey : ∀ a b, key a = key b → owner a = owner b)
    (hi : Follows key owner T n i) (hj : Follows key owner T n j) : i = j :=
  Leads.unique hkey hi hj

/-! ### Reading leader and follower off a sorted list -/

/-- The first point of a sorted list that passes a test has the least key of those that do. -/
theorem find?_le {l : List α} (hl : l.Pairwise fun a b => key a ≤ key b) {p : α → Bool}
    {a : α} (h : l.find? p = some a) : ∀ b ∈ l, p b = true → key a ≤ key b := by
  obtain ⟨-, as, bs, rfl, hnot⟩ := List.find?_eq_some_iff_append.mp h
  intro b hb hpb
  rcases List.mem_append.mp hb with hb | hb
  · simpa [hpb] using hnot b hb
  · rcases List.mem_cons.mp hb with rfl | hb
    · exact le_refl _
    · exact (List.pairwise_cons.mp (List.pairwise_append.mp hl).2.1).1 b hb

theorem leads_head {l : List α} {a : α} (hl : (a :: l).Pairwise fun a b => key a ≤ key b) :
    Leads key owner {x | x ∈ a :: l} (owner a) := by
  refine ⟨a, by simp, rfl, fun b hb => ?_⟩
  rcases List.mem_cons.mp hb with rfl | hb
  · exact le_refl _
  · exact (List.pairwise_cons.mp hl).1 b hb

theorem follows_find? [DecidableEq ι] {l : List α} {a : α}
    (hl : l.Pairwise fun a b => key a ≤ key b)
    (h : l.find? (fun x => decide (owner x ≠ i)) = some a) :
    Follows key owner {x | x ∈ l} i (owner a) := by
  refine ⟨a, ⟨List.mem_of_find?_eq_some h, ?_⟩, rfl, fun b hb => ?_⟩
  · simpa using List.find?_some h
  · exact find?_le hl h b hb.1 (by simpa using hb.2)

end Succession
