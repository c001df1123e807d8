/-
Runs of a machine.

A machine takes a state and an event to a state, and `run` feeds it a list of events.
Events may be restricted by the state they find: `Along ok s es` says that every event
of `es` is `ok` where the run from `s` has got to.  What holds at the start and is
kept by every event that is `ok` holds at the end, and it may speak of the events so
far.
-/
import Mathlib.Data.List.Induction
import Mathlib.Order.Defs.PartialOrder

namespace Machine

variable {σ ε : Type*} (step : σ → ε → σ) (ok : σ → ε → Prop)

def run (s : σ) (es : List ε) : σ := es.foldl step s

def Along : σ → List ε → Prop
  | _, [] => True
  | s, e :: es => ok s e ∧ Along (step s e) es

variable {step ok}

@[simp] theorem run_nil (s : σ) : run step s [] = s := rfl

@[simp] theorem run_cons (s : σ) (e : ε) (es : List ε) :
    run step s (e :: es) = run step (step s e) es := rfl

theorem run_append (s : σ) (es es' : List ε) :
    run step s (es ++ es') = run step (run step s es) es' := List.foldl_append

theorem run_snoc (s : σ) (es : List ε) (e : ε) :
    run step s (es ++ [e]) = step (run step s es) e := run_append s es [e]

/-- What no event changes, no run changes. -/
theorem run_eq_of_step {τ : Type*} {f : σ → τ} (h : ∀ s e, f (step s e) = f s) (s : σ)
    (es : List ε) : f (run step s es) = f s := by
  induction es generalizing s with
  | nil => rfl
  | cons e es ih => exact (ih (step s e)).trans (h s e)

theorem run_keeps {P : σ → Prop} (h : ∀ s e, P s → P (step s e)) {s : σ} (hs : P s)
    (es : List ε) : P (run step s es) := by
  induction es generalizing s with
  | nil => exact hs
  | cons e es ih => exact ih (h s e hs)

/-- Two machines that take the same events stay related. -/
theorem run_relates {τ : Type*} {step' : τ → ε → τ} {R : σ → τ → Prop} {good : ε → Prop}
    (hstep : ∀ s t e, good e → R s t → R (step s e) (step' t e)) {s : σ} {t : τ} {es : List ε}
    (hes : ∀ e ∈ es, good e) (h : R s t) : R (run step s es) (run step' t es) := by
  induction es generalizing s t with
  | nil => exact h
  | cons e es ih =>
      exact ih (fun e' he' => hes e' (List.mem_cons_of_mem e he'))
        (hstep s t e (hes e List.mem_cons_self) h)

/-- A machine comes to rest if every event until then brings it nearer to it. -/
theorem run_rests {R : σ → Prop} {M : σ → Nat} (hrest : ∀ s e, R s → R (step s e))
    (hpos : ∀ s, ¬ R s → 0 < M s) (hnear : ∀ s e, ¬ R s → M (step s e) < M s) {s : σ}
    {es : List ε} (h : M s ≤ es.length) : R (run step s es) := by
  induction es generalizing s with
  | nil =>
      by_contra hmoving
      exact absurd h (Nat.not_le.mpr (hpos s hmoving))
  | cons e es ih =>
      by_cases hs : R s
      · exact run_keeps hrest (hrest s e hs) es
      · refine ih ?_
        have hlt := hnear s e hs
        rw [List.length_cons] at h
        omega

theorem along_append {s : σ} {es es' : List ε} : Along step ok s (es ++ es') ↔
    Along step ok s es ∧ Along step ok (run step s es) es' := by
  induction es generalizing s with
  | nil => exact (iff_of_eq (true_and _)).symm
  | cons e es ih =>
      show ok s e ∧ Along step ok (step s e) (es ++ es') ↔ (ok s e ∧ _) ∧ _
      rw [ih, and_assoc]
      rfl

theorem along_snoc {s : σ} {es : List ε} {e : ε} : Along step ok s (es ++ [e]) ↔
    Along step ok s es ∧ ok (run step s es) e := by
  rw [along_append]
  exact and_congr_right fun _ => iff_of_eq (and_true _)

/-- Being `ok` along a run is being `ok` after each of its prefixes. -/
theorem along_iff {s : σ} {es : List ε} : Along step ok s es ↔
    ∀ pre e, pre ++ [e] <+: es → ok (run step s pre) e := by
  induction es using List.reverseRecOn with
  | nil =>
      refine iff_of_true trivial fun pre e h => ?_
      have hlen := h.length_le
      rw [List.length_append] at hlen
      exact absurd hlen (by simp)
  | append_singleton es last ih =>
      rw [along_snoc, ih]
      constructor
      · rintro ⟨hes, hlast⟩ pre e h
        obtain heq | hpre := List.prefix_concat_iff.mp h
        · obtain ⟨rfl, rfl⟩ := List.append_inj' heq rfl |>.imp id List.singleton_inj.mp
          exact hlast
        · exact hes pre e hpre
      · intro h
        exact ⟨fun pre e hpre => h pre e (hpre.trans (List.prefix_append es [last])),
          h es last (List.prefix_refl _)⟩

theorem Along.initial {s : σ} {pre es : List ε} (hes : Along step ok s es) (h : pre <+: es) :
    Along step ok s pre := by
  obtain ⟨rest, rfl⟩ := h
  exact (along_append.mp hes).1

theorem Along.and {ok' : σ → ε → Prop} {s : σ} {es : List ε} (h : Along step ok s es)
    (h' : Along step ok' s es) : Along step (fun s e => ok s e ∧ ok' s e) s es := by
  induction es generalizing s with
  | nil => trivial
  | cons e es ih => exact ⟨⟨h.1, h'.1⟩, ih h.2 h'.2⟩

theorem Along.imp {ok' : σ → ε → Prop} (h : ∀ s e, ok s e → ok' s e) {s : σ} {es : List ε}
    (hes : Along step ok s es) : Along step ok' s es := by
  induction es generalizing s with
  | nil => trivial
  | cons e es ih => exact ⟨h s e hes.1, ih hes.2⟩

/-- Two runs stay related when one of them answers every event of the other. -/
theorem Along.relates {τ ε' : Type*} {step' : τ → ε' → τ} {f : ε → ε'} {R : σ → τ → Prop}
    (hstep : ∀ s t e, ok s e → R s t → R (step s e) (step' t (f e))) {s : σ} {t : τ}
    {es : List ε} (hes : Along step ok s es) (h : R s t) :
    R (run step s es) (run step' t (es.map f)) := by
  induction es generalizing s t with
  | nil => exact h
  | cons e es ih => exact ih hes.2 (hstep s t e hes.1 h)

/-- What the events so far and the state they lead to have in common. -/
theorem Along.induction {P : List ε → σ → Prop} {s : σ} (h₀ : P [] s)
    (hstep : ∀ es e, Along step ok s es → P es (run step s es) → ok (run step s es) e →
      P (es ++ [e]) (step (run step s es) e)) {es : List ε} (hes : Along step ok s es) :
    P es (run step s es) := by
  induction es using List.reverseRecOn with
  | nil => exact h₀
  | append_singleton es e ih =>
      obtain ⟨hpre, hlast⟩ := along_snoc.mp hes
      rw [run_snoc]
      exact hstep es e hpre (ih hpre) hlast

/-- What every event keeps, the run keeps. -/
theorem Along.invariant {I : σ → Prop} {s : σ} (h₀ : I s)
    (hstep : ∀ s e, I s → ok s e → I (step s e)) {es : List ε} (hes : Along step ok s es) :
    I (run step s es) :=
  hes.induction (P := fun _ s => I s) h₀ fun _ e _ hI he => hstep _ e hI he

/-- In how many steps of a run something happens. -/
def tally (step : σ → ε → σ) (occurs : σ → σ → Bool) : σ → List ε → Nat
  | _, [] => 0
  | s, e :: es => (occurs s (step s e)).toNat + tally step occurs (step s e) es

/-- If every step in which something happens raises a potential that no step lowers, then it
happens no more often than the potential can rise. -/
theorem tally_le {occurs : σ → σ → Bool} {I : σ → Prop} {M : σ → Nat}
    (hstep : ∀ s e, I s → ok s e → I (step s e) ∧
      M s + (occurs s (step s e)).toNat ≤ M (step s e)) {s : σ} {es : List ε} (hs : I s)
    (hes : Along step ok s es) : tally step occurs s es + M s ≤ M (run step s es) := by
  induction es generalizing s with
  | nil => exact Nat.le_of_eq (Nat.zero_add _)
  | cons e es ih =>
      obtain ⟨hnext, hrise⟩ := hstep s e hs hes.1
      have hrest := ih hnext hes.2
      show (occurs s (step s e)).toNat + tally step occurs (step s e) es + M s ≤ _
      rw [run_cons]
      omega

/-- A way through a run: an event may take what is in one place to another one. -/
inductive Path {π : Type*} (step : σ → ε → σ) (hop : σ → ε → π → π → Prop) :
    σ → List ε → π → π → Prop where
  | nil (s : σ) (x : π) : Path step hop s [] x x
  | cons {s : σ} {e : ε} {es : List ε} {x y z : π} (hhop : hop s e x y)
      (hrest : Path step hop (step s e) es y z) : Path step hop s (e :: es) x z

/-- If every hop brings at least what was there, the whole way does. -/
theorem Path.brings {π α : Type*} [Preorder α] {hop : σ → ε → π → π → Prop} {I : σ → Prop}
    {H : σ → π → α → Prop} (hkeeps : ∀ s e, I s → ok s e → I (step s e))
    (hhop : ∀ s e x y a, I s → ok s e → hop s e x y → H s x a →
      ∃ b, a ≤ b ∧ H (step s e) y b) {s : σ} {es : List ε} {x z : π}
    (hpath : Path step hop s es x z) (hs : I s) (hes : Along step ok s es) {a : α}
    (ha : H s x a) : ∃ b, a ≤ b ∧ H (run step s es) z b := by
  induction hpath generalizing a with
  | nil s x => exact ⟨a, le_rfl, ha⟩
  | cons hhop' hrest ih =>
      obtain ⟨b, hab, hb⟩ := hhop _ _ _ _ a hs hes.1 hhop' ha
      obtain ⟨c, hbc, hc⟩ := ih (hkeeps _ _ hs hes.1) hes.2 hb
      exact ⟨c, le_trans hab hbc, hc⟩

end Machine
