/-
Tables of values that only ever rise.

A table gives each key the greatest value it has heard of, or `⊥`.  `raise` takes in one
more value for one key, `raiseAll` takes in a list of them, and what a key ends up with is
the greatest of what it had and what came in for it.  So it does not matter in which
order the values come, or how often.

What comes with a value may depend on the order: where a later one gives way to an equal one
before it, a key ends up with the first of the highest.
-/
import Mathlib.Order.WithBot
import Mathlib.Order.MinMax
import Mathlib.Order.Bounds.Basic
import Mathlib.Logic.Function.Basic
import Mathlib.Data.List.MinMax

namespace Join

variable {κ α : Type*} [DecidableEq κ] [LinearOrder α]

def raise (t : κ → WithBot α) (e : κ × α) : κ → WithBot α :=
  Function.update t e.1 (t e.1 ⊔ (e.2 : WithBot α))

def raiseAll (t : κ → WithBot α) (es : List (κ × α)) : κ → WithBot α := es.foldl raise t

/-- The greatest value that comes in for a key. -/
def best (es : List (κ × α)) (k : κ) : WithBot α :=
  es.foldr (fun e v => if e.1 = k then (e.2 : WithBot α) ⊔ v else v) ⊥

variable {t : κ → WithBot α} {es es' : List (κ × α)} {k : κ}

@[simp] theorem raiseAll_nil : raiseAll t [] = t := rfl

@[simp] theorem raiseAll_cons (e : κ × α) :
    raiseAll t (e :: es) = raiseAll (raise t e) es := rfl

theorem raise_apply (e : κ × α) :
    raise t e k = if e.1 = k then t k ⊔ (e.2 : WithBot α) else t k := by
  unfold raise
  by_cases h : e.1 = k
  · rw [if_pos h, ← h, Function.update_self]
  · rw [if_neg h, Function.update_of_ne fun hk => h hk.symm]

theorem raiseAll_apply : raiseAll t es k = t k ⊔ best es k := by
  induction es generalizing t with
  | nil => exact (sup_bot_eq (t k)).symm
  | cons e es ih =>
      rw [raiseAll_cons, ih, raise_apply]
      unfold best
      rw [List.foldr_cons]
      by_cases h : e.1 = k
      · rw [if_pos h, if_pos h, sup_assoc]
      · rw [if_neg h, if_neg h]

/-- **Order does not matter.** -/
theorem raiseAll_comm : raiseAll (raiseAll t es) es' = raiseAll (raiseAll t es') es := by
  funext k
  rw [raiseAll_apply, raiseAll_apply, raiseAll_apply, raiseAll_apply, sup_right_comm]

/-- **Nor does repetition.** -/
theorem raiseAll_idem : raiseAll (raiseAll t es) es = raiseAll t es := by
  funext k
  rw [raiseAll_apply, raiseAll_apply, sup_assoc, sup_idem]

theorem le_best {v : α} (h : (k, v) ∈ es) : (v : WithBot α) ≤ best es k := by
  induction es with
  | nil => cases h
  | cons e es ih =>
      unfold best
      rw [List.foldr_cons]
      rcases List.mem_cons.mp h with rfl | hmem
      · rw [if_pos rfl]
        exact le_sup_left
      · split
        · exact (ih hmem).trans le_sup_right
        · exact ih hmem

theorem mem_of_best_eq {v : α} (h : best es k = v) : (k, v) ∈ es := by
  induction es with
  | nil => cases h
  | cons e es ih =>
      unfold best at h
      rw [List.foldr_cons] at h
      by_cases hk : e.1 = k
      · rw [if_pos hk] at h
        rcases max_choice (e.2 : WithBot α) (best es k) with hmax | hmax
        · have hv : e.2 = v := WithBot.coe_inj.mp (hmax.symm.trans h)
          rw [← hk, ← hv]
          exact List.mem_cons_self
        · exact List.mem_cons_of_mem _ (ih (hmax.symm.trans h))
      · rw [if_neg hk] at h
        exact List.mem_cons_of_mem _ (ih h)

/-- **What a key ends up with is the greatest of all there was for it.** -/
theorem raiseAll_isGreatest {v : α} (h : raiseAll t es k = v) :
    IsGreatest {x : α | t k = (x : WithBot α) ∨ (k, x) ∈ es} v := by
  rw [raiseAll_apply] at h
  refine ⟨?_, ?_⟩
  · rcases max_choice (t k) (best es k) with hmax | hmax
    · exact Or.inl (hmax.symm.trans h)
    · exact Or.inr (mem_of_best_eq (hmax.symm.trans h))
  · rintro x (hx | hx)
    · rw [← WithBot.coe_le_coe, ← h, ← hx]
      exact le_sup_left
    · rw [← WithBot.coe_le_coe, ← h]
      exact (le_best hx).trans le_sup_right

theorem raiseAll_eq_iff {v : α} : raiseAll t es k = v ↔
    IsGreatest {x : α | t k = (x : WithBot α) ∨ (k, x) ∈ es} v := by
  refine ⟨raiseAll_isGreatest, fun h => ?_⟩
  have hle : (v : WithBot α) ≤ raiseAll t es k := by
    rw [raiseAll_apply]
    rcases h.1 with hv | hv
    · exact hv.symm.le.trans le_sup_left
    · exact (le_best hv).trans le_sup_right
  cases hw : raiseAll t es k with
  | bot =>
      rw [hw] at hle
      exact absurd hle (WithBot.not_coe_le_bot v)
  | coe w => rw [(raiseAll_isGreatest hw).unique h]

/-! ### The first of the highest -/

section Outrank

variable {β γ σ ι : Type*} {rank : β → α} {f : β → γ}

/-- `x` gives way to what ranks above it. -/
def outrank (rank : β → α) (x : Option β) (b : β) : β :=
  match x with
  | none => b
  | some a => if rank a < rank b then b else a

theorem argmax_snoc (rank : β → α) (l : List β) (b : β) :
    (l ++ [b]).argmax rank = some (outrank rank (l.argmax rank) b) := by
  rw [List.argmax_concat]
  unfold outrank
  rcases l.argmax rank with _ | a
  · rfl
  · dsimp only
    split
    · rfl
    · rfl

/-- Where `f` tells the rank, it is all that matters of what gives way. -/
theorem outrank_congr (hrank : ∀ a b, f a = f b → rank a = rank b) {x y : Option β}
    (h : x.map f = y.map f) (b : β) : f (outrank rank x b) = f (outrank rank y b) := by
  unfold outrank
  rcases x with _ | a
  · rw [Option.map_none, eq_comm, Option.map_eq_none_iff] at h
    rw [h]
  · rw [Option.map_some, eq_comm, Option.map_eq_some_iff] at h
    rcases h with ⟨a', rfl, hf⟩
    dsimp only
    rw [hrank a' a hf]
    split
    · rfl
    · exact hf.symm

/-- **A fold in which each value gives way to what ranks above it ends with the first of the
highest**, as far as `f` can tell. -/
theorem foldl_outrank {step : σ → ι → σ} (held : σ → Option β) (brings : ι → β) (p : β → Bool)
    (hrank : ∀ a b, f a = f b → rank a = rank b)
    (htake : ∀ s e, p (brings e) = true →
      (held (step s e)).map f = some (f (outrank rank (held s) (brings e))))
    (hskip : ∀ s e, p (brings e) = false → held (step s e) = held s) (es : List ι) (s : σ) :
    (held (es.foldl step s)).map f =
      (((held s).toList ++ (es.map brings).filter p).argmax rank).map f := by
  induction es using List.reverseRecOn with
  | nil =>
      rcases hs : held s with _ | a
      · simp [hs]
      · simp [hs]
  | append_singleton es e ih =>
      rw [List.foldl_append, List.map_append, List.filter_append, ← List.append_assoc]
      show (held (step (es.foldl step s) e)).map f = _
      rcases hp : p (brings e) with _ | _
      · rw [hskip _ e hp, ih]
        simp [hp]
      · rw [htake _ e hp, show ([e].map brings).filter p = [brings e] by simp [hp], argmax_snoc,
          Option.map_some, outrank_congr hrank ih]

end Outrank

end Join
