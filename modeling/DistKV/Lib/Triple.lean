/-
Triples for state with exceptions.

`Spec P m Q X` says that from a state in which `P` holds, `m` ends either well, with a
result and a state that `Q` holds of, or in an exception and a state that `X` holds of.
State changes made before an exception stay made.  In a `Triple` what holds after an
exception does not depend on which it is, and its rules are those of a `Spec`.
-/
import Mathlib.Logic.Basic

namespace Hoare

variable {ε σ α β : Type}

def Triple (P : σ → Prop) (m : EStateM ε σ α) (Q : α → σ → Prop) (E : σ → Prop) : Prop :=
  ∀ s, P s → match m.run s with
    | .ok a s' => Q a s'
    | .error _ s' => E s'

/-- `m` keeps `P`, however it ends. -/
abbrev Keeps (P : σ → Prop) (m : EStateM ε σ α) : Prop := Triple P m (fun _ => P) P

def Spec (P : σ → Prop) (m : EStateM ε σ α) (Q : α → σ → Prop) (X : ε → σ → Prop) : Prop :=
  ∀ s, P s → match m.run s with
    | .ok a s' => Q a s'
    | .error e s' => X e s'

variable {P P' E : σ → Prop} {Q Q' : α → σ → Prop} {R : β → σ → Prop} {X X' : ε → σ → Prop}
  {p : Prop} {m : EStateM ε σ α} {f : α → EStateM ε σ β}

/-! ### Running one statement after another -/

theorem run_bind_ok {s s' : σ} {a : α} (h : m.run s = .ok a s') :
    (m >>= f).run s = (f a).run s' := by
  rw [EStateM.run_bind, h]

theorem run_bind_error {s s' : σ} {e : ε} (h : m.run s = .error e s') :
    (m >>= f).run s = .error e s' := by
  rw [EStateM.run_bind, h]

theorem run_get_bind {f : σ → EStateM ε σ β} (s : σ) : (get >>= f).run s = (f s).run s := rfl

theorem run_modify_bind {f : PUnit → EStateM ε σ β} (g : σ → σ) (s : σ) :
    (modify g >>= f).run s = (f ⟨⟩).run (g s) := rfl

/-! ### Telling exceptions apart -/

theorem Spec.of_ok (h : Spec P m Q X) {s s' : σ} {a : α} (hs : P s) (hm : m.run s = .ok a s') :
    Q a s' := by
  have := h s hs
  rw [hm] at this
  exact this

theorem Spec.of_error (h : Spec P m Q X) {s s' : σ} {e : ε} (hs : P s)
    (hm : m.run s = .error e s') : X e s' := by
  have := h s hs
  rw [hm] at this
  exact this

theorem Spec.intro (hok : ∀ s a s', P s → m.run s = .ok a s' → Q a s')
    (herr : ∀ s e s', P s → m.run s = .error e s' → X e s') : Spec P m Q X := by
  intro s hs
  cases hm : m.run s with
  | ok a s' => exact hok s a s' hs hm
  | error e s' => exact herr s e s' hs hm

theorem Spec.pure {a : α} (h : ∀ s, P s → Q a s) : Spec P (pure a : EStateM ε σ α) Q X := h

theorem Spec.throw {e : ε} (h : ∀ s, P s → X e s) : Spec P (throw e : EStateM ε σ α) Q X := h

theorem Spec.modify {g : σ → σ} {Q : PUnit → σ → Prop} (h : ∀ s, P s → Q ⟨⟩ (g s)) :
    Spec P (modify g : EStateM ε σ PUnit) Q X := h

/-- One after the other, with what holds in between. -/
theorem Spec.bind (Q : α → σ → Prop) (hm : Spec P m Q X) (hf : ∀ a, Spec (Q a) (f a) R X) :
    Spec P (m >>= f) R X := by
  intro s hs
  rw [EStateM.run_bind]
  cases hrun : m.run s with
  | ok a s' => exact hf a s' (hm.of_ok hs hrun)
  | error e s' => exact hm.of_error hs hrun

/-- Reading the state, and going on with what it is. -/
theorem Spec.get_bind {f : σ → EStateM ε σ β} (h : ∀ s, P s → Spec (fun s' => s' = s) (f s) R X) :
    Spec P (get >>= f) R X := fun s hs => h s hs s rfl

/-- What does not speak of the state may be taken out of what holds of it. -/
theorem Spec.of_and (h : p → Spec P m Q X) : Spec (fun s => P s ∧ p) m Q X :=
  fun s hs => h hs.2 s hs.1

theorem Spec.weaken (h : Spec P m Q X) (hP : ∀ s, P' s → P s) (hQ : ∀ a s, Q a s → Q' a s)
    (hX : ∀ e s, X e s → X' e s) : Spec P' m Q' X' :=
  Spec.intro (fun _ a s' hs hm => hQ a s' (h.of_ok (hP _ hs) hm))
    fun _ e s' hs hm => hX e s' (h.of_error (hP _ hs) hm)

/-- A specification at one state. -/
theorem Spec.at (h : Spec P m Q X) {s : σ} (hs : P s) : Spec (fun s' => s' = s) m Q X :=
  h.weaken (fun _ heq => heq ▸ hs) (fun _ _ hs => hs) fun _ _ hs => hs

theorem Spec.weaken_error (h : Spec P m Q X) (hX : ∀ e s, X e s → X' e s) : Spec P m Q X' :=
  h.weaken (fun _ hs => hs) (fun _ _ hs => hs) hX

/-- A handler starts from what the body leaves behind. -/
theorem Spec.tryCatch {handler : ε → EStateM ε σ α} (hm : Spec P m Q X')
    (hh : ∀ e, Spec (X' e) (handler e) Q X) : Spec P (tryCatch m handler) Q X := by
  intro s hs
  have hrun : (MonadExcept.tryCatch m handler).run s =
      match m.run s with
      | .ok a s' => .ok a s'
      | .error e s' => (handler e).run s' := by
    show EStateM.tryCatch m handler s = _
    unfold EStateM.tryCatch EStateM.run
    cases m s <;> rfl
  rw [hrun]
  cases hm' : m.run s with
  | ok a s' => exact hm.of_ok hs hm'
  | error e s' => exact hh e s' (hm.of_error hs hm')

/-! ### One condition for all exceptions -/

theorem triple_iff_spec : Triple P m Q E ↔ Spec P m Q fun _ => E := Iff.rfl

theorem Triple.of_ok (h : Triple P m Q E) {s s' : σ} {a : α} (hs : P s)
    (hm : m.run s = .ok a s') : Q a s' := (triple_iff_spec.mp h).of_ok hs hm

theorem Triple.pure {a : α} (h : ∀ s, P s → Q a s) :
    Triple P (pure a : EStateM ε σ α) Q E := h

theorem Triple.throw {e : ε} (h : ∀ s, P s → E s) :
    Triple P (throw e : EStateM ε σ α) Q E := h

theorem Triple.modify {g : σ → σ} {Q : PUnit → σ → Prop} (h : ∀ s, P s → Q ⟨⟩ (g s)) :
    Triple P (modify g : EStateM ε σ PUnit) Q E := h

theorem Triple.bind (Q : α → σ → Prop) (hm : Triple P m Q E) (hf : ∀ a, Triple (Q a) (f a) R E) :
    Triple P (m >>= f) R E := Spec.bind Q hm hf

theorem Triple.get_bind {f : σ → EStateM ε σ β} (h : ∀ s, P s → Triple P (f s) R E) :
    Triple P (get >>= f) R E := fun s hs => h s hs s hs

theorem Triple.weaken (h : Triple P m Q E) (hP : ∀ s, P' s → P s)
    (hQ : ∀ a s, Q a s → Q' a s) : Triple P' m Q' E :=
  Spec.weaken h hP hQ fun _ _ hs => hs

theorem Triple.weaken_error {E' : σ → Prop} (h : Triple P m Q E) (hE : ∀ s, E s → E' s) :
    Triple P m Q E' := Spec.weaken_error h fun _ => hE

theorem Triple.tryCatch {handler : ε → EStateM ε σ α} (hm : Triple P m Q P')
    (hh : ∀ e, Triple P' (handler e) Q E) : Triple P (tryCatch m handler) Q E :=
  Spec.tryCatch hm hh

theorem Keeps.pure (a : α) : Keeps P (pure a : EStateM ε σ α) := Triple.pure fun _ hs => hs

theorem Keeps.throw (e : ε) : Keeps P (throw e : EStateM ε σ α) := Triple.throw fun _ hs => hs

theorem Keeps.bind (hm : Keeps P m) (hf : ∀ a, Triple P (f a) R P) : Triple P (m >>= f) R P :=
  Triple.bind _ hm hf

end Hoare
