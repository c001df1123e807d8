/-
Programs that put requests to a world outside them.

A program is a tree: it is done, or it makes a request and goes on with the answer.
What a request does is not part of it.  A *handler* answers requests against a
state, and `run` plays a program against one from start to finish; nothing happens
between two of its requests.
-/
import Mathlib.Logic.Function.Basic

/-- A program over requests `ρ` with answers `α`. -/
inductive Prog (ρ α τ : Type) where
  | done (t : τ)
  | request (r : ρ) (k : α → Prog ρ α τ)

namespace Prog

variable {ρ α σ τ υ : Type}

def bind : Prog ρ α τ → (τ → Prog ρ α υ) → Prog ρ α υ
  | done t, f => f t
  | request r k, f => request r fun a => (k a).bind f

instance : Monad (Prog ρ α) where
  pure := done
  bind := bind

/-- Make one request and return its answer. -/
def ask (r : ρ) : Prog ρ α α := request r done

/-- Play a program against a handler. -/
def run (handle : σ → ρ → α × σ) : Prog ρ α τ → σ → τ × σ
  | done t, s => (t, s)
  | request r k, s => (k (handle s r).1).run handle (handle s r).2

/-- A handler that writes down what it is asked, and answers as it is told. -/
def record (answer : List ρ → ρ → α) (asked : List ρ) (r : ρ) : α × List ρ :=
  (answer asked r, asked ++ [r])

/-- Whatever the answers are, what the program ends with is `P`. -/
def Ends (P : τ → Prop) : Prog ρ α τ → Prop
  | done t => P t
  | request _ k => ∀ a, (k a).Ends P

/-- Every request is a `G`, and as long as the answers are what `A` allows, what the program ends
with is `P`. -/
def Assures (G : ρ → Prop) (A : ρ → α → Prop) (P : τ → Prop) : Prog ρ α τ → Prop
  | done t => P t
  | request r k => G r ∧ ∀ a, A r a → (k a).Assures G A P

theorem bind_done (p : Prog ρ α τ) : p.bind done = p := by
  induction p with
  | done t => rfl
  | request r k ih => exact congrArg (request r) (funext ih)

theorem bind_assoc {ω : Type} (p : Prog ρ α τ) (f : τ → Prog ρ α υ) (g : υ → Prog ρ α ω) :
    (p.bind f).bind g = p.bind fun t => (f t).bind g := by
  induction p with
  | done t => rfl
  | request r k ih => exact congrArg (request r) (funext ih)

instance : LawfulMonad (Prog ρ α) := LawfulMonad.mk' (Prog ρ α)
  (fun p => bind_done p) (fun _ _ => rfl) (fun p f g => bind_assoc p f g)

@[simp] theorem done_bind (t : τ) (f : τ → Prog ρ α υ) : (done t >>= f) = f t := rfl

@[simp] theorem request_bind (r : ρ) (k : α → Prog ρ α τ) (f : τ → Prog ρ α υ) :
    (request r k >>= f) = request r fun a => k a >>= f := rfl

@[simp] theorem ask_bind (r : ρ) (f : α → Prog ρ α τ) : (ask r >>= f) = request r f := rfl

@[simp] theorem done_map (f : τ → υ) (t : τ) : f <$> (done t : Prog ρ α τ) = done (f t) := rfl

@[simp] theorem request_map (f : τ → υ) (r : ρ) (k : α → Prog ρ α τ) :
    f <$> request r k = request r fun a => f <$> k a := rfl

@[simp] theorem pure_eq (t : τ) : (pure t : Prog ρ α τ) = done t := rfl

theorem Ends.bind {P : τ → Prop} {Q : υ → Prop} {p : Prog ρ α τ} {f : τ → Prog ρ α υ}
    (hp : p.Ends P) (hf : ∀ t, P t → (f t).Ends Q) : (p >>= f).Ends Q := by
  induction p with
  | done t => exact hf t hp
  | request r k ih => exact fun a => ih a (hp a)

theorem Ends.mono {P Q : τ → Prop} {p : Prog ρ α τ} (hp : p.Ends P) (h : ∀ t, P t → Q t) :
    p.Ends Q := by
  induction p with
  | done t => exact h t hp
  | request r k ih => exact fun a => ih a (hp a)

/-- A program that is played ends with a `P` too. -/
theorem Ends.run {P : τ → Prop} {p : Prog ρ α τ} (hp : p.Ends P) (handle : σ → ρ → α × σ)
    (s : σ) : P (p.run handle s).1 := by
  induction p generalizing s with
  | done t => exact hp
  | request r k ih => exact ih _ (hp _) _

variable {G : ρ → Prop} {A : ρ → α → Prop} {P : τ → Prop} {Q : υ → Prop}

theorem Assures.bind {p : Prog ρ α τ} {f : τ → Prog ρ α υ} (hp : p.Assures G A P)
    (hf : ∀ t, P t → (f t).Assures G A Q) : (p >>= f).Assures G A Q := by
  induction p with
  | done t => exact hf t hp
  | request r k ih => exact ⟨hp.1, fun a ha => ih a (hp.2 a ha)⟩

end Prog
