import Mathlib.Logic.Basic

/-! Programs over a state that may return a value, throw an exception or fault. A fault stands for
an operation without a defined result, which no handler catches. The weakest precondition of a
program says that it does not fault and that its value or exception meets a postcondition. -/
namespace Programs

inductive Result (σ α : Type) where
  | value (a : α) (t : σ)
  | thrown (t : σ)
  | fault

def Program (σ α : Type) := σ → Result σ α

namespace Program

variable {σ α β : Type}

/-- Runs the rest on the value and lets exceptions and faults pass. -/
protected def bind (p : Program σ α) (f : α → Program σ β) : Program σ β := fun s =>
  match p s with
  | .value a t => f a t
  | .thrown t => .thrown t
  | .fault => .fault

instance : Monad (Program σ) where
  pure a := fun s => .value a s
  bind := Program.bind

def get : Program σ σ := fun s => .value s s

def modify (f : σ → σ) : Program σ Unit := fun s => .value () (f s)

/-- Throws an exception without touching the state. -/
def raise : Program σ α := fun s => .thrown s

def crash : Program σ α := fun _ => .fault

/-- Runs `handler` from the state in which `body` has thrown. -/
def rescue (body handler : Program σ α) : Program σ α := fun s =>
  match body s with
  | .value a t => .value a t
  | .thrown t => handler t
  | .fault => .fault

/-- The program does not fault, a value meets `Q`, and an exception leaves a state in `E`. -/
def wp (p : Program σ α) (Q : α → σ → Prop) (E : σ → Prop) (s : σ) : Prop :=
  match p s with
  | .value a t => Q a t
  | .thrown t => E t
  | .fault => False

variable {Q Q' : α → σ → Prop} {E E' : σ → Prop} {s : σ}

/-- A program that begins by reading the state runs on with it. -/
theorem get_bind (f : σ → Program σ β) : (get >>= f) s = f s s := rfl

@[simp] theorem wp_pure (a : α) : wp (pure a : Program σ α) Q E s ↔ Q a s := Iff.rfl

@[simp] theorem wp_get {Q : σ → σ → Prop} : wp get Q E s ↔ Q s s := Iff.rfl

@[simp] theorem wp_modify (f : σ → σ) {Q : Unit → σ → Prop} :
    wp (modify f) Q E s ↔ Q () (f s) := Iff.rfl

@[simp] theorem wp_raise : wp (raise : Program σ α) Q E s ↔ E s := Iff.rfl

@[simp] theorem wp_crash : wp (crash : Program σ α) Q E s ↔ False := Iff.rfl

@[simp] theorem wp_bind (p : Program σ α) (f : α → Program σ β) {Q : β → σ → Prop} :
    wp (p >>= f) Q E s ↔ wp p (fun a t => wp (f a) Q E t) E s := by
  show wp (Program.bind p f) Q E s ↔ _
  unfold wp Program.bind
  cases p s <;> exact Iff.rfl

@[simp] theorem wp_rescue (body handler : Program σ α) :
    wp (rescue body handler) Q E s ↔ wp body Q (fun t => wp handler Q E t) s := by
  unfold wp rescue
  cases body s <;> exact Iff.rfl

@[simp] theorem wp_ite (c : Prop) [Decidable c] (p q : Program σ α) :
    wp (if c then p else q) Q E s ↔ (c → wp p Q E s) ∧ (¬ c → wp q Q E s) := by
  by_cases hc : c
  · simp only [hc, ↓reduceIte, forall_const, not_true_eq_false, false_implies, and_true]
  · simp only [hc, ↓reduceIte, false_implies, not_false_eq_true, forall_const, true_and]

/-- Weaker postconditions have weaker preconditions. -/
theorem wp_mono {p : Program σ α} (h : wp p Q E s) (hQ : ∀ a t, Q a t → Q' a t)
    (hE : ∀ t, E t → E' t) : wp p Q' E' s := by
  unfold wp at *
  cases hp : p s with
  | value a t => rw [hp] at h; exact hQ a t h
  | thrown t => rw [hp] at h; exact hE t h
  | fault => rw [hp] at h; exact h

/-- Two postconditions of one run hold together. -/
theorem wp_and {p : Program σ α} (h : wp p Q E s) (h' : wp p Q' E' s) :
    wp p (fun a t => Q a t ∧ Q' a t) (fun t => E t ∧ E' t) s := by
  unfold wp at *
  cases hp : p s with
  | value a t => rw [hp] at h h'; exact ⟨h, h'⟩
  | thrown t => rw [hp] at h h'; exact ⟨h, h'⟩
  | fault => rw [hp] at h; exact h

/-- A run ends somewhere, so what all its ends imply holds. -/
theorem wp_elim {p : Program σ α} {C : Prop} (h : wp p Q E s) (hQ : ∀ a t, Q a t → C)
    (hE : ∀ t, E t → C) : C := by
  unfold wp at h
  cases hp : p s with
  | value a t => rw [hp] at h; exact hQ a t h
  | thrown t => rw [hp] at h; exact hE t h
  | fault => rw [hp] at h; exact h.elim

end Program
end Programs
