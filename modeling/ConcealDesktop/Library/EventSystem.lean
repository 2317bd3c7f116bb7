import Mathlib.Logic.Basic
import Mathlib.Data.List.Basic

/-! Event-driven components. A component is a state, the events that may be delivered in it
and the handler that each event runs. A history lists the delivered events, latest first, so
that an induction on the history follows the order of time. -/
namespace EventDriven

structure EventSystem (σ ε : Type*) where
  init : σ
  enabled : σ → ε → Prop
  handle : σ → ε → σ

namespace EventSystem

variable {σ ε : Type*} (M : EventSystem σ ε)

/-- The state in which a history leaves the component. -/
def after : List ε → σ
  | [] => M.init
  | e :: earlier => M.handle (after earlier) e

/-- Every event of the history was delivered in a state that `P` relates to it. -/
def Always (P : σ → ε → Prop) : List ε → Prop
  | [] => True
  | e :: earlier => P (M.after earlier) e ∧ Always P earlier

/-- The histories in which every event was enabled when it was delivered. -/
def Admissible (h : List ε) : Prop := M.Always M.enabled h

@[simp] theorem after_nil : M.after [] = M.init := rfl

@[simp] theorem after_cons (e : ε) (h : List ε) :
    M.after (e :: h) = M.handle (M.after h) e := rfl

@[simp] theorem always_nil (P : σ → ε → Prop) : M.Always P [] := trivial

@[simp] theorem always_cons (P : σ → ε → Prop) (e : ε) (h : List ε) :
    M.Always P (e :: h) ↔ P (M.after h) e ∧ M.Always P h := Iff.rfl

instance decidableAlways (P : σ → ε → Prop) [∀ s e, Decidable (P s e)] :
    (h : List ε) → Decidable (M.Always P h)
  | [] => inferInstanceAs (Decidable True)
  | e :: h =>
    have := decidableAlways P h
    inferInstanceAs (Decidable (P (M.after h) e ∧ M.Always P h))

instance decidableAdmissible [∀ s e, Decidable (M.enabled s e)] (h : List ε) :
    Decidable (M.Admissible h) :=
  inferInstanceAs (Decidable (M.Always M.enabled h))

/-- Some admissible continuation of the history, perhaps itself, has the property. -/
def CanReach (h : List ε) (T : List ε → Prop) : Prop :=
  ∃ later, M.Admissible (later ++ h) ∧ T (later ++ h)

variable {M} {I : σ → Prop} {P Q R : σ → ε → Prop}

theorem Admissible.cons {e : ε} {h : List ε} (he : M.enabled (M.after h) e)
    (hh : M.Admissible h) : M.Admissible (e :: h) := ⟨he, hh⟩

theorem CanReach.here {h : List ε} {T : List ε → Prop} (hh : M.Admissible h) (hT : T h) :
    M.CanReach h T := ⟨[], hh, hT⟩

/-- A property that can be reached in two stages can be reached. -/
theorem CanReach.trans {h : List ε} {T U : List ε → Prop} (hT : M.CanReach h T)
    (hU : ∀ h', M.Admissible h' → T h' → M.CanReach h' U) : M.CanReach h U := by
  obtain ⟨later, hadmissible, hlater⟩ := hT
  obtain ⟨last, hlast, hreached⟩ := hU _ hadmissible hlater
  rw [← List.append_assoc] at hlast hreached
  exact ⟨last ++ later, hlast, hreached⟩

theorem CanReach.step {e : ε} {h : List ε} {T : List ε → Prop}
    (he : M.CanReach (e :: h) T) : M.CanReach h T := by
  obtain ⟨later, hadmissible, hlater⟩ := he
  rw [List.append_cons] at hadmissible hlater
  exact ⟨later ++ [e], hadmissible, hlater⟩

theorem Always.of_forall (hP : ∀ s e, P s e) (h : List ε) : M.Always P h := by
  induction h with
  | nil => trivial
  | cons e h ih => exact ⟨hP _ e, ih⟩

theorem Always.mono (hPQ : ∀ s e, P s e → Q s e) {h : List ε} (hP : M.Always P h) :
    M.Always Q h := by
  induction h with
  | nil => trivial
  | cons e h ih => exact ⟨hPQ _ e hP.1, ih hP.2⟩

/-- The induction over a history: what every permitted step keeps holds at its end. -/
theorem Always.invariant (hinit : I M.init)
    (hstep : ∀ s e, I s → P s e → I (M.handle s e)) {h : List ε} (hP : M.Always P h) :
    I (M.after h) := by
  induction h with
  | nil => exact hinit
  | cons e h ih => exact hstep _ e (ih hP.2) hP.1

/-- What every permitted step from the invariant satisfies holds along a history. -/
theorem Always.of_invariant (hinit : I M.init)
    (hstep : ∀ s e, I s → P s e → I (M.handle s e))
    (hPQ : ∀ s e, I s → P s e → Q s e) {h : List ε} (hP : M.Always P h) : M.Always Q h := by
  induction h with
  | nil => trivial
  | cons e h ih =>
    have hbefore : I (M.after h) := Always.invariant hinit hstep hP.2
    exact ⟨hPQ _ e hbefore hP.1, ih hP.2⟩

theorem Always.and {h : List ε} (hP : M.Always P h) (hQ : M.Always Q h) :
    M.Always (fun s e => P s e ∧ Q s e) h := by
  induction h with
  | nil => trivial
  | cons e h ih => exact ⟨⟨hP.1, hQ.1⟩, ih hP.2 hQ.2⟩

/-- Two conditions that agree on every step taken from the invariant agree on histories. The
invariant may rest on either of them, since both hold of the earlier events. -/
theorem always_iff_of_invariant (hinit : I M.init)
    (hstep : ∀ s e, I s → P s e → R s e → I (M.handle s e))
    (hiff : ∀ s e, I s → P s e → (Q s e ↔ R s e)) {h : List ε} (hP : M.Always P h) :
    M.Always Q h ↔ M.Always R h := by
  have inv {h : List ε} (hP : M.Always P h) (hR : M.Always R h) : I (M.after h) :=
    Always.invariant hinit (fun s e hi hs => hstep s e hi hs.1 hs.2) (hP.and hR)
  induction h with
  | nil => exact Iff.rfl
  | cons e h ih =>
    constructor
    · rintro ⟨hq, hqs⟩
      have hrs := (ih hP.2).mp hqs
      exact ⟨(hiff _ e (inv hP.2 hrs) hP.1).mp hq, hrs⟩
    · rintro ⟨hr, hrs⟩
      exact ⟨(hiff _ e (inv hP.2 hrs) hP.1).mpr hr, (ih hP.2).mpr hrs⟩

end EventSystem
end EventDriven
