import Mathlib.Logic.Basic
import Mathlib.Tactic.SplitIfs

/-! Handlers that stop at the first failed check. A handler is a chain of checks and lookups in
Except; the lemmas say what a run that comes to a result, or to one of the stops, has passed. -/
namespace Checks

variable {ε α β : Type} {e e' : ε}

/-- Stops with the reason given if the condition holds. -/
def stopIf (c : Bool) (e : ε) : Except ε Unit := if c then .error e else .ok ()

/-- Passes on a value that has been checked. -/
def require (valid : α → Bool) (e : ε) (a : α) : Except ε α := if valid a then .ok a else .error e

theorem bind_eq_ok_iff {x : Except ε α} {f : α → Except ε β} {b : β} :
    (x >>= f) = .ok b ↔ ∃ a, x = .ok a ∧ f a = .ok b := by
  cases x with
  | error e => simp [bind, Except.bind]
  | ok a => simp [bind, Except.bind]

theorem bind_eq_error_iff {x : Except ε α} {f : α → Except ε β} :
    (x >>= f) = .error e ↔ x = .error e ∨ ∃ a, x = .ok a ∧ f a = .error e := by
  cases x with
  | error e => simp [bind, Except.bind]
  | ok a => simp [bind, Except.bind]

theorem stopIf_eq_ok_iff {c : Bool} {u : Unit} : stopIf c e = .ok u ↔ c = false := by
  cases c <;> simp [stopIf]

theorem stopIf_eq_error_iff {c : Bool} : stopIf c e = .error e' ↔ c = true ∧ e = e' := by
  cases c <;> simp [stopIf]

theorem require_eq_ok_iff {valid : α → Bool} {a b : α} :
    require valid e a = .ok b ↔ valid a = true ∧ a = b := by
  unfold require
  split_ifs with h <;> simp [h]

theorem require_eq_error_iff {valid : α → Bool} {a : α} :
    require valid e a = .error e' ↔ valid a = false ∧ e = e' := by
  unfold require
  split_ifs with h <;> simp [h]

end Checks
