import Mathlib.Algebra.Field.Basic
import Mathlib.Algebra.Group.Hom.Basic

/-! Fields given by a table of exponents. In an additive group, an additive map that leads from one
element to every nonzero element, and back to the first one, makes the group a field: a product
is the map applied as often as the logarithm of the first factor says. -/
namespace ExponentField

/-- Every nonzero element is a power: `shift` applied to `one` as often as its logarithm says. -/
structure Powers (V : Type*) [AddCommGroup V] where
  shift : V →+ V
  one : V
  log : V → ℕ
  period : ℕ
  one_ne_zero : one ≠ 0
  shift_log : ∀ v, v ≠ 0 → shift^[log v] one = v
  period_pos : 0 < period
  shift_period : shift^[period] one = one

namespace Powers

variable {V : Type*} [AddCommGroup V] (p : Powers V)

def exp (n : ℕ) : V := p.shift^[n] p.one

theorem exp_log {v : V} (hv : v ≠ 0) : p.exp (p.log v) = v := p.shift_log v hv

theorem shift_exp (m n : ℕ) : p.shift^[m] (p.exp n) = p.exp (m + n) :=
  (Function.iterate_add_apply p.shift m n p.one).symm

theorem shift_zero (n : ℕ) : p.shift^[n] 0 = 0 := Function.iterate_fixed (map_zero p.shift) n

theorem shift_add (n : ℕ) (v w : V) : p.shift^[n] (v + w) = p.shift^[n] v + p.shift^[n] w := by
  induction n generalizing v w with
  | zero => rfl
  | succ n ih =>
    rw [Function.iterate_succ_apply, map_add, ih]
    rfl

theorem exp_period_mul (n : ℕ) : p.exp (p.period * n) = p.one := by
  unfold exp
  rw [Function.iterate_mul]
  exact Function.iterate_fixed p.shift_period n

/-- The powers come back to one, so none of them is zero. -/
theorem exp_ne_zero (n : ℕ) : p.exp n ≠ 0 := by
  intro h
  have hle : n ≤ p.period * n := Nat.le_mul_of_pos_left n p.period_pos
  apply p.one_ne_zero
  rw [← p.exp_period_mul n, ← Nat.sub_add_cancel hle, ← p.shift_exp, h, p.shift_zero]

theorem exp_mod (n : ℕ) : p.exp (n % p.period) = p.exp n := by
  have h := p.shift_exp (n % p.period) (p.period * (n / p.period))
  rw [p.exp_period_mul, Nat.mod_add_div] at h
  exact h

section Product

variable [DecidableEq V]

def mul (v w : V) : V := if v = 0 then 0 else p.shift^[p.log v] w

/-- The logarithm of the first factor plays no part beyond its power. -/
theorem mul_exp (n : ℕ) (w : V) : p.mul (p.exp n) w = p.shift^[n] w := by
  unfold mul
  rw [if_neg (p.exp_ne_zero n)]
  by_cases hw : w = 0
  · rw [hw, p.shift_zero, p.shift_zero]
  · rw [← p.exp_log hw, p.shift_exp, Nat.add_comm, ← p.shift_exp, p.exp_log (p.exp_ne_zero n),
      p.shift_exp, p.shift_exp, Nat.add_comm]

theorem exp_mul_exp (m n : ℕ) : p.mul (p.exp m) (p.exp n) = p.exp (m + n) := by
  rw [p.mul_exp, p.shift_exp]

theorem zero_mul (v : V) : p.mul 0 v = 0 := if_pos rfl

theorem mul_zero (v : V) : p.mul v 0 = 0 := by
  unfold mul
  split_ifs
  · rfl
  · exact p.shift_zero _

/-- Every element is zero or a power. -/
theorem zero_or_exp (v : V) : v = 0 ∨ ∃ n, v = p.exp n := by
  by_cases hv : v = 0
  · exact .inl hv
  · exact .inr ⟨p.log v, (p.exp_log hv).symm⟩

theorem mul_comm (v w : V) : p.mul v w = p.mul w v := by
  obtain rfl | ⟨m, rfl⟩ := p.zero_or_exp v
  · rw [p.zero_mul, p.mul_zero]
  obtain rfl | ⟨n, rfl⟩ := p.zero_or_exp w
  · rw [p.zero_mul, p.mul_zero]
  rw [p.exp_mul_exp, p.exp_mul_exp, Nat.add_comm]

theorem mul_add (v w u : V) : p.mul v (w + u) = p.mul v w + p.mul v u := by
  obtain rfl | ⟨m, rfl⟩ := p.zero_or_exp v
  · rw [p.zero_mul, p.zero_mul, p.zero_mul, add_zero]
  · rw [p.mul_exp, p.mul_exp, p.mul_exp, p.shift_add]

theorem mul_assoc (v w u : V) : p.mul (p.mul v w) u = p.mul v (p.mul w u) := by
  obtain rfl | ⟨m, rfl⟩ := p.zero_or_exp v
  · rw [p.zero_mul, p.zero_mul, p.zero_mul]
  obtain rfl | ⟨n, rfl⟩ := p.zero_or_exp w
  · rw [p.mul_zero, p.zero_mul, p.mul_zero]
  rw [p.exp_mul_exp, p.mul_exp, p.mul_exp, p.mul_exp, Function.iterate_add_apply]

theorem one_mul (v : V) : p.mul p.one v = v := p.mul_exp 0 v

def inv (v : V) : V := if v = 0 then 0 else p.exp ((p.period - 1) * p.log v)

theorem mul_inv {v : V} (hv : v ≠ 0) : p.mul v (p.inv v) = p.one := by
  have hsum : p.log v + (p.period - 1) * p.log v = p.period * p.log v := by
    rw [Nat.sub_one_mul]
    exact Nat.add_sub_cancel' (Nat.le_mul_of_pos_left _ p.period_pos)
  unfold inv
  rw [if_neg hv]
  have h := p.exp_mul_exp (p.log v) ((p.period - 1) * p.log v)
  rw [p.exp_log hv, hsum, p.exp_period_mul] at h
  exact h

/-- The field with the addition of the group. -/
@[reducible] def toField : Field V :=
  { (inferInstance : AddCommGroup V) with
    mul := p.mul
    one := p.one
    inv := p.inv
    left_distrib := p.mul_add
    right_distrib := by
      intro v w u
      show p.mul (v + w) u = p.mul v u + p.mul w u
      rw [p.mul_comm, p.mul_add, p.mul_comm u v, p.mul_comm u w]
    zero_mul := p.zero_mul
    mul_zero := p.mul_zero
    mul_assoc := p.mul_assoc
    one_mul := p.one_mul
    mul_one := by
      intro v
      show p.mul v p.one = v
      rw [p.mul_comm, p.one_mul]
    mul_comm := p.mul_comm
    exists_pair_ne := ⟨p.one, 0, p.one_ne_zero⟩
    mul_inv_cancel := fun _ => p.mul_inv
    inv_zero := if_pos rfl
    nnqsmul := _
    qsmul := _ }

end Product
end Powers
end ExponentField
