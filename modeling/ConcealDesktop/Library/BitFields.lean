import Mathlib.Data.Nat.Bitwise
import Mathlib.Tactic.Ring

/-! Fields of bits with the most significant bit first, and readers of them. A reader takes what
it wants from the front of the bits and leaves the rest. -/
namespace BitFields

/-- The lowest `n` bits of `v`, the highest of them first. -/
def field : ℕ → ℕ → List Bool
  | 0, _ => []
  | n + 1, v => v.testBit n :: field n v

/-- The number that `bits` spell. -/
def number (bits : List Bool) : ℕ := bits.foldl (fun v b => 2 * v + b.toNat) 0

@[simp] theorem length_field (n v : ℕ) : (field n v).length = n := by
  induction n with
  | zero => rfl
  | succ n ih => rw [field, List.length_cons, ih]

theorem foldl_number (v : ℕ) (bits : List Bool) :
    bits.foldl (fun v b => 2 * v + b.toNat) v = v * 2 ^ bits.length + number bits := by
  induction bits generalizing v with
  | nil => simp [number]
  | cons b bits ih =>
    unfold number
    rw [List.foldl_cons, List.foldl_cons, ih, ih (2 * 0 + b.toNat), List.length_cons]
    ring

@[simp] theorem number_nil : number [] = 0 := rfl

theorem number_append (a b : List Bool) :
    number (a ++ b) = number a * 2 ^ b.length + number b := by
  unfold number
  rw [List.foldl_append]
  exact foldl_number _ b

theorem number_cons (b : Bool) (bits : List Bool) :
    number (b :: bits) = b.toNat * 2 ^ bits.length + number bits := by
  rw [← List.singleton_append, number_append]
  simp [number]

theorem number_lt (bits : List Bool) : number bits < 2 ^ bits.length := by
  induction bits with
  | nil => exact Nat.one_pos
  | cons b bits ih =>
    have hb := Nat.mul_le_mul_right (2 ^ bits.length) (Bool.toNat_le b)
    rw [number_cons, List.length_cons, pow_succ]
    omega

theorem number_field (n v : ℕ) : number (field n v) = v % 2 ^ n := by
  induction n with
  | zero => rw [pow_zero, Nat.mod_one, field, number_nil]
  | succ n ih =>
    rw [field, number_cons, length_field, ih, Nat.toNat_testBit, Nat.mod_pow_succ]
    ring

theorem number_field_of_lt {n v : ℕ} (hv : v < 2 ^ n) : number (field n v) = v :=
  (number_field n v).trans (Nat.mod_eq_of_lt hv)

theorem number_inj {a b : List Bool} (hlength : a.length = b.length)
    (h : number a = number b) : a = b := by
  induction a generalizing b with
  | nil => exact (List.length_eq_zero_iff.mp hlength.symm).symm
  | cons x a ih =>
    cases b with
    | nil => cases hlength
    | cons y b =>
      have hrest : a.length = b.length := Nat.succ.inj hlength
      have ha := number_lt a
      have hb := number_lt b
      rw [number_cons, number_cons, hrest] at h
      rw [hrest] at ha
      have hxy : x = y := by
        cases x <;> cases y <;> simp at h ⊢ <;> omega
      subst hxy
      rw [ih hrest (by omega)]

theorem field_number (bits : List Bool) : field bits.length (number bits) = bits :=
  number_inj (length_field _ _) (number_field_of_lt (number_lt bits))

theorem field_zero (n : ℕ) : field n 0 = List.replicate n false := by
  induction n with
  | zero => rfl
  | succ n ih => rw [field, ih, Nat.zero_testBit, List.replicate_succ]

section Readers

variable {α β : Type*}

abbrev Reader (α : Type*) := List Bool → Option (α × List Bool)

/-- `r` reads `a` from `bits`, whatever follows. -/
def Reads (r : Reader α) (bits : List Bool) (a : α) : Prop :=
  ∀ rest, r (bits ++ rest) = some (a, rest)

def Reader.pure (a : α) : Reader α := fun bits => some (a, bits)

def Reader.bind (r : Reader α) (f : α → Reader β) : Reader β :=
  fun bits => (r bits).bind fun p => f p.1 p.2

/-- The reader of a number of `n` bits. -/
def take (n : ℕ) : Reader ℕ := fun bits =>
  if n ≤ bits.length then some (number (bits.take n), bits.drop n) else none

theorem Reads.pure (a : α) : Reads (Reader.pure a) [] a := fun _ => rfl

theorem Reads.bind {r : Reader α} {f : α → Reader β} {bits bits' : List Bool} {a : α} {b : β}
    (hr : Reads r bits a) (hf : Reads (f a) bits' b) : Reads (r.bind f) (bits ++ bits') b := by
  intro rest
  unfold Reader.bind
  rw [List.append_assoc, hr, Option.bind_some]
  exact hf rest

theorem Reads.bind_pure {r : Reader α} {bits : List Bool} {a : α} (hr : Reads r bits a)
    (f : α → β) : Reads (r.bind fun a => Reader.pure (f a)) bits (f a) := by
  have h := hr.bind (f := fun a => Reader.pure (f a)) (Reads.pure (f a))
  rwa [List.append_nil] at h

theorem Reads.take {n v : ℕ} (hv : v < 2 ^ n) : Reads (take n) (field n v) v := by
  intro rest
  have hle : n ≤ (field n v ++ rest).length := by
    rw [List.length_append, length_field]
    exact Nat.le_add_right n _
  have htake : (field n v ++ rest).take n = field n v := List.take_left' (length_field n v)
  have hdrop : (field n v ++ rest).drop n = rest := List.drop_left' (length_field n v)
  unfold BitFields.take
  rw [if_pos hle, htake, hdrop, number_field_of_lt hv]

theorem Reads.take_bind {n v : ℕ} {f : ℕ → Reader β} {bits : List Bool} {b : β}
    (hv : v < 2 ^ n) (hf : Reads (f v) bits b) :
    Reads ((BitFields.take n).bind f) (field n v ++ bits) b :=
  (Reads.take hv).bind hf

end Readers

end BitFields
