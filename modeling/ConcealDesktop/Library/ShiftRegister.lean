import Mathlib.Data.List.Induction
import Mathlib.Tactic.Ring

/-! Shift registers with feedback as a division of polynomials. A word stands for the polynomial
whose coefficients it lists, the highest one first. The register of a monic polynomial, run over
a word, ends with the remainder of the word moved up by the length of the register. -/
namespace ShiftRegister

variable {R : Type*} [CommRing R]

/-- The value of a word at a point. -/
def value (x : R) (word : List R) : R := word.foldl (fun v c => v * x + c) 0

theorem foldl_value (x v : R) (word : List R) :
    word.foldl (fun v c => v * x + c) v = v * x ^ word.length + value x word := by
  induction word generalizing v with
  | nil => simp [value]
  | cons c word ih =>
    unfold value
    rw [List.foldl_cons, List.foldl_cons, ih, ih (0 * x + c), List.length_cons]
    ring

theorem value_append (x : R) (a b : List R) :
    value x (a ++ b) = value x a * x ^ b.length + value x b := by
  unfold value
  rw [List.foldl_append]
  exact foldl_value x _ b

@[simp] theorem value_nil (x : R) : value x [] = 0 := rfl

@[simp] theorem value_singleton (x c : R) : value x [c] = c := by
  simp [value]

theorem value_cons (x c : R) (word : List R) :
    value x (c :: word) = c * x ^ word.length + value x word := by
  rw [← List.singleton_append, value_append, value_singleton]

theorem value_concat (x c : R) (word : List R) : value x (word ++ [c]) = value x word * x + c := by
  rw [value_append, value_singleton, List.length_singleton, pow_one]

theorem value_reverse_cons (x c : R) (word : List R) :
    value x (c :: word).reverse = value x word.reverse * x + c := by
  rw [List.reverse_cons, value_concat]

/-- The coefficients of a monic polynomial, the lowest one first, after a multiplication by a
linear factor; `scale` multiplies by its constant. -/
def mulLinear (scale : R → R) (word : List R) : List R :=
  (word.map scale).headD 0 :: List.zipWith (· + ·) word (word.map scale).tail ++ [1]

theorem length_mulLinear (scale : R → R) {word : List R} (hne : word ≠ []) :
    (mulLinear scale word).length = word.length + 1 := by
  have hpos := List.length_pos_iff.mpr hne
  unfold mulLinear
  rw [List.length_append, List.length_cons, List.length_zipWith, List.length_tail,
    List.length_map, List.length_singleton]
  omega

theorem value_mulLinear {scale : R → R} {a : R} (hscale : ∀ c, scale c = a * c) (x : R)
    (word : List R) : value x (mulLinear scale (word ++ [1])).reverse =
      (x + a) * value x (word ++ [1]).reverse := by
  induction word with
  | nil =>
    simp only [mulLinear, List.nil_append, List.map_singleton, List.headD_cons, List.tail_cons,
      List.zipWith_nil_right, List.cons_append, List.reverse_cons, List.reverse_nil, hscale]
    simp only [value, List.foldl_cons, List.foldl_nil]
    ring
  | cons c word ih =>
    have hrest : value x (mulLinear scale (c :: (word ++ [1]))).reverse =
        (value x (mulLinear scale (word ++ [1])).reverse + c) * x + scale c := by
      cases word with
      | nil =>
        simp only [mulLinear, List.nil_append, List.map_cons, List.map_nil, List.headD_cons,
          List.tail_cons, List.zipWith_cons_cons, List.zipWith_nil_right, List.cons_append,
          value_reverse_cons]
        ring
      | cons d word =>
        simp only [mulLinear, List.map_cons, List.headD_cons, List.tail_cons,
          List.zipWith_cons_cons, List.cons_append, value_reverse_cons]
        ring
    rw [List.cons_append, hrest, ih, value_reverse_cons, hscale]
    ring

/-- Two words of one length, the second one multiplied by a factor. -/
theorem value_zipWith (x f : R) {a b : List R} (h : a.length = b.length) :
    value x (List.zipWith (fun c t => c + f * t) a b) = value x a + f * value x b := by
  induction a generalizing b with
  | nil =>
    rw [List.length_nil] at h
    rw [List.zipWith_nil_left, List.length_eq_zero_iff.mp h.symm]
    simp
  | cons c a ih =>
    cases b with
    | nil => cases h
    | cons t b =>
      have htail : a.length = b.length := Nat.succ.inj h
      rw [List.zipWith_cons_cons, value_cons, value_cons, value_cons, ih htail,
        List.length_zipWith, ← htail, Nat.min_self]
      ring

theorem value_replicate_zero (x : R) (n : ℕ) : value x (List.replicate n 0) = 0 := by
  induction n with
  | zero => rfl
  | succ n ih =>
    rw [List.replicate_succ, value_cons, ih]
    ring

/-- One step of the register: what leaves it, together with the input, is fed back at the taps. -/
def step (taps register : List R) (input : R) : List R :=
  let feedback := input + register.headD 0
  List.zipWith (fun c t => c + feedback * t) (register.tail ++ [0]) taps

/-- The register of the monic polynomial from whose leading power `taps` is subtracted. -/
def run (taps word : List R) : List R :=
  word.foldl (step taps) (List.replicate taps.length 0)

variable {taps : List R}

theorem length_step {register : List R} (hne : taps ≠ []) (h : register.length = taps.length)
    (input : R) : (step taps register input).length = taps.length := by
  have hpos := List.length_pos_iff.mpr hne
  unfold step
  rw [List.length_zipWith, List.length_append, List.length_tail, List.length_singleton, h]
  omega

theorem length_run (hne : taps ≠ []) (word : List R) : (run taps word).length = taps.length := by
  unfold run
  induction word using List.reverseRecOn with
  | nil => exact List.length_replicate
  | append_singleton word d ih =>
    rw [List.foldl_append]
    exact length_step hne ih d

/-- At a root of the polynomial a step multiplies by the point and takes in the input. -/
theorem value_step {x : R} {register : List R} (hne : taps ≠ [])
    (h : register.length = taps.length) (hroot : value x taps = x ^ taps.length) (input : R) :
    value x (step taps register input) = value x register * x + input * x ^ taps.length := by
  cases register with
  | nil => exact absurd (List.length_eq_zero_iff.mp h.symm) hne
  | cons c register =>
    have hlength : (register ++ [0]).length = taps.length := by
      rw [List.length_append]
      exact h
    have hpow : x ^ taps.length = x ^ register.length * x := by
      rw [← h, List.length_cons, pow_succ]
    have hstep : step taps (c :: register) input =
        List.zipWith (fun r t => r + (input + c) * t) (register ++ [0]) taps := rfl
    rw [hstep, value_zipWith x _ hlength, hroot, value_concat, value_cons, hpow]
    ring

/-- The register holds the word, moved up by its length, at every root of the polynomial. -/
theorem value_run {x : R} (hne : taps ≠ []) (hroot : value x taps = x ^ taps.length)
    (word : List R) : value x (run taps word) = value x word * x ^ taps.length := by
  induction word using List.reverseRecOn with
  | nil =>
    rw [value_nil, zero_mul]
    exact value_replicate_zero x taps.length
  | append_singleton word d ih =>
    have hstep : run taps (word ++ [d]) = step taps (run taps word) d := List.foldl_append
    rw [hstep, value_step hne (length_run hne word) hroot, ih, value_concat]
    ring

end ShiftRegister
