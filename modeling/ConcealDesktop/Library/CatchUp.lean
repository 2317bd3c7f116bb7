import Mathlib.Data.List.Range
import Mathlib.Order.Lattice

/-! Lists that are filled from a numbered source. A loop visits consecutive numbers and takes in
each one that the source has; the source has exactly the numbers below its count. The rules say
how far the list is filled when the loop ends, wherever it starts. -/
namespace EventDriven.CatchUp

variable {σ : Type*} (Filled : ℕ → σ → Prop) {take : σ → ℕ → σ} {count : ℕ}

/-- A loop beyond the source takes nothing in. -/
theorem foldl_of_count_le (hskip : ∀ s i, count ≤ i → take s i = s) (s : σ) {start : ℕ}
    (h : count ≤ start) (k : ℕ) : (List.range' start k).foldl take s = s := by
  induction k generalizing start with
  | zero => rfl
  | succ k ih => rw [List.range'_succ, List.foldl_cons, hskip s start h, ih (Nat.le_succ_of_le h)]

/-- A loop that starts at the first missing number. -/
theorem foldl_filled (hskip : ∀ s i, count ≤ i → take s i = s)
    (hstep : ∀ s n, n < count → Filled n s → Filled (n + 1) (take s n)) {s : σ} {n : ℕ}
    (hs : Filled n s) (k : ℕ) :
    Filled (max n (min (n + k) count)) ((List.range' n k).foldl take s) := by
  induction k generalizing s n with
  | zero => simpa using hs
  | succ k ih =>
    rw [List.range'_succ, List.foldl_cons]
    by_cases hn : n < count
    · have hmax : max n (min (n + (k + 1)) count) = max (n + 1) (min (n + 1 + k) count) := by omega
      rw [hmax]
      exact ih (hstep s n hn hs)
    · have hle : count ≤ n := not_lt.mp hn
      have hmax : max n (min (n + (k + 1)) count) = n := by omega
      rw [hskip s n hle, foldl_of_count_le hskip s (Nat.le_succ_of_le hle), hmax]
      exact hs

/-- A loop that starts at or before the first missing number and passes over the present ones. -/
theorem foldl_filled_of_le (hskip : ∀ s i, count ≤ i → take s i = s)
    (hpresent : ∀ s n i, i < n → Filled n s → take s i = s)
    (hstep : ∀ s n, n < count → Filled n s → Filled (n + 1) (take s n)) {s : σ} {n start : ℕ}
    (hs : Filled n s) (h : start ≤ n) (k : ℕ) :
    Filled (max n (min (start + k) count)) ((List.range' start k).foldl take s) := by
  induction k generalizing start with
  | zero =>
    have hmax : max n (min (start + 0) count) = n := by omega
    rwa [hmax]
  | succ k ih =>
    rcases h.lt_or_eq with hlt | rfl
    · rw [List.range'_succ, List.foldl_cons, hpresent s n start hlt hs]
      have hadd : start + (k + 1) = start + 1 + k := by omega
      rw [hadd]
      exact ih hlt
    · exact foldl_filled Filled hskip hstep hs (k + 1)

theorem take_range' (start n k : ℕ) :
    (List.range' start n).take k = List.range' start (min k n) := by
  rcases le_total k n with h | h
  · rw [List.take_range'_of_length_ge h, min_eq_left h]
  · rw [List.take_range'_of_length_le h, min_eq_right h]

theorem range'_append_of_le {n m : ℕ} (h : n ≤ m) :
    List.range' 0 n ++ List.range' n (m - n) = List.range' 0 m := by
  have happend : List.range' 0 n ++ List.range' (0 + n) (m - n) = List.range' 0 (n + (m - n)) :=
    List.range'_append_1
  rwa [Nat.zero_add, Nat.add_sub_cancel' h] at happend

end EventDriven.CatchUp
