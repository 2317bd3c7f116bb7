import Mathlib.Algebra.Order.BigOperators.Group.List
import Mathlib.Algebra.Ring.Nat
import Mathlib.Data.List.GetD

/-! Rows of different lengths sent column by column, and their way back. A row that has ended
takes no part in the later columns. -/
namespace Interleaving

variable {α : Type*}

section Pieces

/-- The first `n` pieces of `k` elements each. -/
def pieces (k n : ℕ) (l : List α) : List (List α) :=
  (List.range n).map fun i => (l.drop (k * i)).take k

@[simp] theorem length_pieces (k n : ℕ) (l : List α) : (pieces k n l).length = n := by
  unfold pieces
  rw [List.length_map, List.length_range]

theorem pieces_succ (k n : ℕ) (l : List α) :
    pieces k (n + 1) l = l.take k :: pieces k n (l.drop k) := by
  unfold pieces
  rw [List.range_succ_eq_map, List.map_cons, List.map_map, Nat.mul_zero, List.drop_zero]
  congr 1
  apply List.map_congr_left
  intro i _
  show (l.drop (k * (i + 1))).take k = ((l.drop k).drop (k * i)).take k
  rw [List.drop_drop, Nat.mul_succ, Nat.add_comm]

theorem flatten_pieces (k n : ℕ) (l : List α) : (pieces k n l).flatten = l.take (k * n) := by
  induction n generalizing l with
  | zero => rfl
  | succ n ih =>
    rw [pieces_succ, List.flatten_cons, ih, ← List.take_add, Nat.mul_succ, Nat.add_comm]

theorem length_of_mem_pieces {k n : ℕ} {l piece : List α} (h : k * n ≤ l.length)
    (hpiece : piece ∈ pieces k n l) : piece.length = k := by
  obtain ⟨i, hi, rfl⟩ := List.mem_map.mp hpiece
  have hin : k * (i + 1) ≤ k * n := Nat.mul_le_mul_left k (List.mem_range.mp hi)
  rw [Nat.mul_succ] at hin
  rw [List.length_take, List.length_drop]
  omega

theorem pieces_flatten {k : ℕ} {rows : List (List α)} (h : ∀ row ∈ rows, row.length = k)
    (rest : List α) : pieces k rows.length (rows.flatten ++ rest) = rows := by
  induction rows with
  | nil => rfl
  | cons row rows ih =>
    have hrow : row.length = k := h row List.mem_cons_self
    rw [List.length_cons, pieces_succ, List.flatten_cons, List.append_assoc,
      List.take_left' hrow, List.drop_left' hrow,
      ih fun row hmem => h row (List.mem_cons_of_mem _ hmem)]

end Pieces

/-- The first `n` columns of `rows`, one after the other. -/
def columns : ℕ → List (List α) → List α
  | 0, _ => []
  | n + 1, rows => rows.filterMap List.head? ++ columns n (rows.map List.tail)

theorem columns_add (m n : ℕ) (rows : List (List α)) :
    columns (m + n) rows = columns m rows ++ columns n (rows.map (List.drop m)) := by
  induction m generalizing rows with
  | zero =>
    rw [Nat.zero_add, columns, List.nil_append]
    congr 1
    exact (List.map_id rows).symm
  | succ m ih =>
    rw [Nat.succ_add, columns, columns, ih, List.append_assoc, List.map_map]
    congr 3
    apply List.map_congr_left
    intro row _
    exact List.drop_tail

/-- How many of the rows take part in a column. -/
def room (lengths : List ℕ) : ℕ := lengths.countP (0 < ·)

/-- One element for every row with room. -/
def deal : List ℕ → List α → List (List α)
  | [], _ => []
  | 0 :: lengths, codes => [] :: deal lengths codes
  | (_ + 1) :: lengths, codes => codes.take 1 :: deal lengths (codes.drop 1)

/-- The rows of these lengths back from their columns. -/
def rowsOf : ℕ → List ℕ → List α → List (List α)
  | 0, lengths, _ => lengths.map fun _ => []
  | n + 1, lengths, codes =>
    List.zipWith (· ++ ·) (deal lengths codes)
      (rowsOf n (lengths.map (· - 1)) (codes.drop (room lengths)))

theorem forall_mem_tails {P : ℕ → Prop} {rows : List (List α)}
    (h : ∀ row ∈ rows, P (row.length - 1)) : ∀ row ∈ rows.map List.tail, P row.length := by
  intro row hrow
  obtain ⟨whole, hwhole, rfl⟩ := List.mem_map.mp hrow
  rw [List.length_tail]
  exact h whole hwhole

theorem length_filterMap_head? (rows : List (List α)) :
    (rows.filterMap List.head?).length = room (rows.map List.length) := by
  induction rows with
  | nil => rfl
  | cons row rows ih =>
    unfold room at ih ⊢
    cases row with
    | nil =>
      rw [List.filterMap_cons_none rfl]
      simpa using ih
    | cons a row => simpa using ih

theorem lengths_tail (rows : List (List α)) :
    (rows.map List.tail).map List.length = (rows.map List.length).map (· - 1) := by
  rw [List.map_map, List.map_map]
  apply List.map_congr_left
  intro row _
  exact List.length_tail

theorem deal_heads (rows : List (List α)) (rest : List α) :
    deal (rows.map List.length) (rows.filterMap List.head? ++ rest) = rows.map (List.take 1) := by
  induction rows with
  | nil => rfl
  | cons row rows ih =>
    cases row with
    | nil => exact congrArg (List.cons []) ih
    | cons a row => exact congrArg (List.cons [a]) ih

theorem zipWith_take_tail (rows : List (List α)) :
    List.zipWith (· ++ ·) (rows.map (List.take 1)) (rows.map List.tail) = rows := by
  induction rows with
  | nil => rfl
  | cons row rows ih =>
    rw [List.map_cons, List.map_cons, List.zipWith_cons_cons, ih, ← List.drop_one,
      List.take_append_drop]

/-- The columns can be sorted back into the rows. -/
theorem rowsOf_columns {n : ℕ} {rows : List (List α)} (h : ∀ row ∈ rows, row.length ≤ n)
    (rest : List α) : rowsOf n (rows.map List.length) (columns n rows ++ rest) = rows := by
  induction n generalizing rows with
  | zero =>
    rw [rowsOf, List.map_map]
    conv_rhs => rw [← List.map_id rows]
    apply List.map_congr_left
    intro row hrow
    exact (List.length_eq_zero_iff.mp (Nat.le_zero.mp (h row hrow))).symm
  | succ n ih =>
    have htail : ∀ row ∈ rows.map List.tail, row.length ≤ n :=
      forall_mem_tails (P := (· ≤ n)) fun row hrow => by
        have hle := h row hrow
        omega
    rw [rowsOf, columns, List.append_assoc, deal_heads, List.drop_left' (length_filterMap_head? rows),
      ← lengths_tail, ih htail]
    exact zipWith_take_tail rows

theorem length_deal {lengths : List ℕ} {codes : List α} (h : room lengths ≤ codes.length) :
    (deal lengths codes).map List.length = lengths.map (min 1) := by
  induction lengths generalizing codes with
  | nil => rfl
  | cons k lengths ih =>
    unfold room at ih h
    rw [List.countP_cons] at h
    cases k with
    | zero =>
      rw [deal, List.map_cons, List.map_cons, ih (by simpa using h)]
      rfl
    | succ k =>
      have hroom : lengths.countP (0 < ·) + 1 ≤ codes.length := by simpa using h
      rw [deal, List.map_cons, List.map_cons, ih (by rw [List.length_drop]; omega),
        List.length_take, Nat.min_eq_left (by omega), Nat.min_eq_left (by omega)]

theorem room_add_sum (lengths : List ℕ) :
    room lengths + (lengths.map (· - 1)).sum = lengths.sum := by
  induction lengths with
  | nil => rfl
  | cons k lengths ih =>
    unfold room at ih ⊢
    rw [List.countP_cons, List.map_cons, List.sum_cons, List.sum_cons]
    cases k with
    | zero => simpa using ih
    | succ k =>
      simp only [Nat.zero_lt_succ, decide_true, if_true, Nat.add_sub_cancel]
      omega

/-- Whatever is dealt out, the rows have the lengths asked for. -/
theorem length_rowsOf {n : ℕ} {lengths : List ℕ} {codes : List α} (hle : ∀ k ∈ lengths, k ≤ n)
    (hsum : lengths.sum ≤ codes.length) : (rowsOf n lengths codes).map List.length = lengths := by
  induction n generalizing lengths codes with
  | zero =>
    rw [rowsOf, List.map_map]
    conv_rhs => rw [← List.map_id lengths]
    apply List.map_congr_left
    intro k hk
    exact (Nat.le_zero.mp (hle k hk)).symm
  | succ n ih =>
    have hroom := room_add_sum lengths
    have hless : ∀ k ∈ lengths.map (· - 1), k ≤ n := by
      intro k hk
      obtain ⟨j, hj, rfl⟩ := List.mem_map.mp hk
      have hjn := hle j hj
      omega
    have hlong : (lengths.map (· - 1)).sum ≤ (codes.drop (room lengths)).length := by
      rw [List.length_drop]
      omega
    have hfit : room lengths ≤ codes.length := by omega
    have hrest := ih hless hlong
    have hdeal := length_deal hfit
    have hzip (a b : List (List α)) : (List.zipWith (· ++ ·) a b).map List.length =
        List.zipWith (· + ·) (a.map List.length) (b.map List.length) := by
      rw [List.map_zipWith, List.zipWith_map]
      simp only [List.length_append]
    rw [rowsOf, hzip, hdeal, hrest, List.zipWith_map, List.zipWith_self]
    conv_rhs => rw [← List.map_id lengths]
    apply List.map_congr_left
    intro k _
    show min 1 k + (k - 1) = k
    omega

theorem length_columns {n : ℕ} {rows : List (List α)} (h : ∀ row ∈ rows, row.length ≤ n) :
    (columns n rows).length = (rows.map List.length).sum := by
  induction n generalizing rows with
  | zero =>
    have hzero : ∀ k ∈ rows.map List.length, k = 0 := by
      intro k hk
      obtain ⟨row, hrow, rfl⟩ := List.mem_map.mp hk
      exact Nat.le_zero.mp (h row hrow)
    exact (List.sum_eq_zero hzero).symm
  | succ n ih =>
    have htail : ∀ row ∈ rows.map List.tail, row.length ≤ n :=
      forall_mem_tails (P := (· ≤ n)) fun row hrow => by
        have hle := h row hrow
        omega
    rw [columns, List.length_append, length_filterMap_head?, ih htail, lengths_tail]
    exact room_add_sum _

/-- The columns of full rows, read off by dividing their number by the number of rows. -/
theorem columns_rectangle {n : ℕ} {rows : List (List α)} (h : ∀ row ∈ rows, n ≤ row.length)
    (d : α) : columns n rows = (List.range (n * rows.length)).map fun i =>
      (rows.getD (i % rows.length) []).getD (i / rows.length) d := by
  induction n generalizing rows with
  | zero => rw [Nat.zero_mul, List.range_zero, List.map_nil, columns]
  | succ n ih =>
    have htail : ∀ row ∈ rows.map List.tail, n ≤ row.length :=
      forall_mem_tails (P := (n ≤ ·)) fun row hrow => by
        have hle := h row hrow
        omega
    have hfirst : rows.filterMap List.head? = (List.range rows.length).map fun i =>
        (rows.getD (i % rows.length) []).getD (i / rows.length) d := by
      have hheads : rows.filterMap List.head? = rows.map fun row => row.getD 0 d := by
        clear ih htail
        induction rows with
        | nil => rfl
        | cons row rows ihr =>
          have hpos := h row List.mem_cons_self
          obtain ⟨a, row, rfl⟩ := List.exists_cons_of_length_pos (Nat.zero_lt_of_lt hpos)
          exact congrArg (List.cons a) (ihr fun row hmem => h row (List.mem_cons_of_mem _ hmem))
      rw [hheads]
      apply List.ext_getElem
      · rw [List.length_map, List.length_map, List.length_range]
      · intro i hi _
        rw [List.length_map] at hi
        rw [List.getElem_map, List.getElem_map, List.getElem_range, Nat.mod_eq_of_lt hi,
          Nat.div_eq_of_lt hi, List.getD_eq_getElem _ _ hi]
    have hlater := ih htail
    rw [List.length_map] at hlater
    rw [columns, hlater, hfirst, Nat.succ_mul, Nat.add_comm (n * rows.length),
      List.range_add, List.map_append, List.map_map]
    congr 1
    apply List.map_congr_left
    intro i _
    have hrow (j : ℕ) : (rows.map List.tail).getD j [] = (rows.getD j []).tail := by
      rw [List.getD_eq_getElem?_getD, List.getElem?_map, List.getD_eq_getElem?_getD]
      cases rows[j]? <;> rfl
    rcases Nat.eq_zero_or_pos rows.length with hzero | hpos
    · rw [List.length_eq_zero_iff.mp hzero]
      rfl
    · rw [Function.comp_apply, Nat.add_mod_left, Nat.add_div_left _ hpos, hrow,
        List.getD_eq_getElem?_getD, List.getElem?_tail, ← List.getD_eq_getElem?_getD]

end Interleaving
