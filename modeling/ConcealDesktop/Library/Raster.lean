import Mathlib.Algebra.Order.Group.Nat
import Mathlib.Data.List.Nodup
import Mathlib.Data.Nat.Bitwise

/-! Rectangles painted over an image, a later one over the earlier ones. Which places they cover is
kept in a number for every row, so that the places left over can be counted. -/
namespace Raster

variable {α : Type*}

/-- A rectangle with its upper left corner and what it shows. -/
structure Patch (α : Type*) where
  row : ℕ
  col : ℕ
  height : ℕ
  width : ℕ
  value : ℕ → ℕ → α

def Patch.covers (p : Patch α) (y x : ℕ) : Bool :=
  (p.row ≤ y ∧ y < p.row + p.height) ∧ p.col ≤ x ∧ x < p.col + p.width

def paint (image : ℕ → ℕ → α) (p : Patch α) : ℕ → ℕ → α :=
  fun y x => if p.covers y x then p.value (y - p.row) (x - p.col) else image y x

def paintAll (image : ℕ → ℕ → α) (ps : List (Patch α)) : ℕ → ℕ → α := ps.foldl paint image

def covered (ps : List (Patch α)) (y x : ℕ) : Bool := ps.any fun p => p.covers y x

theorem covered_append (ps qs : List (Patch α)) (y x : ℕ) :
    covered (ps ++ qs) y x = (covered ps y x || covered qs y x) := List.any_append

theorem paintAll_of_not_covered {image : ℕ → ℕ → α} {ps : List (Patch α)} {y x : ℕ}
    (h : covered ps y x = false) : paintAll image ps y x = image y x := by
  induction ps generalizing image with
  | nil => rfl
  | cons p ps ih =>
    obtain ⟨hp, hps⟩ := Bool.or_eq_false_iff.mp h
    exact (ih hps).trans (if_neg (Bool.eq_false_iff.mp hp))

/-- A place that is covered shows one of the rectangles over it. -/
theorem paintAll_of_covered (image : ℕ → ℕ → α) {ps : List (Patch α)} {y x : ℕ}
    (h : covered ps y x = true) :
    ∃ p ∈ ps, p.covers y x = true ∧
      paintAll image ps y x = p.value (y - p.row) (x - p.col) := by
  induction ps generalizing image with
  | nil => cases h
  | cons p ps ih =>
    cases hps : covered ps y x with
    | true =>
      obtain ⟨q, hq, hcovers, hvalue⟩ := ih (paint image p) hps
      exact ⟨q, List.mem_cons_of_mem p hq, hcovers, hvalue⟩
    | false =>
      have hp : p.covers y x = true := by
        rcases Bool.or_eq_true_iff.mp h with hp | hps'
        · exact hp
        · exact absurd (hps.symm.trans hps') Bool.false_ne_true
      exact ⟨p, List.mem_cons_self, hp, (paintAll_of_not_covered hps).trans (if_pos hp)⟩

/-- Where no later rectangle lies over it, a place shows one of those of its group. -/
theorem paintAll_of_last (image : ℕ → ℕ → α) (ps : List (Patch α)) {qs rs : List (Patch α)}
    {y x : ℕ} (hqs : covered qs y x = true) (hrs : covered rs y x = false) :
    ∃ q ∈ qs, q.covers y x = true ∧
      paintAll image (ps ++ (qs ++ rs)) y x = q.value (y - q.row) (x - q.col) := by
  obtain ⟨q, hq, hcovers, hvalue⟩ := paintAll_of_covered (paintAll image ps) hqs
  refine ⟨q, hq, hcovers, ?_⟩
  rw [← hvalue]
  unfold paintAll
  rw [List.foldl_append, List.foldl_append]
  exact paintAll_of_not_covered hrs

section Writing

/-- One place of an image written over. -/
def put (image : ℕ → ℕ → α) (place : ℕ × ℕ) (value : α) : ℕ → ℕ → α :=
  fun y x => if (y, x) = place then value else image y x

def putAll (image : ℕ → ℕ → α) (writes : List ((ℕ × ℕ) × α)) : ℕ → ℕ → α :=
  writes.foldl (fun image write => put image write.1 write.2) image

theorem putAll_cons (image : ℕ → ℕ → α) (place : ℕ × ℕ) (value : α)
    (writes : List ((ℕ × ℕ) × α)) :
    putAll image ((place, value) :: writes) = putAll (put image place value) writes := rfl

theorem putAll_of_not_mem {image : ℕ → ℕ → α} {writes : List ((ℕ × ℕ) × α)} {y x : ℕ}
    (h : (y, x) ∉ writes.map Prod.fst) : putAll image writes y x = image y x := by
  induction writes generalizing image with
  | nil => rfl
  | cons write writes ih =>
    obtain ⟨hne, hnot⟩ := List.ne_and_not_mem_of_not_mem_cons h
    exact (ih hnot).trans (if_neg hne)

/-- At distinct places the order of the writes does not matter. -/
theorem putAll_of_mem {image : ℕ → ℕ → α} {writes : List ((ℕ × ℕ) × α)} {y x : ℕ} {value : α}
    (hnodup : (writes.map Prod.fst).Nodup) (h : ((y, x), value) ∈ writes) :
    putAll image writes y x = value := by
  induction writes generalizing image with
  | nil => cases h
  | cons write writes ih =>
    obtain ⟨hnot, hrest⟩ := List.nodup_cons.mp hnodup
    rcases List.mem_cons.mp h with rfl | h
    · exact (putAll_of_not_mem hnot).trans (if_pos rfl)
    · exact ih hrest h

theorem putAll_zip_of_not_mem {image : ℕ → ℕ → α} {ps : List (ℕ × ℕ)} {values : List α} {y x : ℕ}
    (hlength : values.length ≤ ps.length) (h : (y, x) ∉ ps.take values.length) :
    putAll image (ps.zip values) y x = image y x := by
  apply putAll_of_not_mem
  have htake : (ps.take values.length).length = values.length := List.length_take_of_le hlength
  rwa [List.zip_eq_zip_take_min, Nat.min_eq_right hlength, List.take_length,
    List.map_fst_zip htake.le]

/-- What was written at distinct places is read there again. -/
theorem map_putAll {image : ℕ → ℕ → α} {ps : List (ℕ × ℕ)} {values : List α} (hnodup : ps.Nodup)
    (hlength : values.length ≤ ps.length) :
    (ps.take values.length).map (fun p => putAll image (ps.zip values) p.1 p.2) = values := by
  induction values generalizing image ps with
  | nil => rfl
  | cons value values ih =>
    cases ps with
    | nil => exact absurd hlength (Nat.not_succ_le_zero _)
    | cons p ps =>
      obtain ⟨hp, hps⟩ := List.nodup_cons.mp hnodup
      have hnot : (p.1, p.2) ∉ (ps.zip values).map Prod.fst := fun hmem => by
        obtain ⟨write, hwrite, heq⟩ := List.mem_map.mp hmem
        have hplace : write.1 = p := heq
        exact hp (hplace ▸ (List.of_mem_zip hwrite).1)
      have hhead : putAll image ((p :: ps).zip (value :: values)) p.1 p.2 = value := by
        rw [List.zip_cons_cons, putAll_cons, putAll_of_not_mem hnot]
        exact if_pos rfl
      rw [List.length_cons, List.take_succ_cons, List.map_cons, hhead]
      exact congrArg _ (ih hps (Nat.le_of_succ_le_succ hlength))

end Writing

section Counting

/-- The number whose bits from `lo` on are `n` ones. -/
def interval (lo n : ℕ) : ℕ := (2 ^ n - 1) <<< lo

theorem testBit_interval (lo n x : ℕ) :
    (interval lo n).testBit x = decide (lo ≤ x ∧ x < lo + n) := by
  unfold interval
  rw [Nat.testBit_shiftLeft, Nat.testBit_two_pow_sub_one, Bool.decide_and]
  rcases Nat.lt_or_ge x lo with hlt | hge
  · rw [decide_eq_false (Nat.not_le_of_lt hlt), Bool.false_and, Bool.false_and]
  · have hiff : x - lo < n ↔ x < lo + n := by omega
    rw [decide_eq_decide.mpr hiff]

/-- `line` in `height` rows of `n` bits each. -/
def stack (n line : ℕ) : ℕ → ℕ
  | 0 => 0
  | height + 1 => line ||| (stack n line height <<< n)

theorem testBit_stack {n line x : ℕ} (hline : line < 2 ^ n) (hx : x < n) (height y : ℕ) :
    (stack n line height).testBit (y * n + x) = (decide (y < height) && line.testBit x) := by
  induction height generalizing y with
  | zero => rw [stack, Nat.zero_testBit, decide_eq_false (Nat.not_lt_zero y), Bool.false_and]
  | succ height ih =>
    rw [stack, Nat.testBit_or, Nat.testBit_shiftLeft]
    cases y with
    | zero =>
      rw [Nat.zero_mul, Nat.zero_add, decide_eq_false (Nat.not_le_of_lt hx), Bool.false_and,
        Bool.or_false, decide_eq_true (Nat.zero_lt_succ height), Bool.true_and]
    | succ y =>
      have hge : n ≤ (y + 1) * n + x := by
        rw [Nat.succ_mul]
        omega
      have hrest : (y + 1) * n + x - n = y * n + x := by
        rw [Nat.succ_mul]
        omega
      have hiff : y < height ↔ y + 1 < height + 1 := by omega
      rw [decide_eq_true hge, Bool.true_and, hrest, ih, Nat.testBit_lt_two_pow
        (hline.trans_le (Nat.pow_le_pow_right Nat.two_pos hge)), Bool.false_or,
        decide_eq_decide.mpr hiff]

/-- The places that are covered in a square as the bits of a number, row by row. -/
def coverMask (ps : List (Patch α)) (n : ℕ) : ℕ :=
  ps.foldr (fun p mask =>
    (stack n (interval p.col p.width % 2 ^ n) p.height <<< (p.row * n)) ||| mask) 0

theorem testBit_coverMask (ps : List (Patch α)) {n x : ℕ} (hx : x < n) (y : ℕ) :
    (coverMask ps n).testBit (y * n + x) = covered ps y x := by
  induction ps with
  | nil => exact Nat.zero_testBit _
  | cons p ps ih =>
    have hline : (interval p.col p.width % 2 ^ n).testBit x =
        decide (p.col ≤ x ∧ x < p.col + p.width) := by
      rw [Nat.testBit_mod_two_pow, decide_eq_true hx, Bool.true_and, testBit_interval]
    have hcover : (stack n (interval p.col p.width % 2 ^ n) p.height <<< (p.row * n)).testBit
        (y * n + x) = p.covers y x := by
      unfold Patch.covers
      rw [Nat.testBit_shiftLeft, Bool.decide_and, Bool.decide_and]
      rcases Nat.lt_or_ge y p.row with hlt | hge
      · have hbefore : ¬p.row * n ≤ y * n + x := by
          have hle := Nat.mul_le_mul_right n (Nat.succ_le_of_lt hlt)
          rw [Nat.succ_mul] at hle
          omega
        rw [decide_eq_false hbefore, decide_eq_false (Nat.not_le_of_lt hlt)]
        rfl
      · obtain ⟨k, rfl⟩ := Nat.exists_eq_add_of_le hge
        have hafter : p.row * n ≤ (p.row + k) * n + x := by
          rw [Nat.add_mul]
          omega
        have hrest : (p.row + k) * n + x - p.row * n = k * n + x := by
          rw [Nat.add_mul]
          omega
        have hiff : k < p.height ↔ p.row + k < p.row + p.height := by omega
        rw [decide_eq_true hafter, decide_eq_true hge, Bool.true_and, Bool.true_and, hrest,
          testBit_stack (Nat.mod_lt _ (Nat.two_pow_pos n)) hx, hline, decide_eq_decide.mpr hiff]
    have hcons : covered (p :: ps) y x = (p.covers y x || covered ps y x) := rfl
    rw [hcons, ← hcover, ← ih]
    exact Nat.testBit_or _ _ _

/-- No place of a square lies under rectangles of both lists. -/
def Apart (n : ℕ) (ps qs : List (Patch α)) : Prop := coverMask ps n &&& coverMask qs n = 0

instance (n : ℕ) (ps qs : List (Patch α)) : Decidable (Apart n ps qs) :=
  inferInstanceAs (Decidable (_ = 0))

theorem Apart.not_covered {n : ℕ} {ps qs : List (Patch α)} {y x : ℕ} (h : Apart n ps qs)
    (hx : x < n) (hps : covered ps y x = true) : covered qs y x = false := by
  have hbit := congrArg (fun m => m.testBit (y * n + x)) h
  simp only [Nat.testBit_and, testBit_coverMask _ hx, hps, Bool.true_and, Nat.zero_testBit] at hbit
  exact hbit

/-- How many bits of a number are one: the lowest one is cleared until none is left. The match on
the number has the kernel evaluate it at every step. -/
def ones : ℕ → ℕ → ℕ
  | 0, _ => 0
  | _ + 1, 0 => 0
  | fuel + 1, m + 1 => ones fuel ((m + 1) &&& m) + 1

def bitCount (n m : ℕ) : ℕ := (List.range n).countP fun i => m.testBit i

theorem bitCount_succ (n m : ℕ) : bitCount (n + 1) m = m % 2 + bitCount n (m / 2) := by
  have hrest : (fun i => (m / 2).testBit i) = (fun i => m.testBit i) ∘ Nat.succ := by
    funext i
    exact (Nat.testBit_succ m i).symm
  unfold bitCount
  rw [hrest, List.range_succ_eq_map, List.countP_cons, List.countP_map, Nat.testBit_zero,
    Nat.add_comm]
  congr 1
  rcases Nat.mod_two_eq_zero_or_one m with h | h <;> rw [h] <;> rfl

theorem bitCount_zero (n : ℕ) : bitCount n 0 = 0 := by
  induction n with
  | zero => rfl
  | succ n ih => rw [bitCount_succ, Nat.zero_mod, Nat.zero_div, ih]

/-- A number and its predecessor agree but for the lowest one and the zeros below it. -/
theorem bitCount_land_pred {n m : ℕ} (hm : m + 1 < 2 ^ n) :
    bitCount n (m + 1) = bitCount n ((m + 1) &&& m) + 1 := by
  induction n generalizing m with
  | zero => omega
  | succ n ih =>
    rw [pow_succ] at hm
    have hmod : ((m + 1) &&& m) % 2 = 0 := by
      have hand := Nat.and_mod_two_pow (a := m + 1) (b := m) (n := 1)
      rw [pow_one] at hand
      rw [hand]
      rcases Nat.mod_two_eq_zero_or_one m with h | h
      · rw [h, Nat.and_zero]
      · have hsucc : (m + 1) % 2 = 0 := by omega
        rw [hsucc, Nat.zero_and]
    rw [bitCount_succ, bitCount_succ n ((m + 1) &&& m), hmod, Nat.and_div_two]
    rcases Nat.mod_two_eq_zero_or_one m with h | h
    · have hhalf : (m + 1) / 2 = m / 2 := by omega
      have hodd : (m + 1) % 2 = 1 := by omega
      rw [hhalf, hodd, Nat.and_self]
      omega
    · have hhalf : (m + 1) / 2 = m / 2 + 1 := by omega
      have heven : (m + 1) % 2 = 0 := by omega
      rw [hhalf, heven, ih (by omega)]
      omega

theorem ones_eq {n fuel m : ℕ} (hm : m < 2 ^ n) (hfuel : bitCount n m ≤ fuel) :
    ones fuel m = bitCount n m := by
  induction fuel generalizing m with
  | zero => exact (Nat.le_zero.mp hfuel).symm
  | succ fuel ih =>
    cases m with
    | zero => rw [ones, bitCount_zero]
    | succ m =>
      have hland := bitCount_land_pred hm
      rw [ones, hland, ih (Nat.and_le_left.trans_lt hm) (by omega)]

/-- The ones in `height` rows of `n` bits each, row by row. -/
def onesOfRows (n : ℕ) : ℕ → ℕ → ℕ
  | 0, _ => 0
  | _ + 1, 0 => 0
  | height + 1, m + 1 => ones n ((m + 1) % 2 ^ n) + onesOfRows n height ((m + 1) / 2 ^ n)

theorem bitCount_row (n height m : ℕ) : bitCount (n + height * n) m =
    bitCount n (m % 2 ^ n) + bitCount (height * n) (m / 2 ^ n) := by
  unfold bitCount
  rw [List.range_add, List.countP_append, List.countP_map]
  congr 1
  · apply List.countP_congr
    intro i hi
    rw [Nat.testBit_mod_two_pow, decide_eq_true (List.mem_range.mp hi), Bool.true_and]
  · apply List.countP_congr
    intro i _
    rw [Function.comp_apply, Nat.testBit_div_two_pow, Nat.add_comm]

theorem onesOfRows_eq (n height m : ℕ) : onesOfRows n height m = bitCount (height * n) m := by
  induction height generalizing m with
  | zero => rw [Nat.zero_mul, onesOfRows, bitCount, List.range_zero, List.countP_nil]
  | succ height ih =>
    cases m with
    | zero => rw [onesOfRows, bitCount_zero]
    | succ m =>
      have hrow : ones n ((m + 1) % 2 ^ n) = bitCount n ((m + 1) % 2 ^ n) :=
        ones_eq (Nat.mod_lt _ (Nat.two_pow_pos n))
          (List.countP_le_length.trans List.length_range.le)
      rw [onesOfRows, hrow, ih, Nat.succ_mul, Nat.add_comm (height * n), bitCount_row]

/-- The places of a square, row by row. -/
def places (n : ℕ) : List (ℕ × ℕ) := (List.range (n * n)).map fun i => (i / n, i % n)

def free (ps : List (Patch α)) (p : ℕ × ℕ) : Bool := !covered ps p.1 p.2

/-- The number of places of a square that are left over. -/
def vacancies (ps : List (Patch α)) (n : ℕ) : ℕ := n * n - onesOfRows n n (coverMask ps n)

theorem length_filter_free (ps : List (Patch α)) {n : ℕ} (hn : 0 < n) :
    ((places n).filter (free ps)).length = vacancies ps n := by
  have hcovered : bitCount (n * n) (coverMask ps n) =
      (List.range (n * n)).countP fun i => covered ps (i / n) (i % n) := by
    apply List.countP_congr
    intro i _
    have hbit := testBit_coverMask ps (Nat.mod_lt i hn) (i / n)
    rw [Nat.mul_comm, Nat.div_add_mod] at hbit
    rw [hbit]
  have hsplit := List.length_eq_countP_add_countP (fun i => covered ps (i / n) (i % n))
    (l := List.range (n * n))
  have hfree : (fun i => decide ¬covered ps (i / n) (i % n) = true) =
      free ps ∘ fun i => (i / n, i % n) := by
    funext i
    show decide ¬covered ps (i / n) (i % n) = true = !covered ps (i / n) (i % n)
    cases covered ps (i / n) (i % n) <;> rfl
  rw [List.length_range, hfree] at hsplit
  unfold places vacancies
  rw [List.filter_map, List.length_map, ← List.countP_eq_length_filter, onesOfRows_eq, hcovered]
  omega

theorem mem_places {n : ℕ} {p : ℕ × ℕ} : p ∈ places n ↔ p.1 < n ∧ p.2 < n := by
  unfold places
  rw [List.mem_map]
  constructor
  · rintro ⟨i, hi, rfl⟩
    have hlt := List.mem_range.mp hi
    have hpos : 0 < n := Nat.pos_of_ne_zero fun hzero => by
      rw [hzero] at hlt
      cases hlt
    exact ⟨Nat.div_lt_of_lt_mul hlt, Nat.mod_lt i hpos⟩
  · rintro ⟨hy, hx⟩
    refine ⟨n * p.1 + p.2, List.mem_range.mpr ?_, ?_⟩
    · have hle := Nat.mul_le_mul_left n (Nat.succ_le_of_lt hy)
      rw [Nat.mul_succ] at hle
      omega
    · rw [Nat.mul_add_div (Nat.zero_lt_of_lt hx), Nat.div_eq_of_lt hx, Nat.add_zero,
        Nat.mul_add_mod, Nat.mod_eq_of_lt hx]

theorem nodup_places (n : ℕ) : (places n).Nodup := by
  refine List.nodup_range.map ?_
  intro i j h
  obtain ⟨hdiv, hmod⟩ := Prod.mk.inj h
  rw [← Nat.div_add_mod i n, ← Nat.div_add_mod j n, hdiv, hmod]

/-- A list of places that meets every vacant place of the square once has as many vacant places
as the square. -/
theorem length_filter_free_of_meets {ps : List (Patch α)} {n : ℕ} {l : List (ℕ × ℕ)} (hn : 0 < n)
    (hnodup : l.Nodup) (hmem : ∀ p, free ps p = true → (p ∈ l ↔ p.1 < n ∧ p.2 < n)) :
    (l.filter (free ps)).length = vacancies ps n := by
  rw [← length_filter_free ps hn]
  apply List.Perm.length_eq
  rw [List.perm_ext_iff_of_nodup (hnodup.filter _) ((nodup_places n).filter _)]
  intro p
  rw [List.mem_filter, List.mem_filter, mem_places]
  constructor
  · rintro ⟨hp, hfree⟩
    exact ⟨(hmem p hfree).mp hp, hfree⟩
  · rintro ⟨hp, hfree⟩
    exact ⟨(hmem p hfree).mpr hp, hfree⟩

end Counting

end Raster
