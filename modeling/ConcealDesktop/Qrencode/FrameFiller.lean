import Mathlib.Tactic.Ring
import ConcealDesktop.Qrencode.Frame

/-! The way on which libqrencode fills a frame: up and down in pairs of columns from the right,
past the vertical timing pattern, over the modules that carry data. -/
namespace ConcealDesktop.Qrencode
open Raster

section Source

/-- The place of a filler that has given out its first module. -/
structure Cursor (w : ℕ) where
  x : ℤ
  y : ℤ
  dir : ℤ
  bit : ℤ
  x_nonneg : 0 ≤ x
  y_range : 0 ≤ y ∧ y < w
  dir_eq : dir = -1 ∨ dir = 1
  bit_eq : bit = 0 ∨ bit = 1

/-- The turn of FrameFiller_next at the upper and the lower edge. -/
def turn (w : ℕ) (x y dir : ℤ) : ℤ × ℤ × ℤ :=
  if dir < 0 then
    if y < 0 then if x - 2 = 6 then (x - 2 - 1, 9, 1) else (x - 2, 0, 1) else (x, y, dir)
  else if y = w then
    if x - 2 = 6 then (x - 2 - 1, w - 1 - 8, -1) else (x - 2, w - 1, -1)
  else (x, y, dir)

end Source

theorem turn_range {w : ℕ} (hw : 9 < w) {x y dir : ℤ} (hdir : dir = -1 ∨ dir = 1)
    (hy : -1 ≤ y ∧ y ≤ w) (hup : dir = -1 → y < w) :
    (turn w x y dir).2.1 < w ∧ ((turn w x y dir).2.2 = -1 ∨ (turn w x y dir).2.2 = 1) := by
  unfold turn
  split_ifs with hneg htop hcol hbottom hcol
  · exact ⟨by show (9 : ℤ) < w; omega, .inr rfl⟩
  · exact ⟨by show (0 : ℤ) < w; omega, .inr rfl⟩
  · exact ⟨hup (by omega), hdir⟩
  · exact ⟨by show (w : ℤ) - 1 - 8 < w; omega, .inl rfl⟩
  · exact ⟨by show (w : ℤ) - 1 < w; omega, .inl rfl⟩
  · exact ⟨by show y < w; omega, hdir⟩

section Source

/-- One step of FrameFiller_next, before it looks at the module; `none` is NULL. -/
def Cursor.move {w : ℕ} (hw : 9 < w) (c : Cursor w) : Option (Cursor w) :=
  let x := if c.bit = 0 then c.x - 1 else c.x + 1
  let y := if c.bit = 0 then c.y else c.y + c.dir
  let bit := if c.bit = 0 then c.bit + 1 else c.bit - 1
  let next := turn w x y c.dir
  if h : next.1 < 0 ∨ next.2.1 < 0 then none
  else
    have hrange := turn_range hw (x := x) (y := y) c.dir_eq
      (by
        have hy := c.y_range
        have hdir := c.dir_eq
        unfold y
        split_ifs <;> omega)
      (by
        have hy := c.y_range
        unfold y
        split_ifs <;> omega)
    some
      { x := next.1
        y := next.2.1
        dir := next.2.2
        bit := bit
        x_nonneg := by omega
        y_range := ⟨by omega, hrange.1⟩
        dir_eq := hrange.2
        bit_eq := by
          have hbit := c.bit_eq
          unfold bit
          split_ifs <;> omega }

end Source

/-- The rows that a cursor has ahead of it in its pair of columns. -/
def Cursor.rows {w : ℕ} (c : Cursor w) : ℤ := if c.dir < 0 then c.y else w - 1 - c.y

/-- How far a cursor is from the end of its way at most. -/
def Cursor.left {w : ℕ} (c : Cursor w) : ℤ :=
  (c.x + c.bit) * (2 * w) + 2 * c.rows + (1 - c.bit)

/-- A step along a pair of columns, or to the start of the next pair. -/
theorem Cursor.move_cases {w : ℕ} {hw : 9 < w} {c c' : Cursor w} (h : c.move hw = some c') :
    (c.bit = 0 ∧ c'.x = c.x - 1 ∧ c'.y = c.y ∧ c'.dir = c.dir ∧ c'.bit = 1) ∨
    (c.bit = 1 ∧ c'.x = c.x + 1 ∧ c'.y = c.y + c.dir ∧ c'.dir = c.dir ∧ c'.bit = 0) ∨
    (c.bit = 1 ∧ c'.x ≤ c.x - 1 ∧ c'.bit = 0) := by
  have hy := c.y_range
  have hdir := c.dir_eq
  have hbit := c.bit_eq
  unfold Cursor.move at h
  simp only at h
  split_ifs at h with hbit0 hnull hnull
  · injection h with h
    subst h
    refine .inl ⟨hbit0, ?_⟩
    have hturn : turn w (c.x - 1) c.y c.dir = (c.x - 1, c.y, c.dir) := by
      unfold turn
      rw [if_neg (by omega : ¬c.y < 0), if_neg (by omega : ¬c.y = w)]
      split_ifs <;> rfl
    simp only [hturn, hbit0, zero_add, and_self]
  · injection h with h
    subst h
    have hbit1 : c.bit = 1 := by omega
    by_cases hedge : c.dir < 0 ∧ c.y + c.dir < 0 ∨ ¬c.dir < 0 ∧ c.y + c.dir = w
    · refine .inr (.inr ⟨hbit1, ?_, by simp only [hbit1, sub_self]⟩)
      show (turn w (c.x + 1) (c.y + c.dir) c.dir).1 ≤ c.x - 1
      unfold turn
      split_ifs <;> simp only <;> omega
    · refine .inr (.inl ⟨hbit1, ?_⟩)
      have hturn : turn w (c.x + 1) (c.y + c.dir) c.dir = (c.x + 1, c.y + c.dir, c.dir) := by
        unfold turn
        split_ifs <;> first | rfl | omega
      simp only [hturn, hbit1, sub_self, and_self]

theorem Cursor.rows_range {w : ℕ} (c : Cursor w) : 0 ≤ c.rows ∧ c.rows < w := by
  have hy := c.y_range
  unfold Cursor.rows
  split_ifs <;> omega

theorem Cursor.left_nonneg {w : ℕ} (c : Cursor w) : 0 ≤ c.left := by
  have hrows := c.rows_range
  have hx := c.x_nonneg
  have hbit := c.bit_eq
  have hcol : 0 ≤ c.x + c.bit := by omega
  have hwidth : (0 : ℤ) ≤ 2 * w := by omega
  have hmul := Int.mul_nonneg hcol hwidth
  unfold Cursor.left
  omega

theorem Cursor.move_left {w : ℕ} {hw : 9 < w} {c c' : Cursor w} (h : c.move hw = some c') :
    c'.left < c.left := by
  have hrows := c.rows_range
  have hrows' := c'.rows_range
  unfold Cursor.left
  rcases Cursor.move_cases h with ⟨hbit, hx, hy, hdir, hbit'⟩ | ⟨hbit, hx, hy, hdir, hbit'⟩ |
    ⟨hbit, hx, hbit'⟩
  · have hcol : c'.x + c'.bit = c.x + c.bit := by omega
    have hsame : c'.rows = c.rows := by
      unfold Cursor.rows
      rw [hy, hdir]
    rw [hcol, hsame, hbit']
    omega
  · have hcol : c'.x + c'.bit = c.x + c.bit := by omega
    have hless : c'.rows = c.rows - 1 := by
      have hdir' := c.dir_eq
      unfold Cursor.rows
      rw [hy, hdir]
      split_ifs <;> omega
    rw [hcol, hless, hbit']
    omega
  · have hcol : c'.x + c'.bit ≤ c.x + c.bit - 2 := by omega
    have hwidth : (0 : ℤ) ≤ 2 * w := by omega
    have hmul := Int.mul_le_mul_of_nonneg_right hcol hwidth
    have hexpand : (c.x + c.bit - 2) * (2 * (w : ℤ)) = (c.x + c.bit) * (2 * w) - 4 * w := by ring
    omega

section Source

/-- FrameFiller_next from a module that it has given out on: the next one that carries data. -/
def Cursor.next {w : ℕ} (hw : 9 < w) (frame : Frame) (c : Cursor w) : Option (Cursor w) :=
  match _h : c.move hw with
  | none => none
  | some c' => if reserved (frame c'.y.toNat c'.x.toNat) then c'.next hw frame else some c'
termination_by c.left.toNat
decreasing_by
  have hlt := Cursor.move_left ‹c.move hw = some c'›
  have hnonneg := c'.left_nonneg
  omega

/-- The filler of QRcode_encodeMask: the first module is given out as it is. -/
structure FrameFiller (w : ℕ) where
  cursor : Cursor w
  fresh : Bool

def FrameFiller_set {w : ℕ} (hw : 9 < w) : FrameFiller w where
  cursor :=
    { x := w - 1
      y := w - 1
      dir := -1
      bit := 0
      x_nonneg := by omega
      y_range := by omega
      dir_eq := .inl rfl
      bit_eq := .inl rfl }
  fresh := true

def FrameFiller_next {w : ℕ} (hw : 9 < w) (frame : Frame) (filler : FrameFiller w) :
    Option (FrameFiller w) :=
  if filler.fresh then some { filler with fresh := false }
  else (filler.cursor.next hw frame).map fun c => { filler with cursor := c }

def Cursor.place {w : ℕ} (c : Cursor w) : ℕ × ℕ := (c.y.toNat, c.x.toNat)

/-- The loops of QRcode_encodeMask over the bytes that they write; `none` is the way out when
FrameFiller_next returns NULL. -/
def fillFrame {w : ℕ} (hw : 9 < w) : List UInt8 → Frame → FrameFiller w → Option Frame
  | [], frame, _ => some frame
  | byte :: bytes, frame, filler =>
    (FrameFiller_next hw frame filler).bind fun filler =>
      fillFrame hw bytes (put frame filler.cursor.place byte) filler

end Source

section Trail

variable {w : ℕ} {hw : 9 < w}

/-- The modules that a cursor still comes to. -/
def Cursor.trail (hw : 9 < w) (c : Cursor w) : List (ℕ × ℕ) :=
  match _h : c.move hw with
  | none => []
  | some c' => c'.place :: c'.trail hw
termination_by c.left.toNat
decreasing_by
  have hlt := Cursor.move_left ‹c.move hw = some c'›
  have hnonneg := c'.left_nonneg
  omega

theorem Cursor.trail_none {c : Cursor w} (h : c.move hw = none) : c.trail hw = [] := by
  rw [Cursor.trail]
  split
  · rfl
  · next c' h' => exact absurd (h.symm.trans h') (by simp)

theorem Cursor.trail_some {c c' : Cursor w} (h : c.move hw = some c') :
    c.trail hw = c'.place :: c'.trail hw := by
  rw [Cursor.trail]
  split
  · next h' => exact absurd (h.symm.trans h') (by simp)
  · next c'' h' =>
    obtain rfl := Option.some.inj (h.symm.trans h')
    rfl

/-- The modules for data among those that a cursor still comes to. -/
def Cursor.targets (hw : 9 < w) (frame : Frame) (c : Cursor w) : List (ℕ × ℕ) :=
  (c.trail hw).filter fun p => !reserved (frame p.1 p.2)

theorem Cursor.next_none {frame : Frame} {c : Cursor w} (h : c.move hw = none) :
    c.next hw frame = none := by
  rw [Cursor.next]
  split
  · rfl
  · next c' h' => exact absurd (h.symm.trans h') (by simp)

theorem Cursor.next_some {frame : Frame} {c c' : Cursor w} (h : c.move hw = some c') :
    c.next hw frame =
      if reserved (frame c'.y.toNat c'.x.toNat) then c'.next hw frame else some c' := by
  rw [Cursor.next]
  split
  · next h' => exact absurd (h.symm.trans h') (by simp)
  · next c'' h' =>
    obtain rfl := Option.some.inj (h.symm.trans h')
    rfl

/-- A property of cursors that follows along the way holds of every one. -/
theorem Cursor.induction {P : Cursor w → Prop} (hw : 9 < w)
    (hstop : ∀ c, c.move hw = none → P c)
    (hstep : ∀ c c', c.move hw = some c' → P c' → P c) (c : Cursor w) : P c := by
  induction hn : c.left.toNat using Nat.strong_induction_on generalizing c with
  | h n ih =>
    subst hn
    cases hmove : c.move hw with
    | none => exact hstop c hmove
    | some c' =>
      have hlt := Cursor.move_left hmove
      have hnonneg := c'.left_nonneg
      exact hstep c c' hmove (ih _ (by omega) c' rfl)

/-- The next module is the first of them. -/
theorem Cursor.next_spec (hw : 9 < w) (frame : Frame) (c : Cursor w) :
    match c.next hw frame with
    | none => c.targets hw frame = []
    | some c' => c.targets hw frame = c'.place :: c'.targets hw frame := by
  unfold Cursor.targets
  induction c using Cursor.induction hw with
  | hstop c h => rw [Cursor.next_none h, Cursor.trail_none h, List.filter_nil]
  | hstep c c' h ih =>
    rw [Cursor.next_some h, Cursor.trail_some h, List.filter_cons]
    cases hreserved : reserved (frame c'.y.toNat c'.x.toNat) with
    | true =>
      have hplace : reserved (frame c'.place.1 c'.place.2) = true := hreserved
      rw [if_pos rfl, hplace]
      exact ih
    | false =>
      have hplace : reserved (frame c'.place.1 c'.place.2) = false := hreserved
      rw [if_neg Bool.false_ne_true, hplace]
      rfl

end Trail

section Way

variable {w : ℕ}

/-- A cursor on the left (`bit` is 1) or the right module of a row of a pair of columns. -/
def Cursor.at (dir : ℤ) (hdir : dir = -1 ∨ dir = 1) (left : Bool) (col y : ℕ) (hy : y < w) :
    Cursor w where
  x := if left then col else col + 1
  y := y
  dir := dir
  bit := if left then 1 else 0
  x_nonneg := by split_ifs <;> omega
  y_range := by omega
  dir_eq := hdir
  bit_eq := by cases left <;> simp

def Cursor.up (left : Bool) (col y : ℕ) (hy : y < w) : Cursor w := .at (-1) (.inl rfl) left col y hy

def Cursor.down (left : Bool) (col y : ℕ) (hy : y < w) : Cursor w := .at 1 (.inr rfl) left col y hy

/-- The modules of the columns `col + 1` and `col` in the rows `ys`. -/
def pair (col : ℕ) (ys : List ℕ) : List (ℕ × ℕ) := ys.flatMap fun y => [(y, col + 1), (y, col)]

def upward (w : ℕ) : List ℕ := (List.range w).reverse

/-- The way through the columns from `8 + 4 * k` on to the left. Column 6 is left out, and so are
the rows beside the upper left finder pattern behind it. -/
def zigzag (w : ℕ) : ℕ → List (ℕ × ℕ)
  | 0 => pair 7 (upward w) ++ (pair 4 (List.range' 9 (w - 9)) ++
      (pair 2 (upward w) ++ pair 0 (List.range' 0 w)))
  | k + 1 => pair (11 + 4 * k) (upward w) ++ (pair (9 + 4 * k) (List.range' 0 w) ++ zigzag w k)

variable {hw : 9 < w}

/-- The module of a cursor and those that it still comes to. -/
def Cursor.way (hw : 9 < w) (c : Cursor w) : List (ℕ × ℕ) := c.place :: c.trail hw

theorem Cursor.move_eq_some {c c' : Cursor w}
    (h : turn w (if c.bit = 0 then c.x - 1 else c.x + 1)
      (if c.bit = 0 then c.y else c.y + c.dir) c.dir = (c'.x, c'.y, c'.dir))
    (hbit : c'.bit = 1 - c.bit) : c.move hw = some c' := by
  have hx := c'.x_nonneg
  have hy := c'.y_range
  unfold Cursor.move
  simp only [h]
  rw [dif_neg (by omega)]
  cases c'
  simp only [Option.some.injEq, Cursor.mk.injEq, true_and] at hbit ⊢
  rcases c.bit_eq with hc | hc <;> rw [hc] at hbit ⊢ <;> omega

theorem Cursor.move_eq_none {c : Cursor w}
    (h : (turn w (if c.bit = 0 then c.x - 1 else c.x + 1)
      (if c.bit = 0 then c.y else c.y + c.dir) c.dir).1 < 0) : c.move hw = none := by
  unfold Cursor.move
  exact dif_pos (.inl h)

theorem place_at {dir : ℤ} {hdir : dir = -1 ∨ dir = 1} {left : Bool} {col y : ℕ} {hy : y < w} :
    (Cursor.at dir hdir left col y hy).place = (y, if left then col else col + 1) := by
  cases left <;> rfl

theorem way_of_move {c c' : Cursor w} (h : c.move hw = some c') :
    c.way hw = c.place :: c'.way hw := congrArg _ (Cursor.trail_some h)

theorem way_of_stop {c : Cursor w} (h : c.move hw = none) : c.way hw = [c.place] :=
  congrArg _ (Cursor.trail_none h)

/-- The left module of a row follows on the right one. -/
theorem way_right {dir : ℤ} {hdir : dir = -1 ∨ dir = 1} {col y : ℕ} {hy : y < w} :
    (Cursor.at dir hdir false col y hy).way hw =
      (y, col + 1) :: (Cursor.at dir hdir true col y hy).way hw := by
  have hturn : turn w col y dir = ((col : ℤ), (y : ℤ), dir) := by
    unfold turn
    rw [if_neg (by omega : ¬(y : ℤ) < 0), if_neg (by omega : ¬(y : ℤ) = w)]
    split_ifs <;> rfl
  have hmove : (Cursor.at dir hdir false col y hy).move hw =
      some (Cursor.at dir hdir true col y hy) := by
    refine Cursor.move_eq_some ?_ rfl
    show turn w ((col : ℤ) + 1 - 1) y dir = _
    rw [add_sub_cancel_right, hturn]
    rfl
  rw [way_of_move hmove, place_at]
  rfl

/-- One row further along a pair of columns. -/
theorem way_left {dir : ℤ} {hdir : dir = -1 ∨ dir = 1} {col y y' : ℕ} {hy : y < w}
    (hy' : y' < w) (hnext : (y' : ℤ) = y + dir) :
    (Cursor.at dir hdir true col y hy).way hw =
      (y, col) :: (Cursor.at dir hdir false col y' hy').way hw := by
  have hturn : turn w (col + 1) y' dir = ((col : ℤ) + 1, (y' : ℤ), dir) := by
    unfold turn
    rw [if_neg (by omega : ¬(y' : ℤ) < 0), if_neg (by omega : ¬(y' : ℤ) = w)]
    split_ifs <;> rfl
  have hmove : (Cursor.at dir hdir true col y hy).move hw =
      some (Cursor.at dir hdir false col y' hy') := by
    refine Cursor.move_eq_some ?_ rfl
    show turn w ((col : ℤ) + 1) (y + dir) dir = _
    rw [← hnext, hturn]
    rfl
  rw [way_of_move hmove, place_at]
  rfl

/-- Behind the upper edge the way goes down in the next pair of columns, behind column 6 below the
finder pattern. -/
theorem way_turn_down {col : ℕ} {hy : 0 < w} (hodd : col ≠ 1) :
    (Cursor.up true col 0 hy).way hw =
    (0, col) ::
      if col = 0 then []
      else if col = 7 then (Cursor.down false 4 9 hw).way hw
      else (Cursor.down false (col - 2) 0 hy).way hw := by
  have hup : turn w ((col : ℤ) + 1) (((0 : ℕ) : ℤ) + -1) (-1) =
      if (col : ℤ) + 1 - 2 = 6 then ((col : ℤ) + 1 - 2 - 1, 9, 1) else ((col : ℤ) + 1 - 2, 0, 1) :=
    rfl
  split_ifs with hstop hcol
  · have hmove : (Cursor.up true col 0 hy).move hw = none := by
      apply Cursor.move_eq_none
      show (turn w ((col : ℤ) + 1) (((0 : ℕ) : ℤ) + -1) (-1)).1 < 0
      rw [hup, if_neg (by omega)]
      show (col : ℤ) + 1 - 2 < 0
      omega
    exact way_of_stop hmove
  · subst hcol
    exact way_of_move (Cursor.move_eq_some rfl rfl)
  · have hmove : (Cursor.up true col 0 hy).move hw =
        some (Cursor.down false (col - 2) 0 hy) := by
      refine Cursor.move_eq_some ?_ rfl
      show turn w ((col : ℤ) + 1) (((0 : ℕ) : ℤ) + -1) (-1) =
        (((col - 2 : ℕ) : ℤ) + 1, ((0 : ℕ) : ℤ), 1)
      rw [hup, if_neg (by omega)]
      refine Prod.ext ?_ rfl
      show (col : ℤ) + 1 - 2 = ((col - 2 : ℕ) : ℤ) + 1
      omega
    exact way_of_move hmove

/-- Behind the lower edge the way goes up in the next pair of columns; it does not come to column 6
this way. -/
theorem way_turn_up {col : ℕ} {hlast : w - 1 < w} (hodd : col ≠ 1) (hcol : col ≠ 7) :
    (Cursor.down true col (w - 1) hlast).way hw =
    (w - 1, col) :: if col = 0 then [] else (Cursor.up false (col - 2) (w - 1) hlast).way hw := by
  have hdown : turn w ((col : ℤ) + 1) (((w - 1 : ℕ) : ℤ) + 1) 1 =
      ((col : ℤ) + 1 - 2, (w : ℤ) - 1, -1) := by
    unfold turn
    rw [if_neg (by decide), if_pos (by omega), if_neg (by omega)]
  split_ifs with hstop
  · have hmove : (Cursor.down true col (w - 1) hlast).move hw = none := by
      apply Cursor.move_eq_none
      show (turn w ((col : ℤ) + 1) (((w - 1 : ℕ) : ℤ) + 1) 1).1 < 0
      rw [hdown]
      show (col : ℤ) + 1 - 2 < 0
      omega
    exact way_of_stop hmove
  · have hmove : (Cursor.down true col (w - 1) hlast).move hw =
        some (Cursor.up false (col - 2) (w - 1) hlast) := by
      refine Cursor.move_eq_some ?_ rfl
      show turn w ((col : ℤ) + 1) (((w - 1 : ℕ) : ℤ) + 1) 1 =
        (((col - 2 : ℕ) : ℤ) + 1, ((w - 1 : ℕ) : ℤ), -1)
      rw [hdown]
      refine Prod.ext ?_ (Prod.ext ?_ rfl)
      · show (col : ℤ) + 1 - 2 = ((col - 2 : ℕ) : ℤ) + 1
        omega
      · show (w : ℤ) - 1 = ((w - 1 : ℕ) : ℤ)
        omega
    exact way_of_move hmove

theorem pair_cons (col y : ℕ) (ys : List ℕ) :
    pair col (y :: ys) = (y, col + 1) :: (y, col) :: pair col ys := List.flatMap_cons

/-- The whole way up a pair of columns. -/
theorem way_up {col y : ℕ} {hy : y < w} (hodd : col ≠ 1) :
    (Cursor.up false col y hy).way hw =
    pair col (upward (y + 1)) ++
      if col = 0 then []
      else if col = 7 then (Cursor.down false 4 9 hw).way hw
      else (Cursor.down false (col - 2) 0 (by omega)).way hw := by
  induction y with
  | zero => exact way_right.trans (congrArg _ (way_turn_down hodd))
  | succ y ih =>
    have hrows : upward (y + 1 + 1) = (y + 1) :: upward (y + 1) := by
      unfold upward
      rw [List.range_succ, List.reverse_append]
      rfl
    have hstep : (Cursor.up true col (y + 1) hy).way hw =
        (y + 1, col) :: (Cursor.up false col y (by omega)).way hw :=
      way_left (by omega) (by push_cast; ring)
    have hbelow : y < w := by omega
    rw [hrows, pair_cons, List.cons_append, List.cons_append, ← @ih hbelow, ← hstep]
    exact way_right

/-- The whole way down a pair of columns. -/
theorem way_down {col y : ℕ} {hy : y < w} (hodd : col ≠ 1) (hcol : col ≠ 7) :
    (Cursor.down false col y hy).way hw =
    pair col (List.range' y (w - y)) ++
      if col = 0 then [] else (Cursor.up false (col - 2) (w - 1) (by omega)).way hw := by
  induction hn : w - 1 - y generalizing y with
  | zero =>
    obtain rfl : y = w - 1 := by omega
    have hone : w - (w - 1) = 1 := by omega
    rw [hone]
    exact way_right.trans (congrArg _ (way_turn_up hodd hcol))
  | succ n ih =>
    have hrows : w - y = w - (y + 1) + 1 := by omega
    have hstep : (Cursor.down true col y hy).way hw =
        (y, col) :: (Cursor.down false col (y + 1) (by omega)).way hw :=
      way_left (by omega) (by push_cast; ring)
    have hbelow : y + 1 < w := by omega
    rw [hrows, List.range'_succ, pair_cons, List.cons_append, List.cons_append,
      ← @ih (y + 1) hbelow (by omega), ← hstep]
    exact way_right

/-- The way from the right column of a pair that is walked up. -/
theorem way_zigzag (hw : 9 < w) (k : ℕ) (hlast : w - 1 < w) :
    (Cursor.up false (7 + 4 * k) (w - 1) hlast).way hw = zigzag w k := by
  have hrows : upward (w - 1 + 1) = upward w := by
    congr 1
    omega
  induction k with
  | zero =>
    have hup : (Cursor.up false 7 (w - 1) hlast).way hw =
        pair 7 (upward w) ++ (Cursor.down false 4 9 hw).way hw := by
      rw [way_up (by decide), hrows]
      rfl
    have hdown : (Cursor.down false 4 9 hw).way hw =
        pair 4 (List.range' 9 (w - 9)) ++ (Cursor.up false 2 (w - 1) hlast).way hw :=
      way_down (by decide) (by decide)
    have hnext : (Cursor.up false 2 (w - 1) hlast).way hw =
        pair 2 (upward w) ++ (Cursor.down false 0 0 (by omega)).way hw := by
      rw [way_up (by decide), hrows]
      rfl
    have hlast : (Cursor.down false 0 0 (by omega)).way hw = pair 0 (List.range' 0 w) :=
      (way_down (by decide) (by decide)).trans (List.append_nil _)
    rw [zigzag, ← hlast, ← hnext, ← hdown, ← hup]
  | succ k ih =>
    have hcol : 7 + 4 * (k + 1) = 11 + 4 * k := by ring
    have hnext : 11 + 4 * k - 2 = 9 + 4 * k := by omega
    have hthen : 9 + 4 * k - 2 = 7 + 4 * k := by omega
    have hup : (Cursor.up false (11 + 4 * k) (w - 1) hlast).way hw =
        pair (11 + 4 * k) (upward w) ++ (Cursor.down false (9 + 4 * k) 0 (by omega)).way hw := by
      rw [way_up (by omega), hrows, if_neg (by omega), if_neg (by omega)]
      simp only [hnext]
    have hdown : (Cursor.down false (9 + 4 * k) 0 (by omega)).way hw =
        pair (9 + 4 * k) (List.range' 0 w) ++ (Cursor.up false (7 + 4 * k) (w - 1) hlast).way hw := by
      rw [way_down (by omega) (by omega), if_neg (by omega)]
      simp only [hthen]
      rfl
    simp only [hcol]
    rw [zigzag, ← ih, hup, hdown]

theorem mem_pair {col : ℕ} {ys : List ℕ} {p : ℕ × ℕ} :
    p ∈ pair col ys ↔ p.1 ∈ ys ∧ (p.2 = col + 1 ∨ p.2 = col) := by
  unfold pair
  simp only [List.mem_flatMap, List.mem_cons, List.not_mem_nil, or_false, Prod.ext_iff]
  constructor
  · rintro ⟨y, hy, ⟨hrow, hcol⟩ | ⟨hrow, hcol⟩⟩
    · exact ⟨hrow ▸ hy, .inl hcol⟩
    · exact ⟨hrow ▸ hy, .inr hcol⟩
  · rintro ⟨hy, hcol | hcol⟩
    · exact ⟨p.1, hy, .inl ⟨rfl, hcol⟩⟩
    · exact ⟨p.1, hy, .inr ⟨rfl, hcol⟩⟩

theorem nodup_pair (col : ℕ) {ys : List ℕ} (h : ys.Nodup) : (pair col ys).Nodup := by
  induction ys with
  | nil => exact List.nodup_nil
  | cons y ys ih =>
    obtain ⟨hy, hys⟩ := List.nodup_cons.mp h
    rw [pair_cons, List.nodup_cons, List.nodup_cons, List.mem_cons, mem_pair, mem_pair]
    refine ⟨?_, fun hmem => hy hmem.1, ih hys⟩
    rintro (heq | hmem)
    · exact absurd (Prod.mk.inj heq).2 (Nat.succ_ne_self col)
    · exact hy hmem.1

theorem mem_upward {y : ℕ} : y ∈ upward w ↔ y < w := by
  unfold upward
  rw [List.mem_reverse, List.mem_range]

theorem nodup_upward : (upward w).Nodup := List.nodup_reverse.mpr List.nodup_range

theorem mem_zigzag (hw : 9 < w) {k : ℕ} {p : ℕ × ℕ} : p ∈ zigzag w k ↔
    p.1 < w ∧ p.2 ≤ 8 + 4 * k ∧ p.2 ≠ 6 ∧ ¬(p.1 < 9 ∧ (p.2 = 4 ∨ p.2 = 5)) := by
  induction k with
  | zero =>
    simp only [zigzag, List.mem_append, mem_pair, mem_upward, List.mem_range'_1]
    omega
  | succ k ih =>
    simp only [zigzag, List.mem_append, ih, mem_pair, mem_upward, List.mem_range'_1]
    omega

/-- The way comes to no module twice. -/
theorem nodup_zigzag (hw : 9 < w) (k : ℕ) : (zigzag w k).Nodup := by
  induction k with
  | zero =>
    rw [zigzag]
    refine List.Nodup.append (nodup_pair _ nodup_upward) (List.Nodup.append
      (nodup_pair _ List.nodup_range') (List.Nodup.append (nodup_pair _ nodup_upward)
        (nodup_pair _ List.nodup_range') ?_) ?_) ?_
    all_goals
      intro p hp hp'
      simp only [List.mem_append, mem_pair] at hp hp'
      omega
  | succ k ih =>
    rw [zigzag]
    refine List.Nodup.append (nodup_pair _ nodup_upward)
      (List.Nodup.append (nodup_pair _ List.nodup_range') ih ?_) ?_
    all_goals
      intro p hp hp'
      simp only [List.mem_append, mem_pair, mem_zigzag hw] at hp hp'
      omega

end Way

section Filling

variable {w : ℕ} {hw : 9 < w}

/-- The modules that a filler still gives out. -/
def FrameFiller.slots (hw : 9 < w) (frame : Frame) (filler : FrameFiller w) : List (ℕ × ℕ) :=
  if filler.fresh then filler.cursor.place :: filler.cursor.targets hw frame
  else filler.cursor.targets hw frame

theorem FrameFiller_next_spec (hw : 9 < w) (frame : Frame) (filler : FrameFiller w) :
    match FrameFiller_next hw frame filler with
    | none => filler.slots hw frame = []
    | some filler' =>
      filler.slots hw frame = filler'.cursor.place :: filler'.slots hw frame := by
  unfold FrameFiller_next FrameFiller.slots
  cases hfresh : filler.fresh with
  | true => rfl
  | false =>
    have hnext := Cursor.next_spec hw frame filler.cursor
    rw [if_neg Bool.false_ne_true, if_neg Bool.false_ne_true]
    cases h : filler.cursor.next hw frame with
    | none =>
      rw [h] at hnext
      exact hnext
    | some c =>
      rw [h] at hnext
      exact hnext

theorem put_of_ne {frame : Frame} {place p : ℕ × ℕ} {byte : UInt8} (h : p ≠ place) :
    put frame place byte p.1 p.2 = frame p.1 p.2 := if_neg h

/-- What is written behind a filler does not change its way. -/
theorem slots_put (hw : 9 < w) {frame : Frame} {filler : FrameFiller w} {place : ℕ × ℕ}
    (byte : UInt8) (hplace : reserved (frame place.1 place.2) = false)
    (hnot : place ∉ filler.slots hw frame) :
    filler.slots hw (put frame place byte) = filler.slots hw frame := by
  have htargets : filler.cursor.targets hw (put frame place byte) =
      filler.cursor.targets hw frame := by
    apply List.filter_congr
    intro p hp
    have hne : p ≠ place := by
      rintro rfl
      have htarget : p ∈ filler.cursor.targets hw frame :=
        List.mem_filter.mpr ⟨hp, by rw [hplace]; rfl⟩
      refine hnot ?_
      unfold FrameFiller.slots
      split_ifs
      · exact List.mem_cons_of_mem _ htarget
      · exact htarget
    rw [put_of_ne hne]
  unfold FrameFiller.slots
  rw [htargets]

/-- The bytes go to the modules that the filler gives out, one to each. -/
theorem fillFrame_eq (bytes : List UInt8) {frame : Frame} {filler : FrameFiller w}
    (hslots : ∀ p ∈ filler.slots hw frame, reserved (frame p.1 p.2) = false)
    (hnodup : (filler.slots hw frame).Nodup) :
    fillFrame hw bytes frame filler =
      if bytes.length ≤ (filler.slots hw frame).length then
        some (putAll frame ((filler.slots hw frame).zip bytes))
      else none := by
  induction bytes generalizing frame filler with
  | nil =>
    rw [List.length_nil, if_pos (Nat.zero_le _), List.zip_nil_right]
    rfl
  | cons byte bytes ih =>
    have hnext := FrameFiller_next_spec hw frame filler
    rw [fillFrame]
    cases h : FrameFiller_next hw frame filler with
    | none =>
      rw [h] at hnext
      rw [hnext, List.length_cons, List.length_nil, if_neg (Nat.not_succ_le_zero _)]
      rfl
    | some filler' =>
      rw [h] at hnext
      simp only at hnext
      rw [hnext] at hslots hnodup
      obtain ⟨hplace, hrest⟩ := List.forall_mem_cons.mp hslots
      obtain ⟨hnot, hnodup'⟩ := List.nodup_cons.mp hnodup
      have hput := slots_put hw byte hplace hnot
      have hslots' : ∀ p ∈ filler'.slots hw (put frame filler'.cursor.place byte),
          reserved (put frame filler'.cursor.place byte p.1 p.2) = false := by
        rw [hput]
        intro p hp
        rw [put_of_ne (ne_of_mem_of_not_mem hp hnot)]
        exact hrest p hp
      have hthen := ih hslots' (hput.symm ▸ hnodup')
      rw [Option.bind_some, hthen, hput, hnext, List.length_cons, List.length_cons,
        List.zip_cons_cons, putAll_cons]
      simp only [Nat.add_le_add_iff_right]

/-- A filler at its start has the whole way before it. -/
theorem slots_set {frame : Frame} {k : ℕ} (hk : w = 9 + 4 * k)
    (hcorner : reserved (frame (w - 1) (w - 1)) = false) :
    (FrameFiller_set hw).slots hw frame =
      (zigzag w k).filter fun p => !reserved (frame p.1 p.2) := by
  have hlast : w - 1 < w := by omega
  have hstart : (FrameFiller_set hw).cursor = Cursor.up false (7 + 4 * k) (w - 1) hlast := by
    unfold FrameFiller_set Cursor.up Cursor.at
    rw [Cursor.mk.injEq]
    refine ⟨?_, ?_, rfl, rfl⟩
    · show (w : ℤ) - 1 = ((7 + 4 * k : ℕ) : ℤ) + 1
      omega
    · show (w : ℤ) - 1 = ((w - 1 : ℕ) : ℤ)
      omega
  have hplace : (FrameFiller_set hw).cursor.place = (w - 1, w - 1) := by
    rw [hstart]
    refine Prod.ext rfl ?_
    show 7 + 4 * k + 1 = w - 1
    omega
  rw [← way_zigzag hw k hlast, ← hstart]
  have hfresh : (FrameFiller_set hw).fresh = true := rfl
  unfold FrameFiller.slots Cursor.way
  rw [if_pos hfresh, List.filter_cons, hplace, hcorner]
  rfl

end Filling

section Versions

variable {version : ℕ}

theorem lt_width (hpos : 1 ≤ version) (hmax : version ≤ QRSPEC_VERSION_MAX) :
    9 < QRspec_getWidth version := by
  rw [width_eq hpos hmax]
  omega

/-- The modules for data in the order in which they are filled. -/
def dataModules (version : ℕ) : List (ℕ × ℕ) :=
  (zigzag (QRspec_getWidth version) (version + 2)).filter (free (framePatches version))

theorem free_iff_reserved {p : ℕ × ℕ} : free (framePatches version) p = true ↔
    reserved (QRspec_createFrame version p.1 p.2) = false := by
  rw [reserved_createFrame]
  exact iff_of_eq (Bool.not_eq_true' _)

theorem nodup_dataModules (hpos : 1 ≤ version) (hmax : version ≤ QRSPEC_VERSION_MAX) :
    (dataModules version).Nodup := (nodup_zigzag (lt_width hpos hmax) _).filter _

theorem covered_of_mem {p : Patch UInt8} {y x : ℕ} (hp : p ∈ framePatches version)
    (hy : p.row ≤ y ∧ y < p.row + p.height) (hx : p.col ≤ x ∧ x < p.col + p.width) :
    covered (framePatches version) y x = true :=
  List.any_eq_true.mpr ⟨p, hp, decide_eq_true ⟨hy, hx⟩⟩

/-- The vertical timing pattern and what lies beside it leave nothing free in its column. -/
theorem covered_timing (hpos : 1 ≤ version) (hmax : version ≤ QRSPEC_VERSION_MAX) {y : ℕ}
    (hy : y < QRspec_getWidth version) : covered (framePatches version) y 6 = true := by
  have hw := width_eq hpos hmax
  have hfinder : ∀ p ∈ finderPatches (QRspec_getWidth version), p ∈ framePatches version :=
    fun p hp => by simp only [framePatches, List.mem_append, hp, true_or]
  rcases Nat.lt_or_ge y 7 with htop | htop
  · exact covered_of_mem (hfinder (putFinderPattern 0 0) (by simp [finderPatches]))
      ⟨Nat.zero_le y, htop⟩ (by decide)
  rcases Nat.lt_or_ge y 8 with hsep | hsep
  · exact covered_of_mem (hfinder (fill 7 0 1 8 0xc0) (by simp [finderPatches]))
      ⟨htop, hsep⟩ (by decide)
  rcases Nat.lt_or_ge y (QRspec_getWidth version - 8) with hmid | hmid
  · refine covered_of_mem (p := ⟨8, 6, QRspec_getWidth version - 16, 1,
      fun y _ => 0x90 ||| UInt8.ofNat ((y + 1) &&& 1)⟩) (by simp [framePatches, timingPatches])
      ⟨hsep, ?_⟩ ⟨Nat.le_refl 6, Nat.lt_succ_self 6⟩
    show y < 8 + (QRspec_getWidth version - 16)
    omega
  rcases Nat.lt_or_ge y (QRspec_getWidth version - 7) with hlow | hlow
  · refine covered_of_mem (hfinder (fill (QRspec_getWidth version - 8) 0 1 8 0xc0)
      (by simp [finderPatches])) ⟨hmid, ?_⟩ ⟨Nat.zero_le 6, by show 6 < 0 + 8; decide⟩
    show y < QRspec_getWidth version - 8 + 1
    omega
  · refine covered_of_mem (hfinder (putFinderPattern 0 (QRspec_getWidth version - 7))
      (by simp [finderPatches])) ⟨hlow, ?_⟩ ⟨Nat.zero_le 6, Nat.lt_succ_self 6⟩
    show y < QRspec_getWidth version - 7 + 7
    omega

/-- The rows that the way leaves out behind the timing pattern are those of the finder pattern,
its separator and the format information. -/
theorem covered_beside_finder (version : ℕ) {y x : ℕ} (hy : y < 9) (hx : x = 4 ∨ x = 5) :
    covered (framePatches version) y x = true := by
  have hfinder : ∀ p ∈ finderPatches (QRspec_getWidth version), p ∈ framePatches version :=
    fun p hp => by simp only [framePatches, List.mem_append, hp, true_or]
  have hcol : 0 ≤ x ∧ x < 0 + 7 := by omega
  rcases Nat.lt_or_ge y 7 with htop | htop
  · exact covered_of_mem (hfinder (putFinderPattern 0 0) (by simp [finderPatches]))
      ⟨Nat.zero_le y, htop⟩ hcol
  rcases Nat.lt_or_ge y 8 with hsep | hsep
  · exact covered_of_mem (hfinder (fill 7 0 1 8 0xc0) (by simp [finderPatches]))
      ⟨htop, hsep⟩ ⟨hcol.1, hcol.2.trans (by decide)⟩
  · exact covered_of_mem (p := fill 8 0 1 9 0x84) (by simp [framePatches, formatPatches])
      ⟨hsep, hy⟩ ⟨hcol.1, hcol.2.trans (by decide)⟩

theorem mem_zigzag_iff (hpos : 1 ≤ version) (hmax : version ≤ QRSPEC_VERSION_MAX) {p : ℕ × ℕ}
    (hfree : free (framePatches version) p = true) :
    p ∈ zigzag (QRspec_getWidth version) (version + 2) ↔
      p.1 < QRspec_getWidth version ∧ p.2 < QRspec_getWidth version := by
  have hw := width_eq hpos hmax
  have hnot : covered (framePatches version) p.1 p.2 = false :=
    (iff_of_eq (Bool.not_eq_true' _)).mp hfree
  rw [mem_zigzag (lt_width hpos hmax)]
  constructor
  · rintro ⟨hy, hx, -, -⟩
    exact ⟨hy, by omega⟩
  · rintro ⟨hy, hx⟩
    refine ⟨hy, by omega, ?_, ?_⟩
    · intro hcol
      have hcovered := covered_timing hpos hmax hy
      rw [← hcol, hnot] at hcovered
      cases hcovered
    · rintro ⟨hrow, hcol⟩
      have hcovered := covered_beside_finder version hrow hcol
      rw [hnot] at hcovered
      cases hcovered

/-- The filler comes to every module for data. -/
theorem mem_dataModules (hpos : 1 ≤ version) (hmax : version ≤ QRSPEC_VERSION_MAX) {p : ℕ × ℕ} :
    p ∈ dataModules version ↔ (p.1 < QRspec_getWidth version ∧ p.2 < QRspec_getWidth version) ∧
      reserved (QRspec_createFrame version p.1 p.2) = false := by
  unfold dataModules
  rw [List.mem_filter, ← free_iff_reserved]
  constructor
  · rintro ⟨hmem, hfree⟩
    exact ⟨(mem_zigzag_iff hpos hmax hfree).mp hmem, hfree⟩
  · rintro ⟨hlt, hfree⟩
    exact ⟨(mem_zigzag_iff hpos hmax hfree).mpr hlt, hfree⟩

/-- The modules for data are as many as the bits of the version's words and its remainder. -/
theorem length_dataModules (hpos : 1 ≤ version) (hmax : version ≤ QRSPEC_VERSION_MAX) :
    (dataModules version).length =
      (capacityOf version).words * 8 + QRspec_getRemainder version := by
  have hwidth := lt_width hpos hmax
  rw [← vacancies_framePatches hpos hmax]
  exact length_filter_free_of_meets (by omega) (nodup_zigzag hwidth _)
    fun p hp => mem_zigzag_iff hpos hmax hp

theorem free_corner (hpos : 1 ≤ version) (hmax : version ≤ QRSPEC_VERSION_MAX) :
    free (framePatches version) (QRspec_getWidth version - 1, QRspec_getWidth version - 1) =
      true := by
  have hall : ∀ v < QRSPEC_VERSION_MAX, free (framePatches (v + 1))
      (QRspec_getWidth (v + 1) - 1, QRspec_getWidth (v + 1) - 1) = true := by
    decide +kernel
  obtain ⟨v, rfl⟩ := Nat.exists_eq_add_of_le' hpos
  exact hall v hmax

theorem slots_createFrame (hpos : 1 ≤ version) (hmax : version ≤ QRSPEC_VERSION_MAX) :
    (FrameFiller_set (lt_width hpos hmax)).slots (lt_width hpos hmax)
      (QRspec_createFrame version) = dataModules version := by
  have hwidth := width_eq hpos hmax
  have hcorner := free_iff_reserved.mp (free_corner hpos hmax)
  rw [slots_set (k := version + 2) (by omega) hcorner]
  unfold dataModules
  congr 1
  funext p
  rw [reserved_createFrame]
  rfl

/-- The bytes that a frame is filled with. -/
def Filled (version : ℕ) (bytes : List UInt8) (frame : Frame) : Prop :=
  ((dataModules version).take bytes.length).map (fun p => frame p.1 p.2) = bytes ∧
    ∀ y x, (y, x) ∉ (dataModules version).take bytes.length →
      frame y x = QRspec_createFrame version y x

/-- A new frame takes as many bytes as it has modules for data, each in its own module, and every
other module stays as it is. -/
theorem fillFrame_createFrame (hpos : 1 ≤ version) (hmax : version ≤ QRSPEC_VERSION_MAX)
    (bytes : List UInt8) :
    match fillFrame (lt_width hpos hmax) bytes (QRspec_createFrame version)
      (FrameFiller_set (lt_width hpos hmax)) with
    | none => (dataModules version).length < bytes.length
    | some frame => bytes.length ≤ (dataModules version).length ∧ Filled version bytes frame := by
  have hslots := slots_createFrame hpos hmax
  have hfree : ∀ p ∈ (FrameFiller_set (lt_width hpos hmax)).slots (lt_width hpos hmax)
      (QRspec_createFrame version), reserved (QRspec_createFrame version p.1 p.2) = false := by
    rw [hslots]
    exact fun p hp => ((mem_dataModules hpos hmax).mp hp).2
  have hnodup : ((FrameFiller_set (lt_width hpos hmax)).slots (lt_width hpos hmax)
      (QRspec_createFrame version)).Nodup := hslots.symm ▸ nodup_dataModules hpos hmax
  have hfill := fillFrame_eq bytes hfree hnodup
  rw [hfill, hslots]
  split_ifs with hlength
  · refine ⟨hlength, map_putAll (nodup_dataModules hpos hmax) hlength, ?_⟩
    intro y x hnot
    exact putAll_zip_of_not_mem hlength hnot
  · exact Nat.lt_of_not_le hlength

/-- The filler of a new frame gives out every module for data once and nothing else, as many as
the code words and the remainder have bits; bytes fail to fit only where they are more, and
otherwise each of them ends in its own module while all other modules stay as they are. -/
theorem fillFrame_spec (hpos : 1 ≤ version) (hmax : version ≤ QRSPEC_VERSION_MAX)
    (bytes : List UInt8) :
    (dataModules version).Nodup ∧
      (∀ y x, (y, x) ∈ dataModules version ↔
        (y < QRspec_getWidth version ∧ x < QRspec_getWidth version) ∧
          reserved (QRspec_createFrame version y x) = false) ∧
      match fillFrame (lt_width hpos hmax) bytes (QRspec_createFrame version)
        (FrameFiller_set (lt_width hpos hmax)) with
      | none => (capacityOf version).words * 8 + QRspec_getRemainder version < bytes.length
      | some frame => bytes.length ≤
          (capacityOf version).words * 8 + QRspec_getRemainder version ∧
            Filled version bytes frame := by
  rw [← length_dataModules hpos hmax]
  exact ⟨nodup_dataModules hpos hmax, fun _ _ => mem_dataModules hpos hmax,
    fillFrame_createFrame hpos hmax bytes⟩

/-- A dark module, a light one and a dark one in the smallest frame. -/
theorem fillFrame_spec_three :
    (dataModules 1).Nodup ∧
      (∀ y x, (y, x) ∈ dataModules 1 ↔ (y < QRspec_getWidth 1 ∧ x < QRspec_getWidth 1) ∧
        reserved (QRspec_createFrame 1 y x) = false) ∧
      match fillFrame (@lt_width 1 (by decide) (by decide)) [1, 0, 1]
        (QRspec_createFrame 1) (FrameFiller_set (lt_width (by decide) (by decide))) with
      | none => (capacityOf 1).words * 8 + QRspec_getRemainder 1 < 3
      | some frame => 3 ≤ (capacityOf 1).words * 8 + QRspec_getRemainder 1 ∧
          Filled 1 [1, 0, 1] frame :=
  fillFrame_spec (by decide) (by decide) [1, 0, 1]

end Versions

end ConcealDesktop.Qrencode
