import ConcealDesktop.Library.Template

/-! Filling the holes of a text one after the other. Every step scans the whole text again and
fills the lowest number it finds, so it also sees the holes of the values filled in before. A text
laid out between separators is scanned cell by cell, and the steps can be followed there. -/
namespace Template

variable {α : Type*}

def Piece.number? : Piece α → Option ℕ
  | .char _ => none
  | .hole n _ => some n

/-- The numbers of the holes, from left to right. -/
def numbers (ps : List (Piece α)) : List ℕ := ps.filterMap Piece.number?

def Piece.substitute (value : ℕ → List α) : Piece α → List α
  | .char c => [c]
  | .hole n _ => value n

/-- The text with all its holes replaced at once. -/
def substitute (value : ℕ → List α) (ps : List (Piece α)) : List α :=
  ps.flatMap (Piece.substitute value)

/-- A text without holes. -/
def chars (s : List α) : List (Piece α) := s.map Piece.char

@[simp] theorem numbers_append (ps qs : List (Piece α)) :
    numbers (ps ++ qs) = numbers ps ++ numbers qs :=
  List.filterMap_append

@[simp] theorem substitute_append (value : ℕ → List α) (ps qs : List (Piece α)) :
    substitute value (ps ++ qs) = substitute value ps ++ substitute value qs :=
  List.flatMap_append

@[simp] theorem numbers_chars (s : List α) : numbers (chars s) = [] := by
  induction s with
  | nil => rfl
  | cons c s ih => exact ih

@[simp] theorem fill_chars (n : ℕ) (v s : List α) : fill n v (chars s) = s := by
  induction s with
  | nil => rfl
  | cons c s ih => exact congrArg (c :: ·) ih

@[simp] theorem substitute_chars (value : ℕ → List α) (s : List α) :
    substitute value (chars s) = s := by
  induction s with
  | nil => rfl
  | cons c s ih => exact congrArg (c :: ·) ih

theorem mem_numbers {n : ℕ} {ps : List (Piece α)} :
    n ∈ numbers ps ↔ ∃ t, Piece.hole n t ∈ ps := by
  rw [numbers, List.mem_filterMap]
  constructor
  · rintro ⟨p, hp, hn⟩
    cases p with
    | char c => cases hn
    | hole m t =>
      injection hn with hn
      exact ⟨t, hn ▸ hp⟩
  · rintro ⟨t, ht⟩
    exact ⟨_, ht, rfl⟩

/-- Filling a number that no hole has. -/
theorem fill_of_notMem {n : ℕ} {v : List α} {ps : List (Piece α)} (h : n ∉ numbers ps) :
    fill n v ps = spell ps :=
  fill_eq_spell fun t ht => absurd (mem_numbers.mpr ⟨t, ht⟩) h

theorem min?_concat (l : List ℕ) (n : ℕ) : (l ++ [n]).min? = some (l.foldr min n) := by
  induction l with
  | nil => rfl
  | cons m l ih =>
    rw [List.cons_append, List.min?_cons, ih]
    rfl

/-- A way to find the holes of a text. -/
structure Scanning (α : Type*) where
  scan : List α → List (Piece α)
  scan_nil : scan [] = []
  spell_scan : ∀ s, spell (scan s) = s

namespace Scanning

variable (S : Scanning α)

/-- Fills the holes of the lowest number with a value. -/
def fillNext (s v : List α) : List α :=
  match (numbers (S.scan s)).min? with
  | none => s
  | some n => fill n v (S.scan s)

/-- A text that is inserted as it is, whatever is filled in later. -/
def Inert (v : List α) : Prop := numbers (S.scan v) = []

/-- A text without holes that no hole reaches into. -/
structure Separator where
  text : List α
  splits : ∀ x y, S.scan (x ++ (text ++ y)) = S.scan x ++ (chars text ++ S.scan y)

/-- A hole of the layout, given by its spelling, and the separator behind it. -/
structure Slot where
  number : ℕ
  marker : List α
  scan_marker : S.scan marker = [.hole number marker]
  after : S.Separator

abbrev Cell := List α × S.Separator

variable {S}

def body (cells : List S.Cell) : List α := cells.flatMap fun c => c.1 ++ c.2.text

/-- A text made of cells, each followed by its separator. -/
def lay (first : S.Separator) (cells : List S.Cell) : List α := first.text ++ body cells

def Slot.blank (slot : S.Slot) : S.Cell := (slot.marker, slot.after)

def Slot.filled (slot : S.Slot) (v : List α) : S.Cell := (v, slot.after)

@[simp] theorem body_cons (c : S.Cell) (cells : List S.Cell) :
    body (c :: cells) = c.1 ++ (c.2.text ++ body cells) :=
  List.append_assoc _ _ _

@[simp] theorem body_append (cells more : List S.Cell) :
    body (cells ++ more) = body cells ++ body more :=
  List.flatMap_append

theorem scan_body (cells : List S.Cell) :
    S.scan (body cells) = cells.flatMap fun c => S.scan c.1 ++ chars c.2.text := by
  induction cells with
  | nil => exact S.scan_nil
  | cons c cells ih =>
    rw [body_cons, c.2.splits, ih, List.flatMap_cons, List.append_assoc]

theorem scan_lay (first : S.Separator) (cells : List S.Cell) : S.scan (lay first cells) =
    chars first.text ++ cells.flatMap fun c => S.scan c.1 ++ chars c.2.text := by
  have h := first.splits [] (body cells)
  rw [S.scan_nil, List.nil_append, List.nil_append, scan_body] at h
  exact h

theorem numbers_lay (first : S.Separator) (cells : List S.Cell) :
    numbers (S.scan (lay first cells)) = cells.flatMap fun c => numbers (S.scan c.1) := by
  rw [scan_lay, numbers_append, numbers_chars, List.nil_append]
  induction cells with
  | nil => rfl
  | cons c cells ih =>
    rw [List.flatMap_cons, List.flatMap_cons, numbers_append, numbers_append, numbers_chars,
      List.append_nil, ih]

/-- Filling reaches every cell on its own. -/
theorem fill_lay (n : ℕ) (v : List α) (first : S.Separator) (cells : List S.Cell) :
    fill n v (S.scan (lay first cells)) =
      lay first (cells.map fun c => (fill n v (S.scan c.1), c.2)) := by
  rw [scan_lay, fill_append, fill_chars]
  apply congrArg (first.text ++ ·)
  induction cells with
  | nil => rfl
  | cons c cells ih =>
    rw [List.flatMap_cons, List.map_cons, fill_append, fill_append, fill_chars, ih, body_cons,
      List.append_assoc]

theorem substitute_lay (value : ℕ → List α) (first : S.Separator) (cells : List S.Cell) :
    substitute value (S.scan (lay first cells)) =
      lay first (cells.map fun c => (substitute value (S.scan c.1), c.2)) := by
  rw [scan_lay, substitute_append, substitute_chars]
  apply congrArg (first.text ++ ·)
  induction cells with
  | nil => rfl
  | cons c cells ih =>
    rw [List.flatMap_cons, List.map_cons, substitute_append, substitute_append, substitute_chars,
      ih, body_cons, List.append_assoc]

/-- A cell without holes of the filled number stays. -/
theorem fill_cell {n : ℕ} {x : List α} (v : List α) (h : n ∉ numbers (S.scan x)) :
    fill n v (S.scan x) = x := by
  rw [fill_of_notMem h, S.spell_scan]

/-- Cells without holes of the filled number stay. -/
theorem map_fill {cells : List S.Cell} {n : ℕ} (v : List α)
    (h : ∀ c ∈ cells, n ∉ numbers (S.scan c.1)) :
    (cells.map fun c => (fill n v (S.scan c.1), c.2)) = cells := by
  have hfix : ∀ c ∈ cells, (fill n v (S.scan c.1), c.2) = c := by
    intro c hc
    rw [fill_cell v (h c hc)]
  rw [List.map_congr_left hfix, List.map_id']

theorem notMem_inert {cells : List S.Cell} (h : ∀ c ∈ cells, S.Inert c.1) (n : ℕ) :
    ∀ c ∈ cells, n ∉ numbers (S.scan c.1) := by
  intro c hc
  rw [h c hc]
  exact List.not_mem_nil

theorem numbers_inert {cells : List S.Cell} (h : ∀ c ∈ cells, S.Inert c.1) :
    (cells.flatMap fun c => numbers (S.scan c.1)) = [] :=
  List.flatMap_eq_nil_iff.mpr h

theorem numbers_blank (slot : S.Slot) : numbers (S.scan slot.blank.1) = [slot.number] := by
  rw [Slot.blank, slot.scan_marker]
  rfl

theorem numbers_blanks (slots : List S.Slot) :
    ((slots.map Slot.blank).flatMap fun c => numbers (S.scan c.1)) = slots.map Slot.number := by
  induction slots with
  | nil => rfl
  | cons slot slots ih => rw [List.map_cons, List.flatMap_cons, ih, numbers_blank]; rfl

theorem fill_blank (slot : S.Slot) (v : List α) : fill slot.number v (S.scan slot.marker) = v := by
  rw [slot.scan_marker, fill_singleton, Piece.fill, if_pos rfl]

theorem fillNext_lay {first : S.Separator} {cells : List S.Cell} {n : ℕ} (v : List α)
    (h : (cells.flatMap fun c => numbers (S.scan c.1)).min? = some n) :
    S.fillNext (lay first cells) v =
      lay first (cells.map fun c => (fill n v (S.scan c.1), c.2)) := by
  rw [fillNext, numbers_lay, h]
  exact fill_lay n v first cells

theorem lay_beside (first : S.Separator) (done : List S.Cell) (cell other : S.Cell) :
    lay first (done ++ [cell, other]) =
      (first.text ++ (body done ++ (cell.1 ++ (cell.2.text ++ other.1)))) ++ other.2.text := by
  simp [lay, body]

section Steps

variable (first : S.Separator) {done : List S.Cell} (hdone : ∀ c ∈ done, S.Inert c.1)

include hdone

/-- Behind cells without holes a step fills the first slot. -/
theorem fillNext_blank {slot : S.Slot} {rest : List S.Slot}
    (hrest : ∀ s ∈ rest, slot.number < s.number) (v : List α) :
    S.fillNext (lay first (done ++ slot.blank :: rest.map Slot.blank)) v =
      lay first (done ++ slot.filled v :: rest.map Slot.blank) := by
  have hmin : ((done ++ slot.blank :: rest.map Slot.blank).flatMap
      fun c => numbers (S.scan c.1)).min? = some slot.number := by
    rw [List.flatMap_append, numbers_inert hdone, List.flatMap_cons, numbers_blank,
      numbers_blanks, List.nil_append, List.singleton_append]
    apply List.min?_eq_some_iff.mpr
    refine ⟨List.mem_cons_self, fun n hn => ?_⟩
    rcases List.mem_cons.mp hn with rfl | hn
    · exact Nat.le_refl _
    · obtain ⟨s, hs, rfl⟩ := List.mem_map.mp hn
      exact Nat.le_of_lt (hrest s hs)
  have hlater : ∀ c ∈ rest.map Slot.blank, slot.number ∉ numbers (S.scan c.1) := by
    intro c hc
    obtain ⟨s, hs, rfl⟩ := List.mem_map.mp hc
    rw [numbers_blank, List.mem_singleton]
    exact Nat.ne_of_lt (hrest s hs)
  rw [fillNext_lay v hmin, List.map_append, List.map_cons,
    map_fill v (notMem_inert hdone slot.number), map_fill v hlater]
  show lay first (done ++ (fill slot.number v (S.scan slot.marker), slot.after) :: _) = _
  rw [fill_blank]
  rfl

/-- Values without holes fill the slots one after the other, each its own. -/
theorem foldl_fillNext {slots later : List S.Slot}
    (hsorted : ((slots ++ later).map Slot.number).Pairwise (· < ·)) {value : ℕ → List α}
    (hvalue : ∀ s ∈ slots, S.Inert (value s.number)) :
    (slots.map fun s => value s.number).foldl S.fillNext
        (lay first (done ++ (slots ++ later).map Slot.blank)) =
      lay first (done ++ ((slots.map fun s => s.filled (value s.number)) ++
        later.map Slot.blank)) := by
  induction slots generalizing done with
  | nil => rfl
  | cons slot slots ih =>
    obtain ⟨hslot, hsorted⟩ := List.pairwise_cons.mp hsorted
    have hrest : ∀ s ∈ slots ++ later, slot.number < s.number :=
      fun s hs => hslot _ (List.mem_map_of_mem hs)
    have hnext : ∀ c ∈ done ++ [slot.filled (value slot.number)], S.Inert c.1 := by
      intro c hc
      rcases List.mem_append.mp hc with hc | hc
      · exact hdone c hc
      · rw [List.mem_singleton.mp hc]
        exact hvalue slot List.mem_cons_self
    have htail := ih hnext hsorted fun s hs => hvalue s (List.mem_cons_of_mem slot hs)
    rw [List.append_assoc, List.singleton_append] at htail
    rw [List.map_cons, List.foldl_cons, List.cons_append, List.map_cons,
      fillNext_blank first hdone hrest, htail, List.append_assoc]
    rfl

/-- A step that finds one cell with holes before the last slot fills the lowest number of both. -/
theorem fillNext_beside (cell : S.Cell) (slot : S.Slot) (v : List α) : ∃ n,
    n ∈ numbers (S.scan cell.1) ++ [slot.number] ∧
      (∀ k ∈ numbers (S.scan cell.1) ++ [slot.number], n ≤ k) ∧
      S.fillNext (lay first (done ++ [cell, slot.blank])) v =
        lay first (done ++ [(fill n v (S.scan cell.1), cell.2),
          (fill n v (S.scan slot.marker), slot.after)]) := by
  refine ⟨(numbers (S.scan cell.1)).foldr min slot.number, ?_⟩
  have hmin := min?_concat (numbers (S.scan cell.1)) slot.number
  obtain ⟨hmem, hle⟩ := List.min?_eq_some_iff.mp hmin
  refine ⟨hmem, hle, ?_⟩
  have hnumbers : (done ++ [cell, slot.blank]).flatMap (fun c => numbers (S.scan c.1)) =
      numbers (S.scan cell.1) ++ [slot.number] := by
    rw [List.flatMap_append, numbers_inert hdone, List.flatMap_cons, List.flatMap_singleton,
      numbers_blank, List.nil_append]
  rw [fillNext_lay v (by rw [hnumbers, hmin]), List.map_append,
    map_fill v (notMem_inert hdone _)]
  rfl

/-- The last slot is filled alone exactly when the cell before it holds no number up to its own.
The value must not look like a hole, and not end like one. -/
theorem fillNext_beside_iff [DecidableEq α] {mark last : α} {cell : S.Cell} {slot : S.Slot}
    {v : List α} (hmarked : Marked mark (S.scan cell.1)) (hhead : v.head? ≠ some mark)
    (hend : (cell.2.text ++ v).getLast? = some last) (hlast : slot.marker.getLast? ≠ some last) :
    S.fillNext (lay first (done ++ [cell, slot.blank])) v =
        lay first (done ++ [cell, slot.filled v]) ↔
      ∀ n ∈ numbers (S.scan cell.1), slot.number < n := by
  obtain ⟨n, hmem, hle, hstep⟩ := fillNext_beside first hdone cell slot v
  rw [hstep]
  constructor
  · intro h k hk
    rw [lay_beside, lay_beside] at h
    have htext : fill n v (S.scan cell.1) ++
        (cell.2.text ++ fill n v (S.scan slot.marker)) = cell.1 ++ (cell.2.text ++ v) :=
      List.append_cancel_left (List.append_cancel_left (List.append_cancel_right h))
    have hkn := hle k (List.mem_append_left _ hk)
    by_cases hn : n = slot.number
    · -- The slot is filled, so the cell has kept its text and none of its holes was filled.
      rw [hn, fill_blank, ← List.append_assoc, ← List.append_assoc] at htext
      have hsame := List.append_cancel_right (List.append_cancel_right htext)
      have hspell : fill slot.number v (S.scan cell.1) = spell (S.scan cell.1) := by
        rw [hsame, S.spell_scan]
      have hne : k ≠ slot.number := by
        rintro rfl
        obtain ⟨t, ht⟩ := mem_numbers.mp hk
        obtain ⟨tail, hmark, -⟩ := hmarked _ t ht
        rw [spelling_of_fill_eq_spell hmarked hspell t ht] at hmark
        rw [hmark] at hhead
        exact hhead rfl
      omega
    · -- The slot is left open, so the text ends like its marker instead of like the value.
      have hkeep : fill n v (S.scan slot.marker) = slot.marker := by
        apply fill_cell v
        rw [slot.scan_marker]
        simpa [numbers, Piece.number?] using hn
      have hmarker : slot.marker ≠ [] := by
        intro hnil
        have hscan := slot.scan_marker
        rw [hnil, S.scan_nil] at hscan
        cases hscan
      have hvalue : cell.2.text ++ v ≠ [] := by
        intro hnil
        rw [hnil] at hend
        cases hend
      have hgot := congrArg List.getLast? htext
      rw [hkeep, ← List.append_assoc, List.getLast?_append_of_ne_nil _ hmarker,
        List.getLast?_append_of_ne_nil _ hvalue, hend] at hgot
      exact absurd hgot hlast
  · intro h
    have hn : n = slot.number := by
      have hup := hle slot.number (List.mem_append_right _ List.mem_cons_self)
      rcases List.mem_append.mp hmem with hmem | hmem
      · have := h n hmem
        omega
      · exact List.mem_singleton.mp hmem
    have hnot : slot.number ∉ numbers (S.scan cell.1) := fun hm => absurd (h _ hm) (by omega)
    rw [hn, fill_cell v hnot, fill_blank]
    rfl

end Steps

/-- The text of a layout with its slots open. -/
def layout (first : S.Separator) (slots : List S.Slot) : List α :=
  lay first (slots.map Slot.blank)

/-- Replacing all holes at once fills every slot with the value of its number. -/
theorem substitute_layout (value : ℕ → List α) (first : S.Separator) (slots : List S.Slot) :
    substitute value (S.scan (layout first slots)) =
      lay first (slots.map fun s => s.filled (value s.number)) := by
  rw [layout, substitute_lay, List.map_map]
  congr 1
  apply List.map_congr_left
  intro slot _
  show (substitute value (S.scan slot.marker), slot.after) = _
  rw [slot.scan_marker]
  exact congrArg (·, slot.after) (List.append_nil _)

/-- Values without holes can be filled in one after the other. -/
theorem foldl_eq_substitute {slots : List S.Slot}
    (hsorted : (slots.map Slot.number).Pairwise (· < ·)) {value : ℕ → List α}
    (hvalue : ∀ s ∈ slots, S.Inert (value s.number)) (first : S.Separator) :
    (slots.map fun s => value s.number).foldl S.fillNext (layout first slots) =
      substitute value (S.scan (layout first slots)) := by
  have hnone : ∀ c ∈ ([] : List S.Cell), S.Inert c.1 := nofun
  have hslots : ((slots ++ []).map Slot.number).Pairwise (· < ·) := by rwa [List.append_nil]
  have h := foldl_fillNext first hnone hslots hvalue
  rw [List.append_nil, List.map_nil, List.append_nil] at h
  rw [substitute_layout]
  exact h

/-- Filling in turn, where the value before the last one may hold anything: it comes to replacing
all holes at once exactly when that value holds no number up to the last slot's. -/
theorem foldl_eq_substitute_iff [DecidableEq α] {mark last : α} {earlier : List S.Slot}
    {free slot : S.Slot}
    (hsorted : ((earlier ++ [free, slot]).map Slot.number).Pairwise (· < ·))
    {value : ℕ → List α} (hvalue : ∀ s ∈ earlier, S.Inert (value s.number))
    (hmarked : Marked mark (S.scan (value free.number)))
    (hhead : (value slot.number).head? ≠ some mark)
    (hend : (free.after.text ++ value slot.number).getLast? = some last)
    (hlast : slot.marker.getLast? ≠ some last) (first : S.Separator) :
    ((earlier ++ [free, slot]).map fun s => value s.number).foldl S.fillNext
          (layout first (earlier ++ [free, slot])) =
        substitute value (S.scan (layout first (earlier ++ [free, slot]))) ↔
      ∀ n ∈ numbers (S.scan (value free.number)), slot.number < n := by
  have hdone : ∀ c ∈ earlier.map fun s => s.filled (value s.number), S.Inert c.1 := by
    intro c hc
    obtain ⟨s, hs, rfl⟩ := List.mem_map.mp hc
    exact hvalue s hs
  have hless : ∀ s ∈ [slot], free.number < s.number := by
    rw [List.map_append, List.pairwise_append] at hsorted
    intro s hs
    rw [List.mem_singleton.mp hs]
    exact (List.pairwise_cons.mp hsorted.2.1).1 _ List.mem_cons_self
  have hnone : ∀ c ∈ ([] : List S.Cell), S.Inert c.1 := nofun
  have hearlier := foldl_fillNext first hnone hsorted hvalue
  have hopen := fillNext_blank first hdone hless (value free.number)
  rw [List.nil_append, List.nil_append, List.map_cons, List.map_singleton] at hearlier
  rw [List.map_singleton] at hopen
  rw [substitute_layout, List.map_append, List.foldl_append, layout, hearlier, List.map_cons,
    List.map_singleton, List.foldl_cons, hopen, List.foldl_cons, List.foldl_nil, List.map_append]
  exact fillNext_beside_iff first hdone hmarked hhead hend hlast

end Scanning
end Template
