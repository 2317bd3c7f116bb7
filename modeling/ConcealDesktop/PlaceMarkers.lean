import ConcealDesktop.AmountText
import ConcealDesktop.MessageEncoding

/-! Templates that are filled by a chain of QString::arg, with markers in ASCII digits. Between two
place markers of a template stands a literal that no marker reaches into, so the chain is a filling
of slots; the markers of an escaped or joined text are those of its parts. -/
namespace ConcealDesktop.QString

/-- The scanner for place markers. -/
def scanning : Template.Scanning QChar := ⟨pieces 0, rfl, spell_pieces 0⟩

theorem arg_eq (s a : QString) : s.arg a = scanning.fillNext s a := by
  rw [arg, pieceNumber?_eq]
  rfl

theorem mem_numbers_scan {s : QString} {n : ℕ} :
    n ∈ Template.numbers (scanning.scan s) ↔ ∃ t, Marker s n t :=
  Template.mem_numbers

/-- The numbered place marker as the templates spell it. -/
def place (n : ℕ) : QString := qchar '%' :: number n

theorem scan_place : ∀ n < 100, scanning.scan (place n) = [.hole n (place n)] := by
  decide +kernel

/-- A unit that no place marker holds behind its percent sign. -/
def isBreak (c : QChar) : Bool := !c.isDigit && c != qchar 'L'

/-- A literal that starts with such a unit and has no percent sign. -/
def Separates (text : QString) : Prop := text.head?.any isBreak = true ∧ qchar '%' ∉ text

instance (text : QString) : Decidable (Separates text) := by
  unfold Separates
  infer_instance

theorem pieces_cons_of_ne {c : QChar} (hc : c ≠ qchar '%') (s : QString) :
    pieces 0 (c :: s) = .char c :: pieces 0 s := by
  have hplace : place? (c :: s) = none := if_neg fun h => hc h.1
  rw [pieces, hplace]

theorem pieces_append {w : QString} (hw : qchar '%' ∉ w) (s : QString) :
    pieces 0 (w ++ s) = Template.chars w ++ pieces 0 s := by
  induction w with
  | nil => rfl
  | cons c w ih =>
    obtain ⟨hc, hw⟩ := List.ne_and_not_mem_of_not_mem_cons hw
    rw [List.cons_append, pieces_cons_of_ne hc.symm, ih hw]
    rfl

theorem Separates.splits {text : QString} (h : Separates text) (x y : QString) :
    pieces 0 (x ++ (text ++ y)) = pieces 0 x ++ (Template.chars text ++ pieces 0 y) := by
  obtain ⟨hbreak, hpercent⟩ := h
  rw [← pieces_append hpercent]
  cases text with
  | nil => cases hbreak
  | cons c w =>
    have hc : !c.isDigit ∧ c != qchar 'L' := by simpa [isBreak] using hbreak
    have hdigit : c.isDigit = false := by simpa using hc.1
    have hl : c ≠ qchar 'L' := by simpa using hc.2
    exact pieces_break hdigit hl 0 x (w ++ y) (Nat.zero_le _)

def separator (text : QString) (h : Separates text) : scanning.Separator := ⟨text, h.splits⟩

/-! ### Templates -/

/-- A template: a literal, and place markers with the literals behind them. -/
structure ArgTemplate where
  first : QString
  slots : List (ℕ × QString)
  first_separates : Separates first
  slots_separate : ∀ e ∈ slots, e.1 < 100 ∧ Separates e.2
  sorted : (slots.map Prod.fst).Pairwise (· < ·)

namespace ArgTemplate

def text (t : ArgTemplate) : QString := t.first ++ t.slots.flatMap fun e => place e.1 ++ e.2

def slot (e : ℕ × QString) (h : e.1 < 100 ∧ Separates e.2) : scanning.Slot :=
  ⟨e.1, place e.1, scan_place e.1 h.1, separator e.2 h.2⟩

def blanks (t : ArgTemplate) : List scanning.Slot := t.slots.pmap slot t.slots_separate

def head (t : ArgTemplate) : scanning.Separator := separator t.first t.first_separates

theorem body_pmap {g : scanning.Slot → scanning.Cell} {v : ℕ → QString}
    (hg : ∀ e h, g (slot e h) = (v e.1, separator e.2 h.2)) (l : List (ℕ × QString))
    (h : ∀ e ∈ l, e.1 < 100 ∧ Separates e.2) :
    Template.Scanning.body ((l.pmap slot h).map g) = l.flatMap fun e => v e.1 ++ e.2 := by
  induction l with
  | nil => rfl
  | cons e l ih =>
    rw [List.pmap_cons, List.map_cons, Template.Scanning.body_cons, ih, List.flatMap_cons, hg,
      List.append_assoc]
    rfl

theorem text_eq (t : ArgTemplate) : t.text = Template.Scanning.layout t.head t.blanks :=
  congrArg (t.first ++ ·) (body_pmap (fun _ _ => rfl) t.slots t.slots_separate).symm

theorem map_blanks {β : Type*} (t : ArgTemplate) (f : ℕ → β) :
    t.blanks.map (fun s => f s.number) = t.slots.map fun e => f e.1 := by
  rw [blanks, List.map_pmap]
  show List.pmap (fun e _ => f e.1) t.slots t.slots_separate = _
  exact List.pmap_eq_map _

theorem sorted_blanks (t : ArgTemplate) :
    (t.blanks.map Template.Scanning.Slot.number).Pairwise (· < ·) := by
  have h := t.map_blanks id
  simp only [id_eq] at h
  rw [h]
  exact t.sorted

/-- The text with all place markers replaced at once. -/
def substitute (t : ArgTemplate) (value : ℕ → QString) : QString :=
  Template.substitute value (pieces 0 t.text)

theorem substitute_eq (t : ArgTemplate) (value : ℕ → QString) :
    t.substitute value = t.first ++ t.slots.flatMap fun e => value e.1 ++ e.2 := by
  have hlay := Template.Scanning.substitute_layout value t.head t.blanks
  rw [← text_eq] at hlay
  exact hlay.trans (congrArg (t.first ++ ·) (body_pmap (fun _ _ => rfl) t.slots t.slots_separate))

/-- The text around the value before the last one. -/
theorem substitute_split (t : ArgTemplate) {earlier : List (ℕ × QString)}
    {free last : ℕ × QString} (hslots : t.slots = earlier ++ [free, last]) (value : ℕ → QString) :
    t.substitute value = (t.first ++ earlier.flatMap fun e => value e.1 ++ e.2) ++ value free.1 ++
      (free.2 ++ (value last.1 ++ last.2)) := by
  rw [substitute_eq, hslots, List.flatMap_append, List.flatMap_cons, List.flatMap_singleton]
  simp only [List.append_assoc]

/-- The text after one call of arg for each place marker, in the order of their numbers. -/
def args (t : ArgTemplate) (value : ℕ → QString) : QString :=
  (t.slots.map fun e => value e.1).foldl arg t.text

theorem foldl_arg (s : QString) (values : List QString) :
    values.foldl arg s = values.foldl scanning.fillNext s := by
  have h : arg = scanning.fillNext := by
    funext s a
    exact arg_eq s a
  rw [h]

/-- Values without place markers may be filled in one after the other. -/
theorem args_eq_substitute (t : ArgTemplate) {value : ℕ → QString}
    (h : ∀ e ∈ t.slots, scanning.Inert (value e.1)) : t.args value = t.substitute value := by
  have hblanks : ∀ s ∈ t.blanks, scanning.Inert (value s.number) := by
    intro s hs
    obtain ⟨e, he, rfl⟩ := List.mem_pmap.mp hs
    exact h e he
  rw [args, foldl_arg, ← map_blanks t value, substitute, text_eq]
  exact Template.Scanning.foldl_eq_substitute t.sorted_blanks hblanks t.head

theorem getLast?_place {c : QChar} (hc : c.isDigit = false) (n : ℕ) :
    (place n).getLast? ≠ some c := by
  have hne : number n ≠ [] := by
    rw [number, ne_eq, List.map_eq_nil_iff]
    exact Nat.toDigits_ne_nil
  intro h
  rw [place, ← List.singleton_append, List.getLast?_append_of_ne_nil _ hne] at h
  exact QChar.ne_of_isDigit (isDigit_of_mem_number n c (List.mem_of_getLast? h)) hc rfl

/-- The value before the last one may hold anything but a marker up to the last place. -/
theorem args_eq_substitute_iff (t : ArgTemplate) {earlier : List (ℕ × QString)}
    {free last : ℕ × QString} (hslots : t.slots = earlier ++ [free, last]) {value : ℕ → QString}
    (hearlier : ∀ e ∈ earlier, scanning.Inert (value e.1))
    (hhead : (value last.1).head? ≠ some (qchar '%')) {c : QChar}
    (hend : (free.2 ++ value last.1).getLast? = some c) (hc : c.isDigit = false) :
    t.args value = t.substitute value ↔ ∀ n s, Marker (value free.1) n s → last.1 < n := by
  have hseparate := t.slots_separate
  rw [hslots] at hseparate
  have he : ∀ e ∈ earlier, e.1 < 100 ∧ Separates e.2 :=
    fun e h => hseparate e (List.mem_append_left _ h)
  have hblanks : t.blanks = earlier.pmap slot he ++
      [slot free (hseparate free (by simp)), slot last (hseparate last (by simp))] := by
    simp only [blanks, hslots, List.pmap_append, List.pmap_cons, List.pmap_nil]
  have hsorted := t.sorted_blanks
  have hinert : ∀ s ∈ earlier.pmap slot he, scanning.Inert (value s.number) := by
    intro s hs
    obtain ⟨e, h, rfl⟩ := List.mem_pmap.mp hs
    exact hearlier e h
  rw [args, foldl_arg, ← map_blanks t value, substitute, text_eq]
  rw [hblanks] at hsorted ⊢
  refine (Template.Scanning.foldl_eq_substitute_iff hsorted hinert (marked_pieces _) hhead hend
    (getLast?_place hc last.1) t.head).trans ?_
  constructor
  · intro h n s hs
    exact h n (mem_numbers_scan.mpr ⟨s, hs⟩)
  · intro h n hn
    obtain ⟨s, hs⟩ := mem_numbers_scan.mp hn
    exact h n s hs

end ArgTemplate

/-! ### Markers of composed texts -/

theorem inert_of_percent {s : QString} (h : qchar '%' ∉ s) : scanning.Inert s := by
  have hpieces := pieces_append h []
  rw [List.append_nil] at hpieces
  show Template.numbers (pieces 0 s) = []
  rw [hpieces, Template.numbers_append, Template.numbers_chars]
  rfl

/-- Replacing units that no marker holds by literals that no marker reaches into leaves the
numbers of the markers. -/
theorem numbers_flatMap {f : QChar → QString}
    (hf : ∀ c, f c = [c] ∨ Separates [c] ∧ Separates (f c)) (s : QString) :
    Template.numbers (pieces 0 (s.flatMap f)) = Template.numbers (pieces 0 s) := by
  -- A unit that stays may belong to a marker with the ones before it.
  have hgeneral : ∀ s x, Template.numbers (pieces 0 (x ++ s.flatMap f)) =
      Template.numbers (pieces 0 (x ++ s)) := by
    intro s
    induction s with
    | nil => exact fun _ => rfl
    | cons c s ih =>
      intro x
      rw [List.flatMap_cons]
      rcases hf c with hc | ⟨hc, hfc⟩
      · have hkept := ih (x ++ [c])
        rw [List.append_assoc, List.append_assoc, List.singleton_append] at hkept
        rw [hc]
        exact hkept
      · have hrest := ih []
        rw [List.nil_append, List.nil_append] at hrest
        have hright := hc.splits x s
        rw [List.singleton_append] at hright
        rw [hfc.splits, hright, Template.numbers_append, Template.numbers_append,
          Template.numbers_append, Template.numbers_append, Template.numbers_chars,
          Template.numbers_chars, hrest]
  exact hgeneral s []

/-- The markers of a joined text are those of its parts. -/
theorem numbers_intercalate {sep : QString} (h : Separates sep) (l : List QString) :
    Template.numbers (pieces 0 (List.intercalate sep l)) =
      l.flatMap fun s => Template.numbers (pieces 0 s) := by
  induction l with
  | nil => rfl
  | cons s l ih =>
    cases l with
    | nil => simp
    | cons t l =>
      rw [List.intercalate_cons_cons, List.append_assoc, h.splits, Template.numbers_append,
        Template.numbers_append, Template.numbers_chars, List.nil_append, ih]
      rfl

end ConcealDesktop.QString
