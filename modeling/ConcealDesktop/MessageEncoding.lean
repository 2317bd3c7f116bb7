import ConcealDesktop.Library.Slots
import ConcealDesktop.Message

/-! The encoder makeTextMessage and reading its texts back. Its template is filled by two calls
of QString::arg, and the second call also sees the place markers of the key. -/
namespace ConcealDesktop

namespace QString

/-- A place marker of QString::arg: a percent sign, an optional L and one or two digits. Only ASCII
digits count; those of other scripts, which QChar::digitValue knows too, are characters here. -/
structure Place where
  localized : Bool
  digits : QString
  digits_ok : digits.all QChar.isDigit = true

namespace Place

def number (p : Place) : ℕ := digitsValue p.digits

def spelling (p : Place) : QString :=
  qchar '%' :: ((if p.localized then [qchar 'L'] else []) ++ p.digits)

end Place

/-- The one or two digits at the start of a text. -/
def leadingDigits (s : QString) : QString := (s.take 2).takeWhile QChar.isDigit

def skipL (s : QString) : QString := if s.head? = some (qchar 'L') then s.tail else s

/-- The marker at the start of a text. -/
def place? : QString → Option Place
  | [] => none
  | c :: s =>
    if c = qchar '%' ∧ leadingDigits (skipL s) ≠ [] then
      some ⟨s.head? = some (qchar 'L'), leadingDigits (skipL s), List.all_takeWhile⟩
    else none

/-- A text cut at its markers; the first argument counts the units of a marker still to skip. -/
def pieces : ℕ → QString → List (Template.Piece QChar)
  | _, [] => []
  | skip + 1, _ :: s => pieces skip s
  | 0, c :: s =>
    match place? (c :: s) with
    | some p => .hole p.number p.spelling :: pieces (p.spelling.length - 1) s
    | none => .char c :: pieces 0 s

def pieceNumber? : Template.Piece QChar → Option ℕ
  | .char _ => none
  | .hole n _ => some n

theorem pieceNumber?_eq : pieceNumber? = Template.Piece.number? := by
  funext p
  cases p <;> rfl

/-- QString::arg replaces every marker with the lowest number that occurs. -/
def arg (s a : QString) : QString :=
  match ((pieces 0 s).filterMap pieceNumber?).min? with
  | none => s
  | some n => Template.fill n a (pieces 0 s)

theorem leadingDigits_start (s : QString) : leadingDigits s <+: s :=
  (List.takeWhile_prefix _).trans (List.take_prefix 2 s)

theorem leadingDigits_break {c : QChar} (hc : c.isDigit = false) (s t : QString) :
    leadingDigits (s ++ c :: t) = leadingDigits s := by
  unfold leadingDigits
  match s with
  | [] => simp [hc]
  | [d] => simp [List.takeWhile_cons, hc]
  | d :: e :: s => simp

theorem spelling_start {s : QString} {p : Place} (h : place? s = some p) : p.spelling <+: s := by
  cases s with
  | nil => cases h
  | cons c s =>
    rw [place?] at h
    split_ifs at h with hc
    injection h with h
    rw [← h, hc.1]
    unfold Place.spelling
    apply (List.prefix_cons_inj _).mpr
    by_cases hl : s.head? = some (qchar 'L')
    · obtain ⟨s, rfl⟩ := List.head?_eq_some_iff.mp hl
      exact (List.prefix_cons_inj _).mpr (leadingDigits_start s)
    · simp only [skipL, hl]
      exact leadingDigits_start s

/-- A unit that cannot belong to a marker before it ends the search for its digits. -/
theorem place?_break {c : QChar} (hc : c.isDigit = false) (hl : c ≠ qchar 'L') (d : QChar)
    (s t : QString) : place? (d :: (s ++ c :: t)) = place? (d :: s) := by
  have hhead : (s ++ c :: t).head? = some (qchar 'L') ↔ s.head? = some (qchar 'L') := by
    cases s with
    | nil => simp [hl]
    | cons e s => rfl
  have hskip : leadingDigits (skipL (s ++ c :: t)) = leadingDigits (skipL s) := by
    unfold skipL
    simp only [hhead]
    split_ifs with hs
    · obtain ⟨s, rfl⟩ := List.head?_eq_some_iff.mp hs
      exact leadingDigits_break hc s t
    · exact leadingDigits_break hc s t
  simp only [place?, hhead, hskip]

theorem spell_pieces (k : ℕ) (s : QString) : Template.spell (pieces k s) = s.drop k := by
  induction s generalizing k with
  | nil => simp [pieces]
  | cons c s ih =>
    cases k with
    | succ k => simpa [pieces] using ih k
    | zero =>
      rw [pieces]
      cases h : place? (c :: s) with
      | none =>
        show [c] ++ Template.spell (pieces 0 s) = c :: s
        rw [ih, List.drop_zero, List.singleton_append]
      | some p =>
        obtain ⟨t, ht⟩ := spelling_start h
        show p.spelling ++ Template.spell (pieces (p.spelling.length - 1) s) = c :: s
        have htail : t = s.drop (p.spelling.length - 1) := by
          have := congrArg (List.drop p.spelling.length) ht
          rwa [List.drop_left, Place.spelling, List.length_cons, List.drop_succ_cons] at this
        rw [ih, ← htail, ht]

theorem pieces_break {c : QChar} (hc : c.isDigit = false) (hl : c ≠ qchar 'L') (k : ℕ)
    (s t : QString) (hk : k ≤ s.length) :
    pieces k (s ++ c :: t) = pieces k s ++ pieces 0 (c :: t) := by
  induction s generalizing k with
  | nil =>
    rw [Nat.le_zero.mp hk]
    simp [pieces]
  | cons d s ih =>
    cases k with
    | succ k => simpa [pieces] using ih k (Nat.le_of_succ_le_succ hk)
    | zero =>
      rw [List.cons_append, pieces, pieces, place?_break hc hl]
      cases h : place? (d :: s) with
      | none =>
        simp [ih 0 (Nat.zero_le _)]
      | some p =>
        have hlen := (spelling_start h).length_le
        simp [ih (p.spelling.length - 1) (by simp at hlen; omega)]

theorem hole_mem_pieces {k n : ℕ} {s t : QString} (h : Template.Piece.hole n t ∈ pieces k s) :
    ∃ p : Place, p.number = n ∧ p.spelling = t := by
  induction s generalizing k with
  | nil =>
    rw [pieces] at h
    cases h
  | cons c s ih =>
    cases k with
    | succ k => exact ih h
    | zero =>
      rw [pieces] at h
      cases hp : place? (c :: s) with
      | none =>
        simp only [hp] at h
        rcases List.mem_cons.mp h with h | h
        · cases h
        · exact ih h
      | some p =>
        simp only [hp] at h
        rcases List.mem_cons.mp h with h | h
        · injection h with hn ht
          exact ⟨p, hn.symm, ht.symm⟩
        · exact ih h

theorem marked_pieces (s : QString) : Template.Marked (qchar '%') (pieces 0 s) := by
  intro n t h
  obtain ⟨p, -, ht⟩ := hole_mem_pieces h
  refine ⟨_, ht.symm, ?_⟩
  intro hmem
  rcases List.mem_append.mp hmem with hmem | hmem
  · split_ifs at hmem
    · revert hmem
      decide
    · cases hmem
  · exact absurd (List.all_eq_true.mp p.digits_ok _ hmem) (by decide)

/-- The spelling of a marker tells its number. -/
theorem number_of_spelling {p : Place} (h : p.spelling = qstr "%2") : p.number = 2 := by
  have htail : (if p.localized then [qchar 'L'] else []) ++ p.digits = [qchar '2'] :=
    (List.cons_eq_cons.mp h).2
  split_ifs at htail
  · exact absurd (List.cons_eq_cons.mp htail).1 (by decide)
  · rw [Place.number, show p.digits = [qchar '2'] from htail]
    rfl

/-- The markers of a text. -/
def Marker (s : QString) (n : ℕ) (spelling : QString) : Prop :=
  Template.Piece.hole n spelling ∈ pieces 0 s

/-- The marker number that the second call of the encoder replaces. -/
def replacedNumber (key : QString) : ℕ :=
  ((pieces 0 key).filterMap pieceNumber?).foldr min 2

theorem arg_template (key : QString) :
    (qstr "%1: %2\n").arg key = key ++ qstr ": %2\n" := by
  have hpieces : pieces 0 (qstr "%1: %2\n") =
      .hole 1 (qstr "%1") :: pieces 0 (qstr ": %2\n") := by decide
  have hmin : ((pieces 0 (qstr "%1: %2\n")).filterMap pieceNumber?).min? = some 1 := by decide
  have hrest : Template.fill 1 key (pieces 0 (qstr ": %2\n")) = qstr ": %2\n" := by rfl
  rw [arg, hmin]
  show Template.fill 1 key (pieces 0 (qstr "%1: %2\n")) = _
  rw [hpieces, Template.fill_cons, hrest]
  rfl

theorem arg_key (key value : QString) : (key ++ qstr ": %2\n").arg value =
    Template.fill (replacedNumber key) value (pieces 0 key) ++
      Template.fill (replacedNumber key) value (pieces 0 (qstr ": %2\n")) := by
  have hpieces : pieces 0 (key ++ qstr ": %2\n") = pieces 0 key ++ pieces 0 (qstr ": %2\n") :=
    pieces_break (by decide) (by decide) 0 key (qstr " %2\n") (Nat.zero_le _)
  have hrest : (pieces 0 (qstr ": %2\n")).filterMap pieceNumber? = [2] := by decide
  have hmin : ((pieces 0 (key ++ qstr ": %2\n")).filterMap pieceNumber?).min? =
      some (replacedNumber key) := by
    rw [hpieces, List.filterMap_append, hrest, Template.min?_concat]
    rfl
  rw [arg, hmin]
  show Template.fill _ _ (pieces 0 (key ++ qstr ": %2\n")) = _
  rw [hpieces, Template.fill_append]

/-- A key survives the encoding when no marker in it is numbered below 2 and every marker
numbered 2 is spelled like the value. -/
def Survives (key value : QString) : Prop :=
  ∀ n spelling, Marker key n spelling → 2 ≤ n ∧ (n = 2 → spelling = value)

theorem mem_numbers {key : QString} {n : ℕ} :
    n ∈ (pieces 0 key).filterMap pieceNumber? ↔ ∃ t, Marker key n t := by
  rw [pieceNumber?_eq]
  exact Template.mem_numbers

/-- The encoder replaces the markers of the lowest number, where its own %2 counts as well. -/
theorem replacedNumber_spec (key : QString) :
    (replacedNumber key = 2 ∨ ∃ t, Marker key (replacedNumber key) t) ∧ replacedNumber key ≤ 2 ∧
      ∀ n t, Marker key n t → replacedNumber key ≤ n := by
  obtain ⟨hmem, hle⟩ := List.min?_eq_some_iff.mp
    (Template.min?_concat ((pieces 0 key).filterMap pieceNumber?) 2)
  constructor
  · rcases List.mem_append.mp hmem with hmem | hmem
    · exact Or.inr (mem_numbers.mp hmem)
    · exact Or.inl (List.mem_singleton.mp hmem)
  · constructor
    · exact hle 2 (List.mem_append_right _ List.mem_cons_self)
    · intro n t h
      exact hle n (List.mem_append_left _ (mem_numbers.mpr ⟨t, h⟩))

/-- A filling and a text without blanks at their ends give a text without blanks at its ends. -/
theorem trimmed_fill {n : ℕ} {v key : QString} (hv : v.trimmed = v) (hne : v ≠ [])
    (hkey : key.trimmed = key) :
    QString.trimmed (Template.fill n v (pieces 0 key)) = Template.fill n v (pieces 0 key) := by
  have hspell : Template.spell (pieces 0 key) = key := spell_pieces 0 key
  apply trimmed_eq_self
  · intro c hc
    rcases Template.head?_fill (n := n) (marked_pieces key) hne with h | h
    · rw [h, ← hv] at hc
      exact isSpace_head_trimmed hc
    · rw [h, hspell, ← hkey] at hc
      exact isSpace_head_trimmed hc
  · intro c hc
    rcases Template.getLast?_fill (n := n) (marked_pieces key) hne with h | h
    · rw [h, ← hv] at hc
      exact isSpace_getLast_trimmed hc
    · rw [h, hspell, ← hkey] at hc
      exact isSpace_getLast_trimmed hc

/-- The key that the encoder writes. -/
def writtenKey (key value : QString) : QString :=
  Template.fill (replacedNumber key) value (pieces 0 key)

def writtenValue (key value : QString) : QString :=
  if replacedNumber key = 2 then value else qstr "%2"

theorem spelling_of_writtenKey {key value : QString} (hkey : key.trimmed = key)
    (hvalue : value.trimmed = value) (h : (writtenKey key value).trimmed = key) :
    ∀ t, Marker key (replacedNumber key) t → t = value := by
  intro t ht
  have hspell : Template.spell (pieces 0 key) = key := spell_pieces 0 key
  have hcount : (writtenKey key value).count (qchar '%') =
      (Template.spell (pieces 0 key)).count (qchar '%') := by
    rw [hspell, ← count_trimmed (by decide), h]
  have hone : value.count (qchar '%') = 1 :=
    Template.count_filling (marked_pieces key) hcount ht
  have hne : value ≠ [] := by
    rintro rfl
    cases hone
  unfold writtenKey at h
  rw [trimmed_fill hvalue hne hkey] at h
  exact Template.spelling_of_fill_eq_spell (marked_pieces key) (h.trans hspell.symm) t ht

/-- What the encoder writes is read back exactly when the key survives. -/
theorem written_iff {key value : QString} (hkey : key.trimmed = key)
    (hvalue : value.trimmed = value) :
    (writtenKey key value).trimmed = key ∧ (writtenValue key value).trimmed = value ↔
      Survives key value := by
  obtain ⟨hcase, hle, hmin⟩ := replacedNumber_spec key
  have hspell : Template.spell (pieces 0 key) = key := spell_pieces 0 key
  constructor
  · rintro ⟨hk, hv⟩ n t ht
    have hsame := spelling_of_writtenKey hkey hvalue hk
    unfold writtenValue at hv
    split_ifs at hv with htwo
    · rw [htwo] at hmin hsame
      exact ⟨hmin n t ht, fun hn => hsame t (hn ▸ ht)⟩
    · -- a marker below 2 would have to be spelled %2
      obtain ⟨t', ht'⟩ := hcase.resolve_left htwo
      obtain ⟨p, hp, hpt⟩ := hole_mem_pieces ht'
      have hvalue2 : value = qstr "%2" := by
        rw [← hv]
        decide
      rw [hsame t' ht', hvalue2] at hpt
      exact absurd (hp.symm.trans (number_of_spelling hpt)) htwo
  · intro hs
    have htwo : replacedNumber key = 2 := by
      rcases hcase with h | ⟨t, ht⟩
      · exact h
      · have := (hs _ t ht).1
        omega
    unfold writtenKey writtenValue
    rw [if_pos htwo, htwo, Template.fill_eq_spell fun t ht => (hs 2 t ht).2 rfl, hspell]
    exact ⟨hkey, hvalue⟩

end QString

namespace Message

def encodeItem (item : QString × QString) : QString :=
  ((qstr "%1: %2\n").arg item.1).arg item.2

def makeTextMessage (message : QString) (header : MessageHeader) : QString :=
  let res := header.flatMap encodeItem
  (if res = [] then res else res ++ [qchar '\n']) ++ message

def getFullMessage (m : Message) : QString := makeTextMessage m.message m.header

theorem readLines_line {l t : QString} (hlf : qchar '\n' ∉ l)
    (hcr : l.getLast? ≠ some (qchar '\r')) :
    QTextStream.readLines (l ++ qchar '\n' :: t) = (l, t) :: QTextStream.readLines t := by
  induction l with
  | nil => rw [List.nil_append, QTextStream.readLines, if_pos rfl]
  | cons c l ih =>
    have hc : c ≠ qchar '\n' := by
      rintro rfl
      exact hlf List.mem_cons_self
    have hl : qchar '\n' ∉ l := fun h => hlf (List.mem_cons_of_mem c h)
    have hend : ¬ (c = qchar '\r' ∧ (l ++ qchar '\n' :: t).head? = some (qchar '\n')) := by
      rintro ⟨rfl, hhead⟩
      cases l with
      | nil => exact hcr rfl
      | cons d l =>
        injection hhead with hd
        exact hl (hd ▸ List.mem_cons_self)
    have hlast : l.getLast? ≠ some (qchar '\r') := by
      intro h
      apply hcr
      rw [List.getLast?_cons, h]
      rfl
    rw [List.cons_append, QTextStream.readLines, if_neg hc, if_neg hend, ih hl hlast]

theorem lf_notMem_readLines (s : QString) :
    ∀ l ∈ QTextStream.readLines s, qchar '\n' ∉ l.1 := by
  induction s with
  | nil => exact fun l hl => (List.not_mem_nil hl).elim
  | cons c s ih =>
    intro l hl
    rw [QTextStream.readLines] at hl
    split_ifs at hl with hlf hcr
    · rcases List.mem_cons.mp hl with rfl | hl
      · exact List.not_mem_nil
      · exact ih l hl
    · exact ih l hl
    · cases hs : QTextStream.readLines s with
      | nil =>
        rw [hs] at hl
        rw [List.mem_singleton.mp hl]
        simpa using Ne.symm hlf
      | cons m more =>
        rw [hs] at hl ih
        rcases List.mem_cons.mp hl with rfl | hl
        · have := ih m List.mem_cons_self
          simpa [Ne.symm hlf] using this
        · exact ih l (List.mem_cons_of_mem m hl)

/-- What the parser can hand to the encoder as a key or a value. -/
structure ItemText (s : QString) : Prop where
  trimmed : s.trimmed = s
  no_colon : qchar ':' ∉ s
  no_line_end : qchar '\n' ∉ s

theorem itemText_trimmed {s : QString} (hcolon : qchar ':' ∉ s) (hlf : qchar '\n' ∉ s) :
    ItemText s.trimmed :=
  ⟨s.trimmed_trimmed, fun h => hcolon (QString.mem_of_mem_trimmed h),
    fun h => hlf (QString.mem_of_mem_trimmed h)⟩

theorem itemText_headerItem {s line : QString} (hline : line ∈ headerBlock s) :
    ItemText (headerItem line).1 ∧ ItemText (headerItem line).2 := by
  have hlf : qchar '\n' ∉ line := by
    obtain ⟨l, hl, rfl⟩ := List.mem_map.mp ((List.takeWhile_prefix _).subset hline)
    exact lf_notMem_readLines _ l hl
  have hvalue : ∀ c ∈ (valueText line).takeWhile (· != qchar ':'), c ∈ line := by
    intro c hc
    have htail := List.mem_of_mem_tail ((List.takeWhile_prefix _).subset hc)
    exact (List.dropWhile_suffix _).subset htail
  constructor
  · apply itemText_trimmed (colon_notMem_takeWhile line)
    exact fun h => hlf ((List.takeWhile_prefix _).subset h)
  · apply itemText_trimmed (colon_notMem_takeWhile _)
    exact fun h => hlf (hvalue _ h)

theorem keyText_colon {k : QString} (hk : qchar ':' ∉ k) (x : QString) :
    keyText (k ++ qchar ':' :: x) = k ∧ valueText (k ++ qchar ':' :: x) = x := by
  have hall : ∀ c ∈ k, (c != qchar ':') = true := by
    intro c hc
    have hne : c ≠ qchar ':' := by
      rintro rfl
      exact hk hc
    simpa using hne
  constructor
  · rw [keyText, List.takeWhile_append_of_pos hall, List.takeWhile_cons_of_neg (by simp),
      List.append_nil]
  · rw [valueText, List.dropWhile_append_of_pos hall, List.dropWhile_cons_of_neg (by simp)]
    rfl

/-- A header line as the template lays it out. -/
def headerLine (k v : QString) : QString := k ++ qchar ':' :: qchar ' ' :: v

theorem headerLine_ne_nil (k v : QString) : headerLine k v ≠ [] :=
  List.append_ne_nil_of_right_ne_nil _ (List.cons_ne_nil _ _)

theorem lf_notMem_headerLine {k v : QString} (hk : qchar '\n' ∉ k) (hv : qchar '\n' ∉ v) :
    qchar '\n' ∉ headerLine k v := by
  intro h
  rcases List.mem_append.mp h with h | h
  · exact hk h
  · rcases List.mem_cons.mp h with h | h
    · revert h
      decide
    · rcases List.mem_cons.mp h with h | h
      · revert h
        decide
      · exact hv h

theorem headerLine_getLast (k : QString) {v : QString} (hv : v.getLast? ≠ some (qchar '\r')) :
    (headerLine k v).getLast? ≠ some (qchar '\r') := by
  unfold headerLine
  rw [List.getLast?_append_of_ne_nil _ (List.cons_ne_nil _ _), List.getLast?_cons,
    List.getLast?_cons]
  intro h
  cases hlast : v.getLast? with
  | none =>
    rw [hlast] at h
    revert h
    decide
  | some c =>
    rw [hlast] at h hv
    exact hv h

/-- The parser reads such a line as the trimmed key and value in it. -/
theorem headerItem_headerLine {k v : QString} (hk : qchar ':' ∉ k) (hv : qchar ':' ∉ v) :
    headerItem (headerLine k v) = (k.trimmed, v.trimmed) := by
  obtain ⟨hkt, hvt⟩ := keyText_colon hk (qchar ' ' :: v)
  have hall : (qchar ' ' :: v).takeWhile (· != qchar ':') = qchar ' ' :: v := by
    apply List.takeWhile_eq_self_iff.mpr
    intro c hc
    have hne : c ≠ qchar ':' := by
      rintro rfl
      rcases List.mem_cons.mp hc with hc | hc
      · revert hc
        decide
      · exact hv hc
    simpa using hne
  rw [headerItem, headerLine, hkt, hvt, hall]
  rfl

theorem encodeItem_eq (item : QString × QString) : encodeItem item =
    headerLine (item.1.writtenKey item.2) (item.1.writtenValue item.2) ++ [qchar '\n'] := by
  have hpieces : QString.pieces 0 (qstr ": %2\n") =
      [.char (qchar ':'), .char (qchar ' '), .hole 2 (qstr "%2"), .char (qchar '\n')] := by
    decide
  rw [encodeItem, QString.arg_template, QString.arg_key, hpieces]
  simp [headerLine, QString.writtenKey, QString.writtenValue, Template.Piece.fill, eq_comm]

section Written

variable {item : QString × QString} (hkey : ItemText item.1) (hvalue : ItemText item.2)

include hkey hvalue

/-- The encoder writes no line end and no further colon into a line. -/
theorem notMem_written {c : QChar} (hc : c = qchar ':' ∨ c = qchar '\n') :
    c ∉ item.1.writtenKey item.2 ∧ c ∉ item.1.writtenValue item.2 := by
  have hk : c ∉ item.1 := by
    rcases hc with rfl | rfl
    · exact hkey.no_colon
    · exact hkey.no_line_end
  have hv : c ∉ item.2 := by
    rcases hc with rfl | rfl
    · exact hvalue.no_colon
    · exact hvalue.no_line_end
  constructor
  · intro h
    rcases Template.mem_fill h with h | h
    · exact hv h
    · rw [QString.spell_pieces] at h
      exact hk h
  · unfold QString.writtenValue
    split_ifs
    · exact hv
    · rcases hc with rfl | rfl <;> decide

omit hkey in
theorem writtenValue_getLast : (item.1.writtenValue item.2).getLast? ≠ some (qchar '\r') := by
  unfold QString.writtenValue
  split_ifs
  · intro h
    rw [← hvalue.trimmed] at h
    have := QString.isSpace_getLast_trimmed h
    revert this
    decide
  · decide

/-- The parser reads a line with a part of a written key as that part and the written value. -/
theorem headerItem_written {k : QString} (hk : ∀ c ∈ k, c ∈ item.1.writtenKey item.2) :
    headerItem (headerLine k (item.1.writtenValue item.2)) =
      (k.trimmed, (item.1.writtenValue item.2).trimmed) := by
  obtain ⟨hnk, hnv⟩ := notMem_written hkey hvalue (Or.inl rfl)
  exact headerItem_headerLine (fun h => hnk (hk _ h)) hnv

theorem readLines_written {k : QString} (hk : ∀ c ∈ k, c ∈ item.1.writtenKey item.2)
    (t : QString) : QTextStream.readLines
        (headerLine k (item.1.writtenValue item.2) ++ qchar '\n' :: t) =
      (headerLine k (item.1.writtenValue item.2), t) :: QTextStream.readLines t := by
  obtain ⟨hnk, hnv⟩ := notMem_written hkey hvalue (Or.inr rfl)
  apply readLines_line
  · exact lf_notMem_headerLine (fun h => hnk (hk _ h)) hnv
  · exact headerLine_getLast k (writtenValue_getLast hvalue)

end Written

def writtenLine (item : QString × QString) : QString :=
  headerLine (item.1.writtenKey item.2) (item.1.writtenValue item.2)

/-- The first line of a text loses its leading blanks. -/
def firstLine (item : QString × QString) : QString :=
  headerLine ((item.1.writtenKey item.2).dropWhile isEmptyChar) (item.1.writtenValue item.2)

/-- Encoded items are read back line by line. -/
theorem readLines_items {items : MessageHeader}
    (h : ∀ i ∈ items, ItemText i.1 ∧ ItemText i.2) (t : QString) :
    ∃ lines, lines.map Prod.fst = items.map writtenLine ∧
      QTextStream.readLines (items.flatMap encodeItem ++ t) =
        lines ++ QTextStream.readLines t := by
  induction items with
  | nil => exact ⟨[], rfl, rfl⟩
  | cons item items ih =>
    obtain ⟨hkey, hvalue⟩ := h item List.mem_cons_self
    obtain ⟨lines, hmap, hread⟩ := ih fun i hi => h i (List.mem_cons_of_mem item hi)
    refine ⟨(writtenLine item, items.flatMap encodeItem ++ t) :: lines, ?_, ?_⟩
    · rw [List.map_cons, List.map_cons, hmap]
    · rw [List.flatMap_cons, encodeItem_eq, List.append_assoc, List.append_assoc,
        List.singleton_append, readLines_written hkey hvalue fun _ hc => hc, hread]
      rfl

theorem dropWhile_isEmptyChar_colon (k x : QString) :
    (k ++ qchar ':' :: x).dropWhile isEmptyChar = k.dropWhile isEmptyChar ++ qchar ':' :: x := by
  induction k with
  | nil => rfl
  | cons c k ih =>
    rw [List.cons_append, List.dropWhile_cons, List.dropWhile_cons]
    split_ifs
    · exact ih
    · rfl

theorem trimmed_dropWhile_isEmptyChar (s : QString) :
    QString.trimmed (s.dropWhile isEmptyChar) = s.trimmed := by
  have hspace (c : QChar) (hc : isEmptyChar c = true) : c.isSpace = true := by
    unfold isEmptyChar at hc
    simp only [Bool.or_eq_true, beq_iff_eq] at hc
    rcases hc with ((rfl | rfl) | rfl) | rfl <;> decide
  unfold QString.trimmed
  congr 1
  induction s with
  | nil => rfl
  | cons c s ih =>
    rw [List.dropWhile_cons]
    split_ifs with hc
    · rw [ih, List.dropWhile_cons_of_pos (hspace c hc)]
    · rfl

theorem messageLines_makeTextMessage {item : QString × QString} {items : MessageHeader}
    (h : ∀ i ∈ item :: items, ItemText i.1 ∧ ItemText i.2) (body : QString) :
    ∃ lines, lines.map Prod.fst = firstLine item :: items.map writtenLine ∧
      messageLines (makeTextMessage body (item :: items)) =
        lines ++ ([], body) :: QTextStream.readLines body := by
  obtain ⟨hkey, hvalue⟩ := h item List.mem_cons_self
  obtain ⟨lines, hmap, hread⟩ :=
    readLines_items (fun i hi => h i (List.mem_cons_of_mem item hi)) (qchar '\n' :: body)
  have htext : makeTextMessage body (item :: items) =
      headerLine (item.1.writtenKey item.2) (item.1.writtenValue item.2) ++
        qchar '\n' :: (items.flatMap encodeItem ++ qchar '\n' :: body) := by
    have hne : (item :: items).flatMap encodeItem ≠ [] := by
      rw [List.flatMap_cons, encodeItem_eq]
      simp [headerLine]
    rw [makeTextMessage, if_neg hne, List.flatMap_cons, encodeItem_eq]
    simp
  have hstrip : (makeTextMessage body (item :: items)).dropWhile isEmptyChar =
      firstLine item ++ qchar '\n' :: (items.flatMap encodeItem ++ qchar '\n' :: body) := by
    rw [htext, headerLine, List.append_assoc, List.cons_append, dropWhile_isEmptyChar_colon]
    simp [firstLine, headerLine]
  have hsub : ∀ c ∈ (item.1.writtenKey item.2).dropWhile isEmptyChar,
      c ∈ item.1.writtenKey item.2 := fun c hc => (List.dropWhile_suffix _).subset hc
  have hfirst := readLines_written hkey hvalue hsub
    (items.flatMap encodeItem ++ qchar '\n' :: body)
  refine ⟨(firstLine item, items.flatMap encodeItem ++ qchar '\n' :: body) :: lines, ?_, ?_⟩
  · rw [List.map_cons, hmap]
  · rw [messageLines, hstrip]
    unfold firstLine
    rw [hfirst, hread, QTextStream.readLines, if_pos rfl]
    rfl

theorem mem_writtenLines {item : QString × QString} {items : MessageHeader} {line : QString}
    (hline : line ∈ firstLine item :: items.map writtenLine) : ∃ k v, line = headerLine k v := by
  rcases List.mem_cons.mp hline with rfl | hline
  · exact ⟨_, _, rfl⟩
  · obtain ⟨i, -, rfl⟩ := List.mem_map.mp hline
    exact ⟨_, _, rfl⟩

section Written

variable {item : QString × QString} {items : MessageHeader}

/-- The written text reads as a header block of the written lines and the body behind it. -/
theorem headerBlock_makeTextMessage (h : ∀ i ∈ item :: items, ItemText i.1 ∧ ItemText i.2)
    (body : QString) :
    headerBlock (makeTextMessage body (item :: items)) =
        firstLine item :: items.map writtenLine ∧
      textAfterBlock (makeTextMessage body (item :: items)) = some body := by
  obtain ⟨lines, hmap, hlines⟩ := messageLines_makeTextMessage h body
  have hnonempty : ∀ line ∈ firstLine item :: items.map writtenLine, (!line.isEmpty) = true := by
    intro line hline
    obtain ⟨k, v, rfl⟩ := mem_writtenLines hline
    simpa using headerLine_ne_nil k v
  constructor
  · rw [headerBlock, hlines, List.map_append, hmap, List.map_cons,
      List.takeWhile_append_of_pos hnonempty, List.takeWhile_cons_of_neg (by simp), List.append_nil]
  · have hnone : lines.find? (·.1.isEmpty) = none := by
      apply List.find?_eq_none.mpr
      intro l hl
      have := hnonempty l.1 (by rw [← hmap]; exact List.mem_map_of_mem hl)
      simpa using this
    rw [textAfterBlock, hlines, List.find?_append, hnone]
    rfl

theorem hasHeader_makeTextMessage (h : ∀ i ∈ item :: items, ItemText i.1 ∧ ItemText i.2)
    (body : QString) : HasHeader (makeTextMessage body (item :: items)) := by
  rw [HasHeader, (headerBlock_makeTextMessage h body).1]
  constructor
  · exact List.cons_ne_nil _ _
  · intro line hline
    obtain ⟨k, v, rfl⟩ := mem_writtenLines hline
    exact List.mem_append_right k List.mem_cons_self

end Written

/-- Reading an encoded header and body back. -/
theorem ofText_makeTextMessage {header : MessageHeader} (hne : header ≠ [])
    (h : ∀ i ∈ header, ItemText i.1 ∧ ItemText i.2) (body : QString) :
    ofText (makeTextMessage body header) =
      ⟨body, header.map fun i => ((i.1.writtenKey i.2).trimmed, (i.1.writtenValue i.2).trimmed)⟩ := by
  obtain ⟨item, items, rfl⟩ := List.exists_cons_of_ne_nil hne
  obtain ⟨hkey, hvalue⟩ := h item List.mem_cons_self
  obtain ⟨hblock, hafter⟩ := headerBlock_makeTextMessage h body
  have hfirst : headerItem (firstLine item) =
      ((item.1.writtenKey item.2).trimmed, (item.1.writtenValue item.2).trimmed) := by
    unfold firstLine
    rw [headerItem_written hkey hvalue fun c hc => (List.dropWhile_suffix _).subset hc,
      trimmed_dropWhile_isEmptyChar]
  rw [ofText_eq, if_pos (hasHeader_makeTextMessage h body), hblock, hafter, List.map_cons, hfirst,
    List.map_map]
  show mk body (_ :: _) = mk body (_ :: _)
  congr 2
  apply List.map_congr_left
  intro i hi
  obtain ⟨hk, hv⟩ := h i (List.mem_cons_of_mem item hi)
  exact headerItem_written hk hv fun _ hc => hc

/-- Reading, writing and reading again gives the same message exactly when every key of the
header survives. -/
theorem ofText_getFullMessage_iff (s : QString) :
    ofText (ofText s).getFullMessage = ofText s ↔
      (HasHeader s → ∀ line ∈ headerBlock s,
        (headerItem line).1.Survives (headerItem line).2) := by
  by_cases hheader : HasHeader s
  · have hne : (headerBlock s).map headerItem ≠ [] := by
      simpa using hheader.1
    have hitems : ∀ i ∈ (headerBlock s).map headerItem, ItemText i.1 ∧ ItemText i.2 := by
      intro i hi
      obtain ⟨line, hline, rfl⟩ := List.mem_map.mp hi
      exact itemText_headerItem hline
    have htext : ofText s = ⟨(textAfterBlock s).getD s, (headerBlock s).map headerItem⟩ := by
      rw [ofText_eq, if_pos hheader]
    rw [htext, getFullMessage, ofText_makeTextMessage hne hitems, mk.injEq]
    simp only [true_and, hheader, true_imp_iff, List.map_map]
    rw [List.map_inj_left]
    apply forall₂_congr
    intro line hline
    obtain ⟨hk, hv⟩ := itemText_headerItem hline
    rw [← QString.written_iff hk.trimmed hv.trimmed, Function.comp_apply, Prod.ext_iff]
  · have htext : ofText s = ⟨s, []⟩ := by rw [ofText_eq, if_neg hheader]
    have hfull : (ofText s).getFullMessage = s := by
      rw [htext]
      rfl
    rw [hfull]
    exact ⟨fun _ h => absurd h hheader, fun _ => rfl⟩

/-- A key with a place marker takes the value instead of the template. -/
theorem ofText_getFullMessage_ne :
    (ofText (qstr "50%1:x\n\nhi")).getFullMessage = qstr "50x: %2\n\nhi" ∧
      ofText (ofText (qstr "50%1:x\n\nhi")).getFullMessage ≠ ofText (qstr "50%1:x\n\nhi") := by
  decide

example : (ofText (qstr "From: a\n\nhello")).getFullMessage = qstr "From: a\n\nhello" := by decide

end Message
end ConcealDesktop
