import ConcealDesktop.Text

/-! Text messages. A message text may start with a block of header lines, which parseMessage
splits off and makeTextMessage writes back. QTextStream ends a line at LF or CRLF, and a place
marker of QString::arg is a percent sign, an optional L and one or two digits. -/
namespace ConcealDesktop

namespace QTextStream

/-- QTextStream::readLine: the text up to the next line end, and what follows the line end. -/
def readLine : QString → QString × QString
  | [] => ([], [])
  | c :: s =>
    if c = qchar '\n' then ([], s)
    else if c = qchar '\r' ∧ s.head? = some (qchar '\n') then readLine s
    else (c :: (readLine s).1, (readLine s).2)

/-- The lines that readLine returns until the end of the stream, each with the text after it. -/
def readLines : QString → List (QString × QString)
  | [] => []
  | c :: s =>
    if c = qchar '\n' then ([], s) :: readLines s
    else if c = qchar '\r' ∧ s.head? = some (qchar '\n') then readLines s
    else match readLines s with
      | [] => [([c], [])]
      | (line, rest) :: more => (c :: line, rest) :: more

end QTextStream

abbrev MessageHeader := List (QString × QString)

structure Message where
  message : QString
  header : MessageHeader
deriving DecidableEq

namespace Message

def isEmptyChar (c : QChar) : Bool :=
  c == qchar ' ' || c == qchar '\t' || c == qchar '\n' || c == qchar '\r'

/-- The loop of parseMessage from the items read so far: the header, and the text after the
empty line if one ends the block. -/
def parseLines : List (QString × QString) → MessageHeader → MessageHeader × Option QString
  | [], res => (res, none)
  | (line, rest) :: more, res =>
    if line = [] then (res, some rest)
    else match line.splitOn (qchar ':') with
      | key :: value :: _ => parseLines more (res ++ [(QString.trimmed key, QString.trimmed value)])
      | _ => ([], none)

/-- The header, and the value that the message argument is left with. -/
def parseMessage (message : QString) : MessageHeader × QString :=
  let tmpMessage := message.dropWhile isEmptyChar
  if tmpMessage = [] then ([], message)
  else
    let (header, body) := parseLines (QTextStream.readLines tmpMessage) []
    (header, body.getD message)

/-- The constructor from a text: the text is stored first, and parsing the header changes it. -/
def ofText (message : QString) : Message :=
  let (header, body) := parseMessage message
  ⟨body, header⟩

/-- The lines of a message text after its leading blanks, each with the text after it. -/
def messageLines (s : QString) : List (QString × QString) :=
  QTextStream.readLines (s.dropWhile isEmptyChar)

/-- The lines before the first empty line. -/
def headerBlock (s : QString) : List QString :=
  ((messageLines s).map Prod.fst).takeWhile (!·.isEmpty)

/-- The text after the first empty line. -/
def textAfterBlock (s : QString) : Option QString :=
  ((messageLines s).find? (·.1.isEmpty)).map Prod.snd

def keyText (line : QString) : QString := line.takeWhile (· != qchar ':')

/-- The text after the first colon. -/
def valueText (line : QString) : QString := (line.dropWhile (· != qchar ':')).tail

def HasHeader (s : QString) : Prop :=
  headerBlock s ≠ [] ∧ ∀ line ∈ headerBlock s, qchar ':' ∈ line

instance (s : QString) : Decidable (HasHeader s) :=
  inferInstanceAs (Decidable (_ ∧ _))

/-- The message that a text stands for: a block of lines with a colon, ended by an empty line,
is its header, and every other text is all body. -/
def denoted (s : QString) : Message :=
  match textAfterBlock s with
  | some body =>
    if HasHeader s then
      ⟨body, (headerBlock s).map fun line => ((keyText line).trimmed, (valueText line).trimmed)⟩
    else ⟨s, []⟩
  | none => ⟨s, []⟩

/-- What the parser keeps of a header line: the text between the first two colons. -/
def headerItem (line : QString) : QString × QString :=
  ((keyText line).trimmed, QString.trimmed ((valueText line).takeWhile (· != qchar ':')))

theorem keyText_append {line : QString} (h : qchar ':' ∈ line) :
    line = keyText line ++ qchar ':' :: valueText line := by
  have hdrop : line.dropWhile (· != qchar ':') ≠ [] := by
    intro hnil
    simpa using List.dropWhile_eq_nil_iff.mp hnil _ h
  have hhead : (line.dropWhile (· != qchar ':')).head hdrop = qchar ':' := by
    simpa using List.head_dropWhile_not (· != qchar ':') hdrop
  have hcons : line.dropWhile (· != qchar ':') = qchar ':' :: valueText line := by
    calc line.dropWhile (· != qchar ':') = _ := (List.cons_head_tail hdrop).symm
      _ = qchar ':' :: valueText line := by rw [hhead]; rfl
  rw [← hcons]
  exact List.takeWhile_append_dropWhile.symm

theorem colon_notMem_takeWhile (s : QString) : qchar ':' ∉ s.takeWhile (· != qchar ':') := by
  intro h
  simpa using List.mem_takeWhile_imp h

theorem splitOn_colon {line : QString} (h : qchar ':' ∈ line) :
    ∃ more, line.splitOn (qchar ':') =
      keyText line :: (valueText line).takeWhile (· != qchar ':') :: more := by
  have hkey : line.splitOn (qchar ':') = keyText line :: (valueText line).splitOn (qchar ':') := by
    conv_lhs => rw [keyText_append h]
    exact List.splitOn_append_cons_self_of_not_mem (colon_notMem_takeWhile line) _
  rw [hkey]
  by_cases hv : qchar ':' ∈ valueText line
  · refine ⟨(valueText (valueText line)).splitOn (qchar ':'), ?_⟩
    conv_lhs => rw [keyText_append hv]
    congr 1
    exact List.splitOn_append_cons_self_of_not_mem (colon_notMem_takeWhile _) _
  · refine ⟨[], ?_⟩
    have hall : (valueText line).takeWhile (· != qchar ':') = valueText line := by
      apply List.takeWhile_eq_self_iff.mpr
      intro c hc
      have hne : c ≠ qchar ':' := by
        rintro rfl
        exact hv hc
      simpa using hne
    rw [List.splitOn_eq_singleton hv, hall]

theorem parseLines_cons {line rest : QString} (more : List (QString × QString))
    (res : MessageHeader) (hline : line ≠ []) :
    parseLines ((line, rest) :: more) res =
      if qchar ':' ∈ line then parseLines more (res ++ [headerItem line]) else ([], none) := by
  rw [parseLines, if_neg hline]
  split_ifs with hcolon
  · obtain ⟨parts, hparts⟩ := splitOn_colon hcolon
    rw [hparts]
    rfl
  · rw [List.splitOn_eq_singleton hcolon]

/-- The loop reads the lines before the first empty one, and gives up at a line without colon. -/
theorem parseLines_spec (lines : List (QString × QString)) (res : MessageHeader) :
    parseLines lines res =
      if ∀ line ∈ (lines.map Prod.fst).takeWhile (!·.isEmpty), qchar ':' ∈ line then
        (res ++ ((lines.map Prod.fst).takeWhile (!·.isEmpty)).map headerItem,
          (lines.find? (·.1.isEmpty)).map Prod.snd)
      else ([], none) := by
  induction lines generalizing res with
  | nil => simp [parseLines]
  | cons l more ih =>
    obtain ⟨line, rest⟩ := l
    by_cases hline : line = []
    · rw [parseLines, if_pos hline]
      simp [hline]
    · have hempty : (!line.isEmpty) = true := by simpa using hline
      rw [parseLines_cons more res hline, List.map_cons,
        List.takeWhile_cons_of_pos (p := fun l : QString => !l.isEmpty) hempty,
        List.find?_cons_of_neg (by simpa using hline), ih]
      by_cases hcolon : qchar ':' ∈ line
      · simp [hcolon]
      · simp [hcolon]

theorem parseLines_messageLines (s : QString) :
    parseLines (messageLines s) [] =
      if ∀ line ∈ headerBlock s, qchar ':' ∈ line then
        ((headerBlock s).map headerItem, textAfterBlock s)
      else ([], none) := by
  rw [parseLines_spec, List.nil_append]
  rfl

/-- A line that starts with no line end is not empty. -/
theorem readLines_head {c : QChar} {s : QString} (hc : isEmptyChar c = false) :
    ∃ line rest more, QTextStream.readLines (c :: s) = (c :: line, rest) :: more := by
  have hlf : c ≠ qchar '\n' := by
    rintro rfl
    revert hc
    decide
  have hcr : ¬ (c = qchar '\r' ∧ s.head? = some (qchar '\n')) := by
    rintro ⟨rfl, -⟩
    revert hc
    decide
  rw [QTextStream.readLines, if_neg hlf, if_neg hcr]
  cases QTextStream.readLines s with
  | nil => exact ⟨[], [], [], rfl⟩
  | cons l more => exact ⟨l.1, l.2, more, rfl⟩

theorem headerBlock_ne_nil {s : QString} (hs : s.dropWhile isEmptyChar ≠ []) :
    headerBlock s ≠ [] := by
  obtain ⟨c, t, hct⟩ := List.exists_cons_of_ne_nil hs
  have hc : isEmptyChar c = false := Scanner.head?_dropWhile (congrArg List.head? hct)
  obtain ⟨line, rest, more, hlines⟩ := readLines_head (s := t) hc
  unfold headerBlock messageLines
  rw [hct, hlines]
  simp

theorem ofText_eq (s : QString) : ofText s =
    if HasHeader s then ⟨(textAfterBlock s).getD s, (headerBlock s).map headerItem⟩
    else ⟨s, []⟩ := by
  have hlines := parseLines_messageLines s
  unfold messageLines at hlines
  unfold ofText parseMessage
  by_cases hs : s.dropWhile isEmptyChar = []
  · have hblock : headerBlock s = [] := by
      unfold headerBlock messageLines
      rw [hs]
      rfl
    have hno : ¬ HasHeader s := fun h => h.1 hblock
    simp only [hs, ↓reduceIte, hno]
  · have hiff : HasHeader s ↔ ∀ line ∈ headerBlock s, qchar ':' ∈ line :=
      ⟨fun h => h.2, fun h => ⟨headerBlock_ne_nil hs, h⟩⟩
    simp only [hs, ↓reduceIte, hlines, hiff]
    split_ifs <;> rfl

theorem mem_trimmed {c : QChar} {s : QString} (hc : c.isSpace = false) :
    c ∈ s.trimmed ↔ c ∈ s := by
  rw [← List.count_pos_iff, ← List.count_pos_iff, QString.count_trimmed hc]

/-- A value read up to the next colon is the whole value only when there is no such colon. -/
theorem trimmed_takeWhile_colon (value : QString) :
    QString.trimmed (value.takeWhile (· != qchar ':')) = value.trimmed ↔ qchar ':' ∉ value := by
  constructor
  · intro h hmem
    have hcolon : qchar ':' ∈ value.trimmed := (mem_trimmed (by decide)).mpr hmem
    rw [← h] at hcolon
    exact colon_notMem_takeWhile value ((mem_trimmed (by decide)).mp hcolon)
  · intro hno
    congr 1
    apply List.takeWhile_eq_self_iff.mpr
    intro c hc
    have hne : c ≠ qchar ':' := by
      rintro rfl
      exact hno hc
    simpa using hne

/-- The parser splits a text as it stands exactly when the text has no header block, or its
block is ended by an empty line and no header value holds a further colon. -/
theorem ofText_eq_denoted_iff (s : QString) :
    ofText s = denoted s ↔ ¬ HasHeader s ∨
      (textAfterBlock s).isSome ∧ ∀ line ∈ headerBlock s, qchar ':' ∉ valueText line := by
  rw [ofText_eq]
  unfold denoted
  by_cases hheader : HasHeader s
  · cases hafter : textAfterBlock s with
    | none =>
      have hblock := hheader.1
      simp [hheader, hblock]
    | some body =>
      simp only [hheader, ↓reduceIte, Option.getD_some, mk.injEq, true_and, List.map_inj_left,
        not_true, false_or, Option.isSome_some]
      apply forall₂_congr
      intro line hline
      rw [← trimmed_takeWhile_colon]
      simp [headerItem]
  · cases hafter : textAfterBlock s with
    | none => simp [hheader]
    | some body => simp [hheader]

/-- A line with a colon becomes a header in front of itself, and a value loses what follows a
further colon. -/
theorem ofText_ne_denoted :
    ofText (qstr "a:b") = ⟨qstr "a:b", [(qstr "a", qstr "b")]⟩ ∧
      denoted (qstr "a:b") = ⟨qstr "a:b", []⟩ ∧
      ofText (qstr "k:a:b\n\nx") = ⟨qstr "x", [(qstr "k", qstr "a")]⟩ ∧
      denoted (qstr "k:a:b\n\nx") = ⟨qstr "x", [(qstr "k", qstr "a:b")]⟩ := by
  decide

end Message
end ConcealDesktop
