import ConcealDesktop.AmountText
import ConcealDesktop.SendMessage

/-! The message editor of OverviewFrame. Each change of its text emits a signal whose slot cuts off
one character of a text that is too long; the cut is a change as well, so the slot is entered again
before it has returned. The editor, the counter beside it and the Send button each have a limit. -/
namespace ConcealDesktop.OverviewFrame

/-- The text of the editor, the text of the counter and the warnings shown, latest first. -/
structure MessageEditor where
  messageTextEdit : QString
  messageLength : QString
  notified : List StdString
deriving DecidableEq

def maximumReached : StdString :=
  bytes "Warning: you have reached the maximum message size of 260 characters."

/-- The slot of textChanged. The text gets shorter each time that the slot is entered again. -/
def recalculateMessageLength (e : MessageEditor) : MessageEditor :=
  let e :=
    if 261 < e.messageTextEdit.length then
      -- setPlainText emits textChanged and returns when the slot has
      let inner := recalculateMessageLength
        { e with messageTextEdit := e.messageTextEdit.take (e.messageTextEdit.length - 1) }
      { inner with notified := maximumReached :: inner.notified }
    else e
  { e with messageLength := QString.number (messageSize e.messageTextEdit) }
termination_by e.messageTextEdit.length
decreasing_by
  rw [List.length_take]
  omega

def messageTextChanged (e : MessageEditor) : MessageEditor := recalculateMessageLength e

/-- The user types or pastes, which leaves `text` in the editor and emits textChanged. -/
def MessageEditor.put (e : MessageEditor) (text : QString) : MessageEditor :=
  messageTextChanged { e with messageTextEdit := text }

/-- Nothing but the length of the text stands between the form of a message and its submission. -/
def MessageReady (core : ConcealCore) (f : FrameState) (balance : UInt64) (form : MessageForm) :
    Prop :=
  f.checkWalletPassword = true ∧ f.isOpen = true ∧ f.trackingMode = false ∧
    MESSAGE_COST ≤ balance ∧
    (CurrencyAdapter.isValidOpenAliasAddress form.addressMessageEdit = true →
      (core.fetch_dns_txt form.addressMessageEdit).isSome)

/-- The editor holds the longest part of the text, from its start, with at most 260 characters. -/
def EditorLimits (e : MessageEditor) (text : QString) : Prop :=
  (e.put text).messageTextEdit = text.take 260

/-- The counter shows the number of characters in the editor. -/
def CounterCounts (e : MessageEditor) (text : QString) : Prop :=
  (e.put text).messageLength = QString.number (e.put text).messageTextEdit.length

/-- The Send button submits the text that the form holds exactly if it has at most 260
characters. -/
def SubmissionLimits (text : QString) : Prop :=
  ∀ (toStdString : QString → StdString) (core : ConcealCore) (f : FrameState) (balance : UInt64)
    (now : ℕ) (form : MessageForm), form.messageTextEdit = text →
      MessageReady core f balance form →
        ((∃ s, sendMessageClicked toStdString core f balance now form = .ok (some s)) ↔
          text.length ≤ 260)

/-- The Send button submits what the editor has made of the text exactly if the text has at most 260
characters. -/
def PutLimits (e : MessageEditor) (text : QString) : Prop :=
  ∀ (toStdString : QString → StdString) (core : ConcealCore) (f : FrameState) (balance : UInt64)
    (now : ℕ) (form : MessageForm), form.messageTextEdit = (e.put text).messageTextEdit →
      MessageReady core f balance form →
        ((∃ s, sendMessageClicked toStdString core f balance now form = .ok (some s)) ↔
          text.length ≤ 260)

section Limits

/-- The slot leaves the first 261 characters, the counter of that text and a warning for every
character that is cut off. -/
theorem recalculateMessageLength_eq (e : MessageEditor) :
    recalculateMessageLength e =
      ⟨e.messageTextEdit.take 261, QString.number (messageSize (e.messageTextEdit.take 261)),
        List.replicate (e.messageTextEdit.length - 261) maximumReached ++ e.notified⟩ := by
  induction hn : e.messageTextEdit.length using Nat.strongRecOn generalizing e with
  | ind n ih =>
    rw [recalculateMessageLength]
    split_ifs with hlong
    · have hlength : (e.messageTextEdit.take (e.messageTextEdit.length - 1)).length = n - 1 := by
        rw [List.length_take]
        omega
      have htake : (e.messageTextEdit.take (e.messageTextEdit.length - 1)).take 261 =
          e.messageTextEdit.take 261 := by
        rw [List.take_take, min_eq_left (by omega)]
      have hwarnings : maximumReached :: (List.replicate (n - 1 - 261) maximumReached ++
          e.notified) = List.replicate (n - 261) maximumReached ++ e.notified := by
        have hcount : n - 1 - 261 + 1 = n - 261 := by omega
        rw [← List.cons_append, ← List.replicate_succ, hcount]
      dsimp only
      rw [ih (n - 1) (by omega) _ hlength]
      dsimp only
      rw [htake, hwarnings]
    · have hnone : n - 261 = 0 := by omega
      rw [List.take_of_length_le (by omega), hnone]
      rfl

theorem put_eq (e : MessageEditor) (text : QString) :
    e.put text = ⟨text.take 261, QString.number (messageSize (text.take 261)),
      List.replicate (text.length - 261) maximumReached ++ e.notified⟩ :=
  recalculateMessageLength_eq _

/-- Whatever the editor holds is short enough for the Send button. -/
theorem messageSize_put (e : MessageEditor) (text : QString) :
    messageSize (e.put text).messageTextEdit ≤ 260 := by
  rw [put_eq, messageSize, List.length_take]
  omega

theorem editorLimits_iff (e : MessageEditor) (text : QString) :
    EditorLimits e text ↔ text.length ≤ 260 := by
  unfold EditorLimits
  rw [put_eq]
  constructor
  · intro h
    have hlength := congrArg List.length h
    rw [List.length_take, List.length_take] at hlength
    omega
  · intro h
    rw [List.take_of_length_le h, List.take_of_length_le (by omega)]

theorem number_injective : Function.Injective QString.number := by
  intro m n h
  rw [← QString.digitsValue_number m, h, QString.digitsValue_number]

theorem counterCounts_iff (e : MessageEditor) (text : QString) :
    CounterCounts e text ↔ text = [] := by
  unfold CounterCounts
  rw [put_eq, number_injective.eq_iff, messageSize, List.length_take,
    ← List.length_eq_zero_iff]
  omega

theorem submits_iff {toStdString : QString → StdString} {core : ConcealCore} {f : FrameState}
    {balance : UInt64} {now : ℕ} {form : MessageForm} (hready : MessageReady core f balance form) :
    (∃ s, sendMessageClicked toStdString core f balance now form = .ok (some s)) ↔
      messageSize form.messageTextEdit ≤ 260 := by
  obtain ⟨hpassword, hopen, htracking, hbalance, halias⟩ := hready
  constructor
  · rintro ⟨s, hs⟩
    obtain ⟨-, -, -, -, address, -, hle, -⟩ := sendMessageClicked_submits_iff.mp hs
    exact hle
  · intro hle
    obtain ⟨address, haddress⟩ := resolveMessageAlias_isOk_iff.mpr halias
    exact ⟨_, sendMessageClicked_submits_iff.mpr
      ⟨hpassword, hopen, htracking, hbalance, address, haddress, hle, rfl⟩⟩

theorem ready_plainMessage (text : QString) :
    MessageReady basePointCore (embeddedFrame 5000) 5000
      { plainMessage with messageTextEdit := text } := by
  have halias : ¬ CurrencyAdapter.isValidOpenAliasAddress basePointAddress = true := by decide
  exact ⟨rfl, rfl, rfl, by decide, fun h => absurd h halias⟩

theorem submissionLimits_iff (text : QString) : SubmissionLimits text ↔ text.length ≠ 261 := by
  constructor
  · intro h hlength
    have hlimit := h (List.map UInt16.toUInt8) basePointCore (embeddedFrame 5000) 5000 0
      { plainMessage with messageTextEdit := text } rfl (ready_plainMessage text)
    have hshort : text.length - 1 ≤ 260 ↔ text.length ≤ 260 :=
      (submits_iff (ready_plainMessage text)).symm.trans hlimit
    omega
  · rintro hne toStdString core f balance now form rfl hready
    rw [submits_iff hready, messageSize]
    omega

theorem putLimits_iff (e : MessageEditor) (text : QString) :
    PutLimits e text ↔ text.length ≤ 260 := by
  have hshort := messageSize_put e text
  constructor
  · intro h
    have hready := ready_plainMessage (e.put text).messageTextEdit
    exact (h (List.map UInt16.toUInt8) basePointCore (embeddedFrame 5000) 5000 0
      { plainMessage with messageTextEdit := (e.put text).messageTextEdit } rfl hready).mp
      ((submits_iff hready).mpr hshort)
  · intro hle toStdString core f balance now form hform hready
    rw [submits_iff hready, hform]
    exact iff_of_true hshort hle

/-- The editor keeps to the limit on texts up to it, the counter is right for the empty text only,
and the Send button keeps to the limit on all texts but those of one character more, or, behind the
editor, on texts up to it; so only the empty text is treated as the messages say. -/
theorem messageLimits_iff (e : MessageEditor) (text : QString) :
    (EditorLimits e text ↔ text.length ≤ 260) ∧ (CounterCounts e text ↔ text = []) ∧
      (SubmissionLimits text ↔ text.length ≠ 261) ∧ (PutLimits e text ↔ text.length ≤ 260) ∧
      (EditorLimits e text ∧ CounterCounts e text ∧ SubmissionLimits text ↔ text = []) ∧
      (EditorLimits e text ∧ CounterCounts e text ∧ PutLimits e text ↔ text = []) := by
  refine ⟨editorLimits_iff e text, counterCounts_iff e text, submissionLimits_iff text,
    putLimits_iff e text, ?_⟩
  rw [editorLimits_iff, counterCounts_iff, submissionLimits_iff, putLimits_iff]
  constructor
  all_goals
    constructor
    · exact fun h => h.2.1
    · rintro rfl
      exact ⟨by decide, rfl, by decide⟩

/-- Of 262 characters the editor keeps 261, which the counter shows as 260 and the Send button
submits. -/
theorem messageLimits_exceeded :
    let text : QString := List.replicate 262 (qchar 'a')
    let e : MessageEditor := ⟨[], qstr "0", []⟩
    e.put text = ⟨List.replicate 261 (qchar 'a'), qstr "260", [maximumReached]⟩ ∧
      ¬ EditorLimits e text ∧ ¬ CounterCounts e text ∧
      ¬ SubmissionLimits (e.put text).messageTextEdit ∧ ¬ PutLimits e text := by
  intro text e
  have hput : e.put text = ⟨List.replicate 261 (qchar 'a'), qstr "260", [maximumReached]⟩ := by
    rw [put_eq, List.take_replicate, messageSize, List.length_replicate, List.length_replicate]
    rfl
  refine ⟨hput, ?_, ?_, ?_, ?_⟩
  · rw [editorLimits_iff, List.length_replicate]
    decide
  · rw [counterCounts_iff]
    exact List.cons_ne_nil _ _
  · rw [submissionLimits_iff, hput, List.length_replicate]
    decide
  · rw [putLimits_iff, List.length_replicate]
    decide

end Limits
end ConcealDesktop.OverviewFrame
