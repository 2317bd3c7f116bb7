import ConcealDesktop.DepositModel
import ConcealDesktop.PlaceMarkers

/-! TransactionDetailsDialog: the page of one transaction, written by a chain of QString::arg into
an HTML template. The fields come from the cells of the two tables, the messages from whoever sent
the transaction, and the call that inserts the deposit information also scans the messages. -/
namespace ConcealDesktop

namespace QString

/-- What toHtmlEscaped writes for a unit. -/
def htmlEscape (c : QChar) : QString :=
  if c = qchar '<' then qstr "&lt;"
  else if c = qchar '>' then qstr "&gt;"
  else if c = qchar '&' then qstr "&amp;"
  else if c = 0x22 then qstr "&quot;"
  else [c]

def toHtmlEscaped (s : QString) : QString := s.flatMap htmlEscape

/-- QString::replace of all occurrences of a unit by a text. -/
def replaceAll (s : QString) (before : QChar) (after : QString) : QString :=
  s.flatMap fun c => if c = before then after else [c]

end QString

namespace QVariant

/-- The texts that Qt makes of bytes, of local times, and of interest / amount * 100 with six
digits behind the point. -/
structure Formats where
  fromUtf8 : StdString → QString
  time : ℕ → QString
  rate : ℕ → ℕ → QString

/-- QVariant::toString of the values that displayed cells have. -/
def toString (f : Formats) : QVariant → QString
  | .text s => s
  | .utf8 s => f.fromUtf8 s
  | .bytes b => f.fromUtf8 b
  | .dateText seconds => f.time seconds
  | .rate amount interest => (qstr "%1 %").arg (f.rate amount interest)
  | .int n => if n < 0 then qchar '-' :: QString.number n.natAbs else QString.number n.natAbs
  | _ => []

end QVariant

namespace TransactionDetailsDialog
open WalletAdapter QString

/-! ### The dialog -/

/-- The upper-case text of CurrencyAdapter::getCurrencyTicker. -/
def currencyTicker : QString := qstr "CCX"

/-- What the dialog reads. The columns of the transaction's deposit stand in the order of the
template; a transaction without a deposit has none. -/
structure Details where
  numberOfConfirmations : ℕ
  date : QString
  address : QString
  amountText : QString
  feeText : QString
  paymentId : QString
  hash : QString
  secretKey : QString
  messageList : List QString
  deposit : Option (List QString)
  deriving DecidableEq

def depositColumns : List DepositModel.Column :=
  [.state, .amount, .interest, .sum, .termRate, .term, .unlockHeight, .unlockTime,
    .creatingTransactionHash, .creatingHeight, .creatingTime, .spendingTransactionHash,
    .spendingHeight, .spendingTime]

section Reading

variable (f : QVariant.Formats) (env : Environment) (wallet : Option Wallet)
  (transactions : TransactionsModel) (deposits : DepositModel)

/-- The text of a sibling cell of the transaction. -/
def cellText (row : ℤ) (column : TransactionsModel.Column) : QString :=
  (TransactionsModel.data env wallet transactions
    (TransactionsModel.index row column.toInt) .display).toString f

/-- A role of the transaction, whose index has the row as its column too. -/
def roleValue (row : ℤ) (role : TransactionsModel.Role) : QVariant :=
  TransactionsModel.data env wallet transactions (TransactionsModel.index row row) role

def feeText (row : ℤ) : QString :=
  env.formatAmount ((roleValue env wallet transactions row .fee).toUnsigned 64) ++ qchar ' ' ::
    currencyTicker

/-- ROLE_MESSAGES as a list of texts. -/
def messageList (row : ℤ) : List QString :=
  match roleValue env wallet transactions row .messages with
  | .texts l => l.map f.fromUtf8
  | _ => []

/-- The text of a deposit column; amounts are followed by the ticker. -/
def depositText (depositId : DepositId) (column : DepositModel.Column) : Option QString :=
  (DepositModel.data env wallet transactions deposits
      (DepositModel.index (toInt depositId) column.toInt) .display).map fun v =>
    match column with
    | .amount | .interest | .sum => v.toString f ++ qchar ' ' :: currencyTicker
    | _ => v.toString f

/-- No result when the deposit's cells are read out of bounds. -/
def read (row : ℤ) : Option Details :=
  let cell := cellText f env wallet transactions row
  let details : Details := {
    numberOfConfirmations :=
      (roleValue env wallet transactions row .numberOfConfirmations).toUnsigned 64
    date := cell .date
    address := cell .address
    amountText := cell .amount
    feeText := feeText env wallet transactions row
    paymentId := cell .paymentId
    hash := cell .hash
    secretKey := cell .secretkey
    messageList := messageList f env wallet transactions row
    deposit := none }
  let depositId := (roleValue env wallet transactions row .depositId).toUnsigned 64
  if depositId = WALLET_INVALID_DEPOSIT_ID then some details
  else (depositColumns.mapM (depositText f env wallet transactions deposits depositId)).map
    fun columns => { details with deposit := some columns }

end Reading

def titled (title : String) : QString :=
  qstr "<span style=\" font-weight:600;\">" ++ (qstr title ++ qstr ": </span>")

def m_detailsTemplate : QString :=
  qstr "<html><head><meta name=\"qrichtext\" content=\"1\" /><style type=\"text/css\">\n" ++
  qstr "</style></head><body style=\"font-style:normal;\">\n" ++
  titled "Status" ++ place 1 ++ qstr " confirmations<br>\n" ++
  titled "Date" ++ place 2 ++ qstr "<br>\n" ++
  titled "To" ++ place 4 ++ qstr "<br>\n" ++
  titled "Amount" ++ place 5 ++ qstr "<br>\n" ++
  titled "Fee" ++ place 6 ++ qstr "<br>\n" ++
  titled "Payment ID" ++ place 8 ++ qstr "<br><br>\n" ++
  titled "Transaction hash" ++ place 9 ++ qstr "<br><br>\n" ++
  titled "Transaction secret key" ++ place 10 ++ qstr "<br><br>\n" ++
  titled "Messages" ++ qstr "<br>" ++ place 11 ++ qstr "<br><br>\n" ++
  qstr "<span><br>" ++ place 12 ++ qstr "<br>\n" ++
  qstr "</body></html>"

def depositInfoTemplate : QString :=
  titled "Deposit info" ++ qstr "</p><br>\n" ++
  titled "Status" ++ place 1 ++ qstr " confirmations</p><br>\n" ++
  titled "Amount" ++ place 2 ++ qstr "</p><br>\n" ++
  titled "Interest" ++ place 3 ++ qstr "</p><br>\n" ++
  titled "Sum" ++ place 4 ++ qstr "</p><br>\n" ++
  titled "Term interest rate" ++ place 5 ++ qstr "</p><br>\n" ++
  titled "Term" ++ place 6 ++ qstr "</p><br>\n" ++
  titled "Unlock height" ++ place 7 ++ qstr "</p><br>\n" ++
  titled "Expected unlock time" ++ place 8 ++ qstr "</p><br>\n" ++
  titled "Creating transaction" ++ place 9 ++ qstr "</p><br>\n" ++
  titled "Creating height" ++ place 10 ++ qstr "</p><br>\n" ++
  titled "Creating time" ++ place 11 ++ qstr "</p><br>\n" ++
  titled "Spending transaction" ++ place 12 ++ qstr "</p><br>\n" ++
  titled "Spending height" ++ place 13 ++ qstr "</p><br>\n" ++
  titled "Spending time" ++ place 14 ++ qstr "</p><br>\n"

namespace Details

variable (d : Details)

def depositInfo : QString := d.deposit.elim [] fun columns => columns.foldl arg depositInfoTemplate

/-- The escaped messages under each other. -/
def messagesText : QString :=
  List.intercalate (qstr "<br><br>=========<br><br>")
    (d.messageList.map fun m => m.toHtmlEscaped.replaceAll (qchar '\n') (qstr "<br>"))

/-- The page that the dialog shows. -/
def html : QString :=
  [QString.number d.numberOfConfirmations, d.date, d.address, d.amountText, d.feeText, d.paymentId,
    d.hash, d.secretKey, d.messagesText, d.depositInfo].foldl arg m_detailsTemplate

/-! ### Every field in its own place -/

/-- The deposit columns by the numbers of their places. -/
def depositField (columns : List QString) (n : ℕ) : QString := (columns[n - 1]?).getD []

/-- The deposit information with its columns put in at once. -/
def depositInPlace : QString :=
  d.deposit.elim [] fun columns =>
    Template.substitute (depositField columns) (pieces 0 depositInfoTemplate)

/-- The fields by the numbers of their places. -/
def field : ℕ → QString
  | 1 => QString.number d.numberOfConfirmations
  | 2 => d.date
  | 4 => d.address
  | 5 => d.amountText
  | 6 => d.feeText
  | 8 => d.paymentId
  | 9 => d.hash
  | 10 => d.secretKey
  | 11 => d.messagesText
  | 12 => d.depositInPlace
  | _ => []

/-- The page with the fields put in at once. -/
def htmlInPlace : QString := Template.substitute d.field (pieces 0 m_detailsTemplate)

end Details

/-- The template cut at its place markers. -/
def detailsLayout : ArgTemplate where
  first := qstr "<html><head><meta name=\"qrichtext\" content=\"1\" /><style type=\"text/css\">\n" ++
    (qstr "</style></head><body style=\"font-style:normal;\">\n" ++ titled "Status")
  slots := [(1, qstr " confirmations<br>\n" ++ titled "Date"), (2, qstr "<br>\n" ++ titled "To"),
    (4, qstr "<br>\n" ++ titled "Amount"), (5, qstr "<br>\n" ++ titled "Fee"),
    (6, qstr "<br>\n" ++ titled "Payment ID"), (8, qstr "<br><br>\n" ++ titled "Transaction hash"),
    (9, qstr "<br><br>\n" ++ titled "Transaction secret key"),
    (10, qstr "<br><br>\n" ++ (titled "Messages" ++ qstr "<br>")),
    (11, qstr "<br><br>\n" ++ qstr "<span><br>"), (12, qstr "<br>\n" ++ qstr "</body></html>")]
  first_separates := by decide +kernel
  slots_separate := by decide +kernel
  sorted := by decide

theorem text_detailsLayout : detailsLayout.text = m_detailsTemplate := by
  unfold ArgTemplate.text detailsLayout m_detailsTemplate
  simp only [List.append_assoc, List.flatMap_cons]
  rw [List.flatMap_nil, List.append_nil]

def depositLayout : ArgTemplate where
  first := titled "Deposit info" ++ (qstr "</p><br>\n" ++ titled "Status")
  slots := [(1, qstr " confirmations</p><br>\n" ++ titled "Amount"),
    (2, qstr "</p><br>\n" ++ titled "Interest"), (3, qstr "</p><br>\n" ++ titled "Sum"),
    (4, qstr "</p><br>\n" ++ titled "Term interest rate"), (5, qstr "</p><br>\n" ++ titled "Term"),
    (6, qstr "</p><br>\n" ++ titled "Unlock height"),
    (7, qstr "</p><br>\n" ++ titled "Expected unlock time"),
    (8, qstr "</p><br>\n" ++ titled "Creating transaction"),
    (9, qstr "</p><br>\n" ++ titled "Creating height"),
    (10, qstr "</p><br>\n" ++ titled "Creating time"),
    (11, qstr "</p><br>\n" ++ titled "Spending transaction"),
    (12, qstr "</p><br>\n" ++ titled "Spending height"),
    (13, qstr "</p><br>\n" ++ titled "Spending time"), (14, qstr "</p><br>\n")]
  first_separates := by decide +kernel
  slots_separate := by decide +kernel
  sorted := by decide

theorem text_depositLayout : depositLayout.text = depositInfoTemplate := by
  unfold ArgTemplate.text depositLayout depositInfoTemplate
  simp only [List.append_assoc, List.flatMap_cons]
  rw [List.flatMap_nil, List.append_nil]

/-- The places of the template before those of the messages and of the deposit information. -/
theorem detailsLayout_slots : ∃ earlier free last,
    detailsLayout.slots = earlier ++ [free, last] ∧ earlier.map Prod.fst = [1, 2, 4, 5, 6, 8, 9, 10] ∧
      free = (11, qstr "<br><br>\n" ++ qstr "<span><br>") ∧
      last = (12, qstr "<br>\n" ++ qstr "</body></html>") :=
  ⟨detailsLayout.slots.take 8, _, _, rfl, rfl, rfl, rfl⟩

namespace Details

variable {d : Details}

/-- Apart from the messages no field holds a place marker. -/
structure Plain (d : Details) : Prop where
  fields : ∀ n ∈ [2, 4, 5, 6, 8, 9, 10], scanning.Inert (d.field n)
  deposit : ∀ columns, d.deposit = some columns →
    columns.length = 14 ∧ ∀ s ∈ columns, scanning.Inert s

theorem depositInfo_eq (hd : d.Plain) : d.depositInfo = d.depositInPlace := by
  unfold depositInfo depositInPlace
  cases h : d.deposit with
  | none => rfl
  | some columns =>
    obtain ⟨hlength, hinert⟩ := hd.deposit columns h
    have hslots : depositLayout.slots.map (fun e => depositField columns e.1) =
        (List.range 14).map fun i => (columns[i]?).getD [] := rfl
    have hcolumns : (List.range 14).map (fun i => (columns[i]?).getD []) = columns := by
      apply List.ext_getElem
      · rw [List.length_map, List.length_range, hlength]
      · intro i _ hi
        simp [hi]
    have hfields : ∀ e ∈ depositLayout.slots, scanning.Inert (depositField columns e.1) := by
      intro e he
      have hmem := List.mem_map_of_mem (f := fun e => depositField columns e.1) he
      rw [hslots, hcolumns] at hmem
      exact hinert _ hmem
    have hargs := depositLayout.args_eq_substitute hfields
    rw [ArgTemplate.args, ArgTemplate.substitute, text_depositLayout, hslots, hcolumns] at hargs
    exact hargs

theorem html_eq (hd : d.Plain) : d.html = detailsLayout.args d.field := by
  have hfields : detailsLayout.slots.map (fun e => d.field e.1) =
      [QString.number d.numberOfConfirmations, d.date, d.address, d.amountText, d.feeText,
        d.paymentId, d.hash, d.secretKey, d.messagesText, d.depositInPlace] := rfl
  rw [ArgTemplate.args, hfields, text_detailsLayout, html, depositInfo_eq hd]

theorem htmlInPlace_eq (d : Details) : d.htmlInPlace = detailsLayout.substitute d.field := by
  rw [ArgTemplate.substitute, text_detailsLayout]
  rfl

/-- The deposit information starts and ends with a tag and a line end, unless it is empty. -/
theorem depositInPlace_ends (d : Details) : d.depositInPlace = [] ∨
    d.depositInPlace.head? = some (qchar '<') ∧ d.depositInPlace.getLast? = some (qchar '\n') := by
  unfold depositInPlace
  cases d.deposit with
  | none => exact .inl rfl
  | some columns =>
    have hslots : depositLayout.slots = depositLayout.slots.take 12 ++
        [(13, qstr "</p><br>\n" ++ titled "Spending time"), (14, qstr "</p><br>\n")] := rfl
    have hsplit := depositLayout.substitute_split hslots (depositField columns)
    rw [ArgTemplate.substitute, text_depositLayout] at hsplit
    have hfirst : depositLayout.first.head? = some (qchar '<') := by decide +kernel
    have hlast : (qstr "</p><br>\n").getLast? = some (qchar '\n') := by decide
    apply Or.inr
    rw [Option.elim_some, hsplit]
    constructor
    · rw [List.append_assoc, List.append_assoc, List.head?_append, hfirst]
      rfl
    · rw [List.getLast?_append, List.getLast?_append, List.getLast?_append, hlast]
      rfl

/-- The page has its fields in place exactly when no marker of the messages comes up to the one of
the deposit information. -/
theorem html_eq_htmlInPlace_iff (hd : d.Plain) :
    d.html = d.htmlInPlace ↔ ∀ n s, d.messagesText.Marker n s → 12 < n := by
  obtain ⟨earlier, free, last, hslots, hnumbers, rfl, rfl⟩ := detailsLayout_slots
  have hearlier : ∀ e ∈ earlier, scanning.Inert (d.field e.1) := by
    intro e he
    have hmem := List.mem_map_of_mem (f := Prod.fst) he
    rw [hnumbers] at hmem
    rcases List.mem_cons.mp hmem with hone | hmem
    · rw [hone]
      apply inert_of_percent
      exact fun h => QChar.ne_of_isDigit (isDigit_of_mem_number _ _ h) (by decide) rfl
    · exact hd.fields e.1 hmem
  have hhead : (d.field 12).head? ≠ some (qchar '%') := by
    show d.depositInPlace.head? ≠ _
    rcases d.depositInPlace_ends with h | ⟨h, -⟩
    · rw [h]
      decide
    · rw [h]
      decide
  have hend : ∃ c, (qstr "<br><br>\n" ++ qstr "<span><br>" ++ d.field 12).getLast? = some c ∧
      c.isDigit = false := by
    show ∃ c, (_ ++ d.depositInPlace).getLast? = some c ∧ _
    rcases d.depositInPlace_ends with h | ⟨-, h⟩
    · rw [h]
      decide
    · refine ⟨qchar '\n', ?_, by decide⟩
      rw [List.getLast?_append, h]
      rfl
  obtain ⟨c, hend, hc⟩ := hend
  rw [html_eq hd, htmlInPlace_eq]
  exact detailsLayout.args_eq_substitute_iff hslots hearlier hhead hend hc

/-- Escaping and joining keep the numbers of the markers. -/
theorem marker_messagesText {n : ℕ} :
    (∃ s, d.messagesText.Marker n s) ↔ ∃ m ∈ d.messageList, ∃ s, Marker m n s := by
  have hjoin : Separates (qstr "<br><br>=========<br><br>") := by decide
  have hescape : ∀ c, htmlEscape c = [c] ∨ Separates [c] ∧ Separates (htmlEscape c) := by
    intro c
    unfold htmlEscape
    split_ifs with hlt hgt hamp hquote
    · rw [hlt]
      decide
    · rw [hgt]
      decide
    · rw [hamp]
      decide
    · rw [hquote]
      decide
    · exact .inl rfl
  have hbreak : ∀ c, (if c = qchar '\n' then qstr "<br>" else [c]) = [c] ∨
      Separates [c] ∧ Separates (if c = qchar '\n' then qstr "<br>" else [c]) := by
    intro c
    split_ifs with hc
    · rw [hc]
      decide
    · exact .inl rfl
  have hmessage (m : QString) :
      Template.numbers (pieces 0 (m.toHtmlEscaped.replaceAll (qchar '\n') (qstr "<br>"))) =
        Template.numbers (pieces 0 m) := by
    rw [replaceAll, numbers_flatMap hbreak, toHtmlEscaped, numbers_flatMap hescape]
  have hnumbers : Template.numbers (scanning.scan d.messagesText) =
      d.messageList.flatMap fun m => Template.numbers (scanning.scan m) := by
    show Template.numbers (pieces 0 d.messagesText) = _
    rw [messagesText, numbers_intercalate hjoin, List.flatMap_map]
    exact List.flatMap_congr fun m _ => hmessage m
  rw [← mem_numbers_scan, hnumbers, List.mem_flatMap]
  apply exists_congr
  intro m
  rw [mem_numbers_scan]

theorem field_messageList (d : Details) (l : List QString) {n : ℕ} (hn : n ≠ 11) :
    { d with messageList := l }.field n = d.field n := by
  unfold field
  split
  case h_9 => exact absurd rfl hn
  all_goals rfl

/-- Around the messages the page in place does not depend on them. -/
theorem htmlInPlace_around (d : Details) : ∃ before after, ∀ l,
    { d with messageList := l }.htmlInPlace =
      before ++ { d with messageList := l }.messagesText ++ after := by
  obtain ⟨earlier, free, last, hslots, hnumbers, rfl, rfl⟩ := detailsLayout_slots
  refine ⟨detailsLayout.first ++ earlier.flatMap (fun e => d.field e.1 ++ e.2),
    (qstr "<br><br>\n" ++ qstr "<span><br>") ++
      (d.field 12 ++ (qstr "<br>\n" ++ qstr "</body></html>")), fun l => ?_⟩
  have hsame : ∀ e ∈ earlier, { d with messageList := l }.field e.1 = d.field e.1 := by
    intro e he
    apply field_messageList
    have hmem := List.mem_map_of_mem (f := Prod.fst) he
    rw [hnumbers] at hmem
    intro h
    rw [h] at hmem
    revert hmem
    decide
  have hearlier : (earlier.flatMap fun e => { d with messageList := l }.field e.1 ++ e.2) =
      earlier.flatMap fun e => d.field e.1 ++ e.2 :=
    List.flatMap_congr fun e he => congrArg (· ++ e.2) (hsame e he)
  rw [htmlInPlace_eq, detailsLayout.substitute_split hslots, hearlier]
  rfl

/-- No message holds a place marker with a number up to the deposit information's 12. -/
def MarkersAbove (messageList : List QString) : Prop :=
  ∀ m ∈ messageList, ∀ n s, Marker m n s → 12 < n

theorem markersAbove_iff {l : List QString} : MarkersAbove l ↔
    ∀ m ∈ l, ∀ n ∈ Template.numbers (scanning.scan m), 12 < n := by
  apply forall₂_congr
  intro m _
  constructor
  · intro h n hn
    obtain ⟨s, hs⟩ := mem_numbers_scan.mp hn
    exact h n s hs
  · intro h n s hs
    exact h n (mem_numbers_scan.mpr ⟨s, hs⟩)

instance (l : List QString) : Decidable (MarkersAbove l) := decidable_of_iff' _ markersAbove_iff

theorem html_iff (hd : d.Plain) : d.html = d.htmlInPlace ↔ MarkersAbove d.messageList := by
  rw [html_eq_htmlInPlace_iff hd]
  constructor
  · intro h m hm n s hs
    obtain ⟨s, hs⟩ := marker_messagesText.mpr ⟨m, hm, s, hs⟩
    exact h n s hs
  · intro h n s hs
    obtain ⟨m, hm, s, hs⟩ := marker_messagesText.mp ⟨s, hs⟩
    exact h m hm n s hs

theorem Plain.messageList (hd : d.Plain) (l : List QString) :
    Plain { d with messageList := l } := by
  refine ⟨fun n hn => ?_, hd.deposit⟩
  have hne : n ≠ 11 := by
    rintro rfl
    revert hn
    decide
  rw [field_messageList d l hne]
  exact hd.fields n hn

/-- With other messages the same page stands around them exactly when these hold no low marker. -/
theorem html_around (hd : d.Plain) : ∃ before after, ∀ l,
    { d with messageList := l }.html =
        before ++ { d with messageList := l }.messagesText ++ after ↔ MarkersAbove l := by
  obtain ⟨before, after, haround⟩ := d.htmlInPlace_around
  refine ⟨before, after, fun l => ?_⟩
  rw [← haround l]
  exact html_iff (hd.messageList l)

end Details
end TransactionDetailsDialog
end ConcealDesktop
