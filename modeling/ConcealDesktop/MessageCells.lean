import ConcealDesktop.MessageEncoding
import ConcealDesktop.MessagesModel
import ConcealDesktop.TransactionsModel

/-! The cells of MessagesModel. The message column replaces escapes, a backslash, a `u` and four
hexadecimal digits, by the unit that they denote; its loop looks for the next escape from the start
of the text again, and does not look at the digits before it replaces six characters. -/
namespace ConcealDesktop

namespace QChar

/-- The value of a hexadecimal digit in either letter case. -/
def hexValue (c : QChar) : Option ℕ :=
  if 0x30 ≤ c ∧ c ≤ 0x39 then some (c.toNat - 0x30)
  else if 0x41 ≤ c ∧ c ≤ 0x46 then some (c.toNat - 0x41 + 10)
  else if 0x61 ≤ c ∧ c ≤ 0x66 then some (c.toNat - 0x61 + 10)
  else none

def isHex (c : QChar) : Bool := c.hexValue.isSome

/-- QChar's constructor from an int. -/
def ofInt (n : ℤ) : QChar := UInt16.ofNat (n % 2 ^ 16).toNat

end QChar

namespace QString

def hexDigitsValue (s : QString) : ℕ := s.foldl (fun n c => 16 * n + c.hexValue.getD 0) 0

/-- QString::toInt in base sixteen: surrounding blanks, a sign and the digits `0x` may stand around
the number, and any other text or a value that does not fit is read as zero. -/
def toIntHex (s : QString) : ℤ :=
  let t := trimmed s
  let negative := t.head? == some (qchar '-')
  let t := if negative || t.head? == some (qchar '+') then t.tail else t
  let digits := if t.take 2 = qstr "0x" ∨ t.take 2 = qstr "0X" then t.drop 2 else t
  let value : ℤ := if negative then -(hexDigitsValue digits : ℤ) else hexDigitsValue digits
  if digits ≠ [] ∧ digits.all QChar.isHex ∧ -2 ^ 31 ≤ value ∧ value < 2 ^ 31 then value else 0

/-- QString::indexOf of a backslash and a `u`; the source's -1 is `none`. -/
def indexOfEscape : QString → Option ℕ
  | [] => none
  | c :: s =>
    if c = qchar '\\' ∧ s.head? = some (qchar 'u') then some 0 else (indexOfEscape s).map (· + 1)

/-- QString::replace of the characters that are there, at most six. -/
def replaceEscape (str : QString) (idx : ℕ) : QString :=
  str.take idx ++ QChar.ofInt (toIntHex ((str.drop (idx + 2)).take 4)) :: str.drop (idx + 6)

/-- The loop of the message column. A step makes the text shorter, so its length bounds them. -/
def replaceEscapes : ℕ → QString → QString
  | 0, str => str
  | steps + 1, str => match indexOfEscape str with
    | none => str
    | some idx => replaceEscapes steps (replaceEscape str idx)

def foldAscii (c : QChar) : QChar := if 0x41 ≤ c ∧ c ≤ 0x5a then c + 0x20 else c

/-- QString::compare without regard to the case of ASCII letters gives zero. -/
def equalsIgnoreCase (s t : QString) : Bool := s.map foldAscii == t.map foldAscii

end QString

def Message.getHeaderValue (m : Message) (key : QString) : QString :=
  ((m.header.find? fun header => header.1.equalsIgnoreCase key).map Prod.snd).getD []

namespace MessagesModel
open WalletAdapter

def HEADER_REPLY_TO_KEY : QString := qstr "Reply-To"

inductive Column where
  | date | type | height | message | hash | amount | messageSize | fullMessage | hasReplyTo
  deriving DecidableEq

def columns : List Column :=
  [.date, .type, .height, .message, .hash, .amount, .messageSize, .fullMessage, .hasReplyTo]

def Column.toInt (c : Column) : ℤ := columns.idxOf c

def Column.ofInt (n : ℤ) : Option Column := if 0 ≤ n then columns[n.toNat]? else none

theorem Column.ofInt_toInt (c : Column) : Column.ofInt c.toInt = some c := by
  cases c <;> rfl

inductive Role where
  | display | edit | decoration | textAlignment
  | date | type | height | message | fullMessage | column | row | headerReplyTo | hash | amount
  | messageSize
  deriving DecidableEq

/-- The codes of MessageType. -/
inductive MessageType where
  | input | output
  deriving DecidableEq

def MessageType.toInt : MessageType → ℤ
  | .input => 0
  | .output => 1

def messageType (t : WalletTransaction) : MessageType :=
  if t.totalAmount < 0 then .output else .input

/-- What data reads before it looks at the role. -/
structure Reading where
  transaction : WalletTransaction
  message : Message

/-- m_messages.value, which gives transaction 0 without a text for a row outside the list. -/
def valueAt (m : MessagesModel) (row : ℤ) : Option (TransactionId × StdString) :=
  if 0 ≤ row then m.m_messages[row.toNat]? else none

def read (fromStdString : StdString → QString) (wallet : Option Wallet) (m : MessagesModel)
    (index : QModelIndex) : Option Reading :=
  if index.isValid then
    let entry := m.valueAt index.row
    (getTransaction wallet ((entry.map Prod.fst).getD 0)).map fun transaction =>
      ⟨transaction, (entry.map fun e => Message.ofText (fromStdString e.2)).getD ⟨[], []⟩⟩
  else none

def getUserRole (index : QModelIndex) (r : Reading) : Role → QVariant
  | .date => .dateTime (TransactionsModel.getDate r.transaction)
  | .type => .int (messageType r.transaction).toInt
  | .height => .int r.transaction.blockHeight
  | .message => .text r.message.message
  | .fullMessage => .text r.message.getFullMessage
  | .headerReplyTo => .text (r.message.getHeaderValue HEADER_REPLY_TO_KEY)
  | .hash => .bytes r.transaction.hash
  | .amount => .int r.transaction.totalAmount
  | .messageSize => .int r.message.message.length
  | .row => .int index.row
  | .column | .display | .edit | .decoration | .textAlignment => .null

/-- The text of the message column. -/
def messageText (str : QString) : QString := readLine (QString.replaceEscapes str.length str)

def getDisplayRole (env : Environment) (index : QModelIndex) (r : Reading) : QVariant :=
  match Column.ofInt index.column with
  | some .date => TransactionsModel.dateText r.transaction
  | some .type => match messageType r.transaction with
    | .output => .text (qstr "Out")
    | .input => .text (qstr "In")
  | some .height =>
    if r.transaction.blockHeight = WALLET_UNCONFIRMED_TRANSACTION_HEIGHT then .text (qstr "-")
    else .text (QString.number r.transaction.blockHeight)
  | some .message => .text (messageText r.message.message)
  | some .hash => TransactionsModel.hashText r.transaction
  | some .amount => .text (env.formatAmount r.transaction.totalAmount.natAbs)
  | some .messageSize => .text (QString.number (r.message.message.length % 2 ^ 32))
  | some .fullMessage => .text r.message.getFullMessage
  | some .hasReplyTo => .bool (r.message.getHeaderValue HEADER_REPLY_TO_KEY != [])
  | none => .null

/-- No column of this model has an icon or an alignment. -/
def data (fromStdString : StdString → QString) (env : Environment) (wallet : Option Wallet)
    (m : MessagesModel) (index : QModelIndex) (role : Role) : QVariant :=
  match m.read fromStdString wallet index with
  | none => .null
  | some r => match role with
    | .display | .edit => getDisplayRole env index r
    | .decoration | .textAlignment => .null
    | role => getUserRole index r role

end MessagesModel
end ConcealDesktop
