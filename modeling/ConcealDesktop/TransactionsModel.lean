import ConcealDesktop.ItemModel

/-! TransactionsModel: the table of the wallet's transactions. The handlers of the queued signals
keep a vector of rows and a hash of row ranges; the cells are read from the wallet each time. -/
namespace ConcealDesktop

structure TransactionsModel where
  m_transfers : List (TransactionId × TransferId)
  m_transactionRow : QHash TransactionId (ℕ × ℕ)

namespace TransactionsModel
open WalletAdapter

inductive Column where
  | state | date | amount | confirmations | address | message | paymentId | hash | secretkey
  | fee | height | type
  deriving DecidableEq

def columns : List Column :=
  [.state, .date, .amount, .confirmations, .address, .message, .paymentId, .hash, .secretkey,
    .fee, .height, .type]

def Column.toInt (c : Column) : ℤ := columns.idxOf c

def Column.ofInt (n : ℤ) : Option Column := if 0 ≤ n then columns[n.toNat]? else none

theorem Column.ofInt_toInt (c : Column) : Column.ofInt c.toInt = some c := by
  cases c <;> rfl

inductive Role where
  | display | edit | decoration | textAlignment
  | date | type | txtype | hash | secretkey | address | amount | paymentId | icon | transactionId
  | height | fee | numberOfConfirmations | column | row | message | messages | depositId
  | depositCount | state
  deriving DecidableEq

inductive TransactionType where
  | mined | input | output | inout | deposit | depositUnlock
  deriving DecidableEq

def TransactionType.toInt : TransactionType → ℤ
  | .mined => 0
  | .input => 1
  | .output => 2
  | .inout => 3
  | .deposit => 4
  | .depositUnlock => 5

def getTransactionIcon : TransactionType → QString
  | .mined => qstr ":icons/tx-mined"
  | .input => qstr ":icons/tx-input"
  | .output => qstr ":icons/tx-output"
  | .inout => qstr ":icons/tx-inout"
  | .deposit => qstr ":icons/tx-deposit"
  | .depositUnlock => qstr ":icons/tx-withdraw"

/-! ### Cells -/

/-- What data reads from the wallet before it looks at the role. -/
structure Reading where
  transactionId : TransactionId
  transaction : WalletTransaction
  transferId : TransferId
  transfer : WalletTransfer
  depositId : DepositId
  deposit : Deposit
  deriving DecidableEq

def readTransfer (wallet : Option Wallet) (ids : TransactionId × TransferId) :
    Option WalletTransfer :=
  if ids.2 = WALLET_INVALID_TRANSFER_ID then some WalletTransfer.default
  else getTransfer wallet ids.1 ids.2

def readDeposit (wallet : Option Wallet) (depositId : DepositId) : Option Deposit :=
  if depositId = WALLET_INVALID_DEPOSIT_ID then some Deposit.default
  else getDeposit wallet depositId

/-- The part of data that depends on the row only through the pair of ids in it. -/
def readPair (wallet : Option Wallet) (ids : TransactionId × TransferId) : Option Reading :=
  (getTransaction wallet ids.1).bind fun transaction =>
    (readTransfer wallet ids).bind fun transfer =>
      (readDeposit wallet transaction.firstDepositId).map fun deposit =>
        ⟨ids.1, transaction, ids.2, transfer, transaction.firstDepositId, deposit⟩

/-- m_transfers.value, which gives a pair of zeros for a row outside the vector. -/
def valueAt (m : TransactionsModel) (row : ℤ) : TransactionId × TransferId :=
  if 0 ≤ row then m.m_transfers[row.toNat]?.getD (0, 0) else (0, 0)

def read (wallet : Option Wallet) (m : TransactionsModel) (index : QModelIndex) : Option Reading :=
  if index.isValid then readPair wallet (m.valueAt index.row) else none

/-- ROLE_TYPE. -/
def Reading.type (env : Environment) (r : Reading) : TransactionType :=
  let t := r.transaction
  if t.isBase then .mined
  else if t.firstDepositId ≠ WALLET_INVALID_DEPOSIT_ID then .deposit
  else if r.transfer.address = env.getAddress then
    if t.fee = env.minimumFee then .depositUnlock
    else if t.totalAmount < 0 ∧ t.blockHeight = WALLET_UNCONFIRMED_TRANSACTION_HEIGHT then .output
    else if t.totalAmount = -1000 then .inout
    else if t.totalAmount < 0 then .output
    else .input
  else if t.totalAmount = -1000 then .inout
  else if t.totalAmount < 0 then .output
  else .input

/-- ROLE_TXTYPE. -/
def Reading.txtype (env : Environment) (r : Reading) : QString :=
  let t := r.transaction
  if t.state = .failed then qstr "Failed"
  else if t.isBase then qstr "New Block"
  else if t.firstDepositId ≠ WALLET_INVALID_DEPOSIT_ID then qstr "New Deposit"
  else if r.transfer.address = env.getAddress then qstr "Optimization"
  else if t.totalAmount < 0 then qstr "Sent CCX"
  else qstr "Received CCX"

/-- ROLE_NUMBER_OF_CONFIRMATIONS, in unsigned 64-bit arithmetic. -/
def confirmations (env : Environment) (height : ℕ) : ℕ :=
  (env.getLastKnownBlockHeight + 2 ^ 64 - height + 1) % 2 ^ 64

def stateCode : WalletTransactionState → ℤ
  | .succeeded => 0
  | .failed => 1
  | .cancelled => 2
  | .created => 3
  | .deleted => 4

def getDate (t : WalletTransaction) : Option ℕ :=
  if 0 < t.timestamp then some (t.timestamp % 2 ^ 32) else none

/-- The text of the date column. -/
def dateText (t : WalletTransaction) : QVariant :=
  match getDate t with
  | some seconds => .dateText seconds
  | none => .text (qstr "-")

/-- The text of the height column. -/
def heightText (t : WalletTransaction) : QVariant :=
  if t.blockHeight = WALLET_UNCONFIRMED_TRANSACTION_HEIGHT then .null
  else .text (QString.number t.blockHeight)

/-- The text of the hash column. -/
def hashText (t : WalletTransaction) : QVariant :=
  .bytes (QByteArray.toUpper (QByteArray.toHex t.hash))

/-- The first line of the first message. -/
def getMessageLine (env : Environment) (t : WalletTransaction) : Option QString :=
  t.messages.head?.map fun m => readLine (env.getMessage m)

def headerData (column : ℤ) : Role → QVariant
  | .textAlignment => if Column.ofInt column = some .amount then .alignment else .null
  | .column => .int column
  | _ => .null

def getUserRole (env : Environment) (index : QModelIndex) (r : Reading) : Role → QVariant
  | .state => .int (stateCode r.transaction.state)
  | .date => .dateTime (getDate r.transaction)
  | .type => .int (r.type env).toInt
  | .txtype => .text (r.txtype env)
  | .hash => .bytes r.transaction.hash
  | .secretkey => match env.getTxKey r.transaction.hash with
    | some key => .utf8 key
    | none => .text (qstr "not found")
  | .address => .utf8 r.transfer.address
  | .amount => match r.type env with
    | .deposit => .int r.deposit.amount
    | _ => .int r.transaction.totalAmount
  | .paymentId => .utf8 (env.extractPaymentId r.transaction.extra)
  | .icon => .icon (getTransactionIcon (r.type env))
  | .transactionId => .int r.transactionId
  | .height => .int r.transaction.blockHeight
  | .fee => .int r.transaction.fee
  | .numberOfConfirmations =>
    if r.transaction.blockHeight = WALLET_UNCONFIRMED_TRANSACTION_HEIGHT then .int 0
    else .int (confirmations env r.transaction.blockHeight)
  | .column => headerData index.column .column
  | .row => .int index.row
  | .message => match getMessageLine env r.transaction with
    | some line => .text line
    | none => .null
  | .messages => .texts r.transaction.messages
  | .depositId => .int r.transaction.firstDepositId
  | .depositCount => .int r.transaction.depositCount
  | .display | .edit | .decoration | .textAlignment => .null

/-- The cells read their own row again for the values that they show. -/
def getDisplayRole (env : Environment) (index : QModelIndex) (r : Reading) : QVariant :=
  let t := r.transaction
  match Column.ofInt index.column with
  | some .date => dateText t
  | some .hash => hashText t
  | some .secretkey => match r.type env with
    | .input | .mined | .inout => .text (qstr "not applicable")
    | _ => if getUserRole env index r .secretkey = .utf8 (List.replicate 64 0x30) then
        .text (qstr "expired") else getUserRole env index r .secretkey
  | some .address => match r.type env with
    | .input | .mined | .inout => .utf8 (bytes "me (" ++ env.getAddress ++ bytes ")")
    | _ => if r.transfer.address = [] then .text (qstr "(n/a)") else .utf8 r.transfer.address
  | some .amount =>
    let amount : ℤ := match r.type env with
      | .deposit => r.deposit.amount
      | _ => t.totalAmount
    let amountStr := env.formatAmount amount.natAbs ++ qstr " CCX"
    .text (if amount < 0 then qstr "-" ++ amountStr else amountStr)
  | some .confirmations =>
    if t.blockHeight = WALLET_UNCONFIRMED_TRANSACTION_HEIGHT then .text (qstr "Unconfirmed")
    else if 10 ≤ confirmations env t.blockHeight then .text (qstr "Confirmed")
    else getUserRole env index r .paymentId
  | some .paymentId => getUserRole env index r .paymentId
  | some .fee => .text (env.formatAmount t.fee)
  | some .height => heightText t
  | some .message => .text (readLine ((getMessageLine env t).getD []))
  | some .state | some .type | none => .null

def getDecorationRole (env : Environment) (index : QModelIndex) (r : Reading) : QVariant :=
  match Column.ofInt index.column with
  | some .state =>
    match (getUserRole env index r .numberOfConfirmations).toUnsigned 64 with
    | 0 | 1 | 2 => .icon (qstr ":icons/clock1")
    | 3 | 4 => .icon (qstr ":icons/clock2")
    | 5 | 6 => .icon (qstr ":icons/clock3")
    | 7 | 8 => .icon (qstr ":icons/clock4")
    | 9 => .icon (qstr ":icons/clock5")
    | _ => getUserRole env index r .icon
  | some .address => getUserRole env index r .icon
  | _ => .null

/-- The switch on the role at the end of data. -/
def render (env : Environment) (index : QModelIndex) (r : Reading) (role : Role) : QVariant :=
  match role with
  | .display | .edit => getDisplayRole env index r
  | .decoration => getDecorationRole env index r
  | .textAlignment => headerData index.column .textAlignment
  | role => getUserRole env index r role

def data (env : Environment) (wallet : Option Wallet) (m : TransactionsModel)
    (index : QModelIndex) (role : Role) : QVariant :=
  match m.read wallet index with
  | none => .null
  | some r => render env index r role

/-- TransactionsModel::index with an invalid parent accepts every row and column. -/
def index (row column : ℤ) : QModelIndex := ⟨row, column⟩

/-! ### Rows -/

def empty : TransactionsModel := ⟨[], ∅⟩

def rowCount (m : TransactionsModel) : ℕ := m.m_transfers.length

/-- appendTransaction(id, count): a transaction gets one row, and an entry with its first row
and the number of its transfers, both stored in 32 bits. -/
def appendTransaction (wallet : Option Wallet) (acc : TransactionsModel × ℕ)
    (id : TransactionId) : TransactionsModel × ℕ :=
  let (m, inserted) := acc
  match getTransaction wallet id with
  | none => acc
  | some _ =>
    let transferCount := getTransferCount wallet id
    if transferCount ≠ 0 then
      ({ m_transfers := m.m_transfers ++ [(id, 0)]
         m_transactionRow := m.m_transactionRow.insert id
          (m.rowCount % 2 ^ 32, transferCount % 2 ^ 32) }, inserted + 1)
    else
      ({ m_transfers := m.m_transfers ++ [(id, WALLET_INVALID_TRANSFER_ID)]
         m_transactionRow := m.m_transactionRow.insert id
          ((m.rowCount + 1 - 1) % 2 ^ 32, 1) }, inserted + 1)

def insertRows (first inserted : ℕ) : List ModelSignal :=
  if 0 < inserted then [.beginInsertRows first (first + inserted - 1), .endInsertRows] else []

def reset (_ : TransactionsModel) : TransactionsModel × List ModelSignal :=
  (empty, [.beginResetModel, .endResetModel])

def reloadWalletTransactions (wallet : Option Wallet) (m : TransactionsModel) :
    TransactionsModel × List ModelSignal :=
  let (cleared, signals) := m.reset
  let (m, inserted) := (List.range' 0 (getTransactionCount wallet)).foldl
    (appendTransaction wallet) (cleared, 0)
  (m, signals ++ insertRows 0 inserted)

/-- The handler of walletTransactionCreatedSignal, which catches up with the wallet from the size
of the hash to the announced id. -/
def transactionCreated (wallet : Option Wallet) (m : TransactionsModel) (id : TransactionId) :
    TransactionsModel × List ModelSignal :=
  if m.m_transactionRow.contains id then (m, [])
  else
    let start := m.m_transactionRow.size
    let (m', inserted) := (List.range' start (id + 1 - start)).foldl
      (appendTransaction wallet) (m, 0)
    (m', insertRows m.rowCount inserted)

def updateWalletTransaction (m : TransactionsModel) (id : TransactionId) : ModelSignal :=
  let (firstRow, count) := m.m_transactionRow.value id
  let lastRow := (firstRow + count + 2 ^ 32 - 1) % 2 ^ 32
  .dataChanged (index (toInt firstRow) Column.date.toInt) (index (toInt lastRow) Column.type.toInt)

def lastKnownHeightUpdated (m : TransactionsModel) : List ModelSignal :=
  if 0 < m.rowCount then
    [.dataChanged (index 0 Column.state.toInt) (index (m.rowCount - 1) Column.state.toInt)]
  else []

/-- The signals that are queued for the model. -/
inductive Event where
  | reloadWalletTransactions
  | transactionCreated (id : TransactionId)
  | transactionUpdated (id : TransactionId)
  | lastKnownHeightUpdated
  | walletCloseCompleted

def handle (wallet : Option Wallet) (m : TransactionsModel) :
    Event → TransactionsModel × List ModelSignal
  | .reloadWalletTransactions => m.reloadWalletTransactions wallet
  | .transactionCreated id => m.transactionCreated wallet id
  | .transactionUpdated id => (m, [m.updateWalletTransaction id])
  | .lastKnownHeightUpdated => (m, m.lastKnownHeightUpdated)
  | .walletCloseCompleted => m.reset

end TransactionsModel
end ConcealDesktop
