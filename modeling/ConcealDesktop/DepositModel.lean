import ConcealDesktop.TransactionsModel

/-! DepositModel: the table of the wallet's deposits, followed by the deposits that were submitted
and are not confirmed yet. A deposit row shows cells of TransactionsModel, which it looks up by
taking transaction ids for rows. -/
namespace ConcealDesktop

structure PendingDepositRow where
  transactionId : TransactionId
  transactionHash : StdString
  amount : ℕ
  term : ℕ
  deriving DecidableEq

structure DepositModel where
  m_depositCount : ℕ
  m_pendingDeposits : List PendingDepositRow

namespace DepositModel
open WalletAdapter

inductive Column where
  | state | amount | interest | sum | termRate | term | unlockHeight | unlockTime
  | creatingTransactionHash | creatingHeight | creatingTime | spendingTransactionHash
  | spendingHeight | spendingTime | type
  deriving DecidableEq

def columns : List Column :=
  [.state, .amount, .interest, .sum, .termRate, .term, .unlockHeight, .unlockTime,
    .creatingTransactionHash, .creatingHeight, .creatingTime, .spendingTransactionHash,
    .spendingHeight, .spendingTime, .type]

def columnCount : ℕ := columns.length

def Column.toInt (c : Column) : ℤ := columns.idxOf c

def Column.ofInt (n : ℤ) : Option Column := if 0 ≤ n then columns[n.toNat]? else none

theorem Column.ofInt_toInt (c : Column) : Column.ofInt c.toInt = some c := by
  cases c <;> rfl

inductive Role where
  | display | edit
  | depositTerm | depositAmount | depositInterest | state | creatingTransactionId
  | spendingTransactionId | unlockHeight | row | column | isPendingDeposit
  deriving DecidableEq

/-- The codes of STATE_LOCKED, STATE_UNLOCKED, STATE_SPENT and STATE_PENDING_CONFIRMATION. -/
inductive DepositState where
  | locked | unlocked | spent | pendingConfirmation
  deriving DecidableEq

def DepositState.toInt : DepositState → ℤ
  | .locked => 0
  | .unlocked => 1
  | .spent => 2
  | .pendingConfirmation => 3

def initial : DepositModel := ⟨0, []⟩

def index (row column : ℤ) : QModelIndex := ⟨row, column⟩

@[simp] theorem index_row (row column : ℤ) : (index row column).row = row := rfl

@[simp] theorem index_column (row column : ℤ) : (index row column).column = column := rfl

@[simp] theorem isValid_index (row : ℕ) (column : Column) :
    (index row column.toInt).isValid = true := by
  simp [QModelIndex.isValid, Column.toInt]

def rowCount (m : DepositModel) : ℕ := m.m_depositCount + m.m_pendingDeposits.length

def isPendingRow (m : DepositModel) (row : ℤ) : Bool := m.m_depositCount ≤ row

def pendingIndex (m : DepositModel) (row : ℤ) : ℤ := row - m.m_depositCount

/-! ### Cells -/

/-- What a valid row addresses: a deposit of the wallet, a pending deposit, or a place outside
m_pendingDeposits, where the source reads without a check. -/
inductive Access where
  | real (depositId : DepositId)
  | pending (row : PendingDepositRow)
  | outOfBounds (index : ℕ)
  deriving DecidableEq

def access (m : DepositModel) (row : ℤ) : Access :=
  if m.isPendingRow row then
    match m.m_pendingDeposits[(m.pendingIndex row).toNat]? with
    | some pending => .pending pending
    | none => .outOfBounds (m.pendingIndex row).toNat
  else .real row.toNat

/-- CurrencyAdapter::calculateInterest at the last known height; its third argument is the
height less the term, in 32 bits. -/
def interest (env : Environment) (amount term : ℕ) : ℕ :=
  env.calculateInterest amount term ((env.getLastKnownBlockHeight + 2 ^ 32 - term) % 2 ^ 32)

section Cells

variable (env : Environment) (wallet : Option Wallet) (transactions : TransactionsModel)

/-- TransactionsModel::instance().index(id, column).data(). -/
def transactionCell (id : TransactionId) (column : TransactionsModel.Column) : QVariant :=
  TransactionsModel.data env wallet transactions
    (TransactionsModel.index (toInt id) column.toInt) .display

/-- The height that ROLE_UNLOCK_HEIGHT reads; a missing value is read as zero. -/
def creatingHeight (id : TransactionId) : ℕ :=
  (TransactionsModel.data env wallet transactions
    (TransactionsModel.index (toInt id) 0) .height).toUnsigned 64

def getDepositState (deposit : Deposit) : DepositState :=
  if deposit.locked then .locked
  else if deposit.spendingTransactionId = WALLET_INVALID_TRANSACTION_ID then .unlocked
  else .spent

def pendingUserRole (pending : PendingDepositRow) (index : QModelIndex) : Role → QVariant
  | .state => .int DepositState.pendingConfirmation.toInt
  | .creatingTransactionId =>
    if pending.transactionId = WALLET_INVALID_TRANSACTION_ID then .null
    else .int pending.transactionId
  | .spendingTransactionId => .int WALLET_INVALID_TRANSACTION_ID
  | .unlockHeight => .int WALLET_UNCONFIRMED_TRANSACTION_HEIGHT
  | .row => .int index.row
  | .column => .int index.column
  | .isPendingDeposit => .bool true
  | .depositTerm => .int pending.term
  | .depositAmount => .int pending.amount
  | .depositInterest => .int (interest env pending.amount pending.term)
  | .display | .edit => .null

def realUserRole (depositId : DepositId) (index : QModelIndex) (role : Role) : QVariant :=
  match getDeposit wallet depositId with
  | none => .null
  | some deposit => match role with
    | .depositTerm => .int deposit.term
    | .depositAmount => .int deposit.amount
    | .depositInterest => .int (interest env deposit.amount deposit.term)
    | .state => .int (getDepositState deposit).toInt
    | .creatingTransactionId => .int deposit.creatingTransactionId
    | .spendingTransactionId => .int deposit.spendingTransactionId
    | .unlockHeight =>
      let creatingHeight := creatingHeight env wallet transactions deposit.creatingTransactionId
      if creatingHeight = WALLET_UNCONFIRMED_TRANSACTION_HEIGHT then
        .int WALLET_UNCONFIRMED_TRANSACTION_HEIGHT
      else .int ((creatingHeight + deposit.term) % 2 ^ 64 : ℕ)
    | .row => .int index.row
    | .column => .int index.column
    | .isPendingDeposit => .bool false
    | .display | .edit => .null

def pendingDisplayRole (pending : PendingDepositRow) (column : Column) : QVariant :=
  let dash := QVariant.text (qstr "-")
  let pendingInterest := interest env pending.amount pending.term
  match column with
  | .state => .text (qstr "Pending")
  | .amount => .text (env.formatAmount pending.amount)
  | .interest => .text (env.formatAmount pendingInterest)
  | .sum => .text (env.formatAmount (pending.amount + pendingInterest))
  | .termRate => if pending.amount = 0 then dash else .rate pending.amount pendingInterest
  | .term => if 0 < pending.term then .int pending.term else dash
  | .type => .text (qstr "Deposit")
  | .creatingTransactionHash => .utf8 pending.transactionHash
  | .creatingHeight =>
    if pending.transactionId = WALLET_INVALID_TRANSACTION_ID then dash
    else transactionCell env wallet transactions pending.transactionId .height
  | .creatingTime =>
    if pending.transactionId ≠ WALLET_INVALID_TRANSACTION_ID then
      match transactionCell env wallet transactions pending.transactionId .date with
      | .null => .dateText 0
      | date => date
    else .dateText 0
  | .unlockHeight | .unlockTime | .spendingTransactionHash | .spendingHeight | .spendingTime => dash

/-- A cell of a creating or spending transaction. -/
def linkedCell (id : TransactionId) (column : TransactionsModel.Column) : QVariant :=
  if id = WALLET_INVALID_TRANSACTION_ID then .text (qstr "-")
  else transactionCell env wallet transactions id column

def realDisplayRole (depositId : DepositId) (index : QModelIndex) (column : Column) : QVariant :=
  let role := realUserRole env wallet transactions depositId index
  let creatingTransactionId := (role .creatingTransactionId).toUnsigned 64
  let spendingTransactionId := (role .spendingTransactionId).toUnsigned 64
  let amount := (role .depositAmount).toUnsigned 64
  let interest := (role .depositInterest).toUnsigned 64
  let term := (role .depositTerm).toUnsigned 32
  let state := role .state
  let unlockHeight := (role .unlockHeight).toUnsigned 64
  let dash := QVariant.text (qstr "-")
  let unlockTime :=
    if state.toUnsigned 31 = 0 then
      if unlockHeight = WALLET_UNCONFIRMED_TRANSACTION_HEIGHT then dash
      else .dateText (env.getExpectedTimeForHeight unlockHeight)
    else .dateTime none
  match column with
  | .state => match state.toUnsigned 31 with
    | 0 => .text (qstr "Locked")
    | 1 => .text (qstr "Unlocked")
    | 2 => .text (qstr "Spent")
    | _ => .text (qstr "Pending")
  | .amount => .text (env.formatAmount amount)
  | .interest => .text (env.formatAmount interest)
  | .sum => .text (env.formatAmount (amount + interest))
  | .termRate => .rate amount interest
  | .term => role .depositTerm
  | .unlockHeight =>
    if unlockHeight = WALLET_UNCONFIRMED_TRANSACTION_HEIGHT then dash
    else .int (unlockHeight - 1 : ℕ)
  | .type =>
    if term % 64800 = 0 then .text (qstr "Investment")
    else if term % env.depositMinTermV3 = 0 then .text (qstr "Deposit")
    else if term % 5040 = 0 then .text (qstr "Deposit")
    else unlockTime
  | .unlockTime => unlockTime
  | .creatingTransactionHash => transactionCell env wallet transactions creatingTransactionId .hash
  | .creatingHeight => linkedCell env wallet transactions creatingTransactionId .height
  | .creatingTime => linkedCell env wallet transactions creatingTransactionId .date
  | .spendingTransactionHash => linkedCell env wallet transactions spendingTransactionId .hash
  | .spendingHeight => linkedCell env wallet transactions spendingTransactionId .height
  | .spendingTime => linkedCell env wallet transactions spendingTransactionId .date

def getDisplayRole (m : DepositModel) (index : QModelIndex) : Option QVariant :=
  match m.access index.row, Column.ofInt index.column with
  | .outOfBounds _, _ => none
  | .pending pending, some column =>
    some (pendingDisplayRole env wallet transactions pending column)
  | .pending _, none => some (.text (qstr "-"))
  | .real depositId, some column =>
    some (realDisplayRole env wallet transactions depositId index column)
  | .real _, none => some .null

def getUserRole (m : DepositModel) (index : QModelIndex) (role : Role) : Option QVariant :=
  match m.access index.row with
  | .outOfBounds _ => none
  | .pending pending => some (pendingUserRole env pending index role)
  | .real depositId => some (realUserRole env wallet transactions depositId index role)

/-- DepositModel::data; reading out of bounds has no result. -/
def data (m : DepositModel) (index : QModelIndex) (role : Role) : Option QVariant :=
  if index.isValid = false then some .null
  else match role with
  | .display | .edit => getDisplayRole env wallet transactions m index
  | role => getUserRole env wallet transactions m index role

end Cells

/-! ### Rows -/

def reset (_ : DepositModel) : DepositModel × List ModelSignal :=
  (initial, [.beginResetModel, .endResetModel])

def reloadWalletDeposits (wallet : Option Wallet) (m : DepositModel) :
    DepositModel × List ModelSignal :=
  let (m, signals) := m.reset
  let count := getDepositCount wallet
  if count = 0 then (m, signals)
  else ({ m with m_depositCount := count % 2 ^ 32 },
    signals ++ [.beginInsertRows 0 (count - 1), .endInsertRows])

/-- A deposit that is spent already is not appended. -/
def appendDeposit (wallet : Option Wallet) (m : DepositModel) (depositId : DepositId) :
    DepositModel × List ModelSignal :=
  if depositId < m.m_depositCount then (m, [])
  else match getDeposit wallet depositId with
  | none => (m, [])
  | some deposit =>
    if deposit.locked = false ∧ deposit.spendingTransactionId ≠ WALLET_INVALID_TRANSACTION_ID then
      (m, [])
    else ({ m with m_depositCount := (depositId + 1) % 2 ^ 32 },
      [.beginInsertRows m.m_depositCount depositId, .endInsertRows])

def syncDepositRowsFromWallet (wallet : Option Wallet) (m : DepositModel) :
    DepositModel × List ModelSignal :=
  let walletCount := getDepositCount wallet
  if walletCount ≤ m.m_depositCount then (m, []) else m.appendDeposit wallet (walletCount - 1)

def transactionCreated (wallet : Option Wallet) (m : DepositModel) (_ : TransactionId) :
    DepositModel × List ModelSignal :=
  m.syncDepositRowsFromWallet wallet

def depositsUpdated (wallet : Option Wallet) (m : DepositModel) (depositIds : List DepositId) :
    DepositModel × List ModelSignal :=
  let (m, signals) := m.syncDepositRowsFromWallet wallet
  (m, signals ++ (depositIds.filter (· < m.m_depositCount)).map fun depositId =>
    .dataChanged (index (toInt depositId) 0) (index (toInt depositId) (columnCount - 1)))

def walletDepositPendingSubmitted (m : DepositModel) (transactionId : TransactionId)
    (hashHex : StdString) (amount term : ℕ) : DepositModel × List ModelSignal :=
  let newRow := m.rowCount
  ({ m with m_pendingDeposits := m.m_pendingDeposits ++
      [⟨transactionId, QByteArray.toUpper hashHex, amount, term⟩] },
    [.beginInsertRows newRow newRow, .endInsertRows])

/-- A pending row belongs to a transaction by its hash or by its id. -/
def PendingDepositRow.matches (pending : PendingDepositRow) (transactionId : TransactionId)
    (hashUpper : StdString) : Bool :=
  pending.transactionHash = hashUpper ∨
    (pending.transactionId ≠ WALLET_INVALID_TRANSACTION_ID ∧ pending.transactionId = transactionId)

/-- The first part of transactionUpdated: the last pending row of a confirmed transaction is
removed. -/
def removePending (wallet : Option Wallet) (m : DepositModel) (transactionId : TransactionId) :
    DepositModel × List ModelSignal :=
  match getTransaction wallet transactionId with
  | none => (m, [])
  | some transaction =>
    let hashUpper := QByteArray.toUpper (QByteArray.toHex transaction.hash)
    let found := m.m_pendingDeposits.reverse.findIdx? (PendingDepositRow.matches · transactionId hashUpper)
    if transaction.blockHeight = WALLET_UNCONFIRMED_TRANSACTION_HEIGHT then (m, [])
    else match found with
    | none => (m, [])
    | some fromEnd =>
      let i := m.m_pendingDeposits.length - 1 - fromEnd
      let row : ℤ := m.m_depositCount + i
      ({ m with m_pendingDeposits := m.m_pendingDeposits.eraseIdx i },
        [.beginRemoveRows row row, .endRemoveRows])

/-- The last part of transactionUpdated: the deposits of the transaction, as TransactionsModel
reports them, are announced by their ids. -/
def announceDeposits (env : Environment) (wallet : Option Wallet)
    (transactions : TransactionsModel) (transactionId : TransactionId) : List ModelSignal :=
  let transactionIndex := TransactionsModel.index (toInt transactionId) 0
  let cell (role : TransactionsModel.Role) : ℕ :=
    (TransactionsModel.data env wallet transactions transactionIndex role).toUnsigned 64
  let firstDepositId := cell .depositId
  let depositCountTx := cell .depositCount
  if transactionIndex.isValid = false ∨ depositCountTx = 0 then []
  else [.dataChanged (index (toInt firstDepositId) 0)
    (index (toInt ((firstDepositId + depositCountTx - 1) % 2 ^ 64)) (columnCount - 1))]

def transactionUpdated (env : Environment) (wallet : Option Wallet)
    (transactions : TransactionsModel) (m : DepositModel) (transactionId : TransactionId) :
    DepositModel × List ModelSignal :=
  let (m, removed) := m.removePending wallet transactionId
  let (m, inserted) := m.syncDepositRowsFromWallet wallet
  (m, removed ++ inserted ++ announceDeposits env wallet transactions transactionId)

/-- The signals that are queued for the model. -/
inductive Event where
  | reloadWalletDeposits
  | transactionCreated (id : TransactionId)
  | transactionUpdated (id : TransactionId)
  | depositsUpdated (ids : List DepositId)
  | walletDepositPending (id : TransactionId) (hashHex : StdString) (amount term : ℕ)
  | walletCloseCompleted

def handle (env : Environment) (wallet : Option Wallet) (transactions : TransactionsModel)
    (m : DepositModel) : Event → DepositModel × List ModelSignal
  | .reloadWalletDeposits => m.reloadWalletDeposits wallet
  | .transactionCreated id => m.transactionCreated wallet id
  | .transactionUpdated id => m.transactionUpdated env wallet transactions id
  | .depositsUpdated ids => m.depositsUpdated wallet ids
  | .walletDepositPending id hashHex amount term =>
    m.walletDepositPendingSubmitted id hashHex amount term
  | .walletCloseCompleted => m.reset

end DepositModel
end ConcealDesktop
