import Mathlib.Data.Int.Notation
import ConcealDesktop.Text

/-! The wallet of the core library as WalletAdapter reads it. Transactions, transfers and deposits
are numbered from zero, and a number is found exactly when it is below the count. -/
namespace ConcealDesktop

/-- cn::TransactionId is an unsigned 64-bit number; the wallet core counts up from its start. -/
abbrev TransactionId := ℕ
abbrev TransferId := ℕ
abbrev DepositId := ℕ

def WALLET_INVALID_TRANSACTION_ID : TransactionId := 2 ^ 64 - 1
def WALLET_INVALID_TRANSFER_ID : TransferId := 2 ^ 64 - 1
def WALLET_INVALID_DEPOSIT_ID : DepositId := 2 ^ 64 - 1
def WALLET_UNCONFIRMED_TRANSACTION_HEIGHT : ℕ := 2 ^ 32 - 1

inductive WalletTransactionState where
  | succeeded
  | failed
  | cancelled
  | created
  | deleted
  deriving DecidableEq

structure WalletTransfer where
  address : StdString
  deriving DecidableEq

/-- A default-constructed transfer, which a row without transfers is rendered with. -/
def WalletTransfer.default : WalletTransfer := ⟨[]⟩

/-- A transaction with the transfers that the wallet keeps beside it. -/
structure WalletTransaction where
  state : WalletTransactionState
  timestamp : ℕ
  blockHeight : ℕ
  hash : StdString
  totalAmount : ℤ
  fee : ℕ
  isBase : Bool
  extra : StdString
  messages : List StdString
  firstDepositId : DepositId
  depositCount : ℕ
  transfers : List WalletTransfer
  deriving DecidableEq

structure Deposit where
  amount : ℕ
  term : ℕ
  locked : Bool
  creatingTransactionId : TransactionId
  spendingTransactionId : TransactionId
  deriving DecidableEq

/-- A default-constructed deposit. -/
def Deposit.default : Deposit :=
  ⟨0, 0, false, WALLET_INVALID_TRANSACTION_ID, WALLET_INVALID_TRANSACTION_ID⟩

/-- The item views number rows by a C++ int, which bounds the wallets that can be shown. -/
structure Wallet where
  transactions : List WalletTransaction
  deposits : List Deposit
  transactions_lt : transactions.length < 2 ^ 31
  deposits_lt : deposits.length < 2 ^ 31

theorem Wallet.none_lt : 0 < 2 ^ 31 := by decide

theorem Wallet.one_lt : 1 < 2 ^ 31 := by decide

theorem Wallet.two_lt : 2 < 2 ^ 31 := by decide

namespace WalletAdapter

/-! The accessors over m_wallet, which is null while no wallet is open. -/

def getTransactionCount (wallet : Option Wallet) : ℕ := wallet.elim 0 (·.transactions.length)

def getTransaction (wallet : Option Wallet) (id : TransactionId) : Option WalletTransaction :=
  wallet.bind (·.transactions[id]?)

def getTransferCount (wallet : Option Wallet) (id : TransactionId) : ℕ :=
  (getTransaction wallet id).elim 0 (·.transfers.length)

def getTransfer (wallet : Option Wallet) (id : TransactionId) (transfer : TransferId) :
    Option WalletTransfer :=
  (getTransaction wallet id).bind (·.transfers[transfer]?)

def getDepositCount (wallet : Option Wallet) : ℕ := wallet.elim 0 (·.deposits.length)

def getDeposit (wallet : Option Wallet) (id : DepositId) : Option Deposit :=
  wallet.bind (·.deposits[id]?)

theorem getTransactionCount_lt (wallet : Option Wallet) : getTransactionCount wallet < 2 ^ 31 := by
  cases wallet with
  | none => decide
  | some w => exact w.transactions_lt

theorem getDepositCount_lt (wallet : Option Wallet) : getDepositCount wallet < 2 ^ 31 := by
  cases wallet with
  | none => decide
  | some w => exact w.deposits_lt

@[simp] theorem getTransaction_isSome (wallet : Option Wallet) (id : TransactionId) :
    (getTransaction wallet id).isSome ↔ id < getTransactionCount wallet := by
  cases wallet <;> simp [getTransaction, getTransactionCount]

theorem getTransaction_eq_none (wallet : Option Wallet) (id : TransactionId) :
    getTransaction wallet id = none ↔ getTransactionCount wallet ≤ id := by
  cases wallet <;> simp [getTransaction, getTransactionCount]

@[simp] theorem getDeposit_isSome (wallet : Option Wallet) (id : DepositId) :
    (getDeposit wallet id).isSome ↔ id < getDepositCount wallet := by
  cases wallet <;> simp [getDeposit, getDepositCount]

end WalletAdapter
end ConcealDesktop
