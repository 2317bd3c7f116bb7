import ConcealDesktop.ItemModel

/-! MessagesModel: the list of the messages in the wallet's transactions. A reload clears the list
and fills it again in chunks, each started by a timer that carries the generation of its reload. -/
namespace ConcealDesktop

/-- A row keeps its transaction and the text that its Message is constructed from. -/
structure MessagesModel where
  m_messages : List (TransactionId × StdString)
  m_transactionRow : QHash TransactionId (ℕ × ℕ)
  m_reloadTransactionId : ℕ
  m_reloadGeneration : ℕ

namespace MessagesModel
open WalletAdapter

def initial : MessagesModel := ⟨[], ∅, 0, 0⟩

def rowCount (m : MessagesModel) : ℕ := m.m_messages.length

/-- The entry of a transaction without messages. -/
def noRows : ℕ × ℕ := (2 ^ 32 - 1, 2 ^ 32 - 1)

/-- appendTransaction(id, count). -/
def appendTransaction (wallet : Option Wallet) (acc : MessagesModel × ℕ) (id : TransactionId) :
    MessagesModel × ℕ :=
  let (m, inserted) := acc
  if m.m_transactionRow.contains id then acc
  else match getTransaction wallet id with
  | none => acc
  | some transaction =>
    let m := { m with m_transactionRow := m.m_transactionRow.insert id noRows }
    if transaction.messages = [] then (m, inserted)
    else
      ({ m with
          m_transactionRow := m.m_transactionRow.insert id
            (m.rowCount % 2 ^ 32, transaction.messages.length % 2 ^ 32)
          m_messages := m.m_messages ++ transaction.messages.map fun text => (id, text) },
        inserted + transaction.messages.length)

def insertRows (first inserted : ℕ) : List ModelSignal :=
  if 0 < inserted then [.beginInsertRows first (first + inserted - 1), .endInsertRows] else []

/-- The timers that a handler starts are returned with it: the generation of each. -/
structure Outcome where
  model : MessagesModel
  signals : List ModelSignal
  timers : List ℕ

def reloadWalletTransactions (m : MessagesModel) : Outcome :=
  let generation := (m.m_reloadGeneration + 1) % 2 ^ 64
  ⟨⟨[], ∅, 0, generation⟩, [.beginResetModel, .endResetModel], [generation]⟩

def CHUNK_SIZE : ℕ := 100

def processNextChunk (wallet : Option Wallet) (m : MessagesModel) (generation : ℕ) : Outcome :=
  if generation ≠ m.m_reloadGeneration then ⟨m, [], []⟩
  else
    let total := getTransactionCount wallet
    let cursor := m.m_reloadTransactionId
    let last := min (cursor + CHUNK_SIZE) total
    let (m', inserted) := (List.range' cursor (last - cursor)).foldl
      (appendTransaction wallet) (m, 0)
    let cursor' := max cursor last
    ⟨{ m' with m_reloadTransactionId := cursor' }, insertRows m.rowCount inserted,
      if cursor' < total then [generation] else []⟩

/-- The handler of walletTransactionCreatedSignal, which catches up with the wallet from the size
of the hash to the announced id. -/
def transactionCreated (wallet : Option Wallet) (m : MessagesModel) (id : TransactionId) :
    Outcome :=
  if m.m_transactionRow.contains id then ⟨m, [], []⟩
  else
    let start := m.m_transactionRow.size
    let (m', inserted) := (List.range' start (id + 1 - start)).foldl
      (appendTransaction wallet) (m, 0)
    ⟨m', insertRows m.rowCount inserted, []⟩

/-- The columns are those of the first and of the third column, date and height. -/
def updateWalletTransaction (m : MessagesModel) (id : TransactionId) : ModelSignal :=
  let (firstRow, count) := m.m_transactionRow.value id
  let lastRow := (firstRow + count + 2 ^ 32 - 1) % 2 ^ 32
  .dataChanged ⟨toInt firstRow, 0⟩ ⟨toInt lastRow, 2⟩

def lastKnownHeightUpdated (m : MessagesModel) : List ModelSignal :=
  if 0 < m.rowCount then [.dataChanged ⟨0, 0⟩ ⟨m.rowCount - 1, 2⟩] else []

/-- reset leaves the cursor of an interrupted reload as it is. -/
def reset (m : MessagesModel) : Outcome :=
  ⟨{ m with
      m_messages := []
      m_transactionRow := ∅
      m_reloadGeneration := (m.m_reloadGeneration + 1) % 2 ^ 64 },
    [.beginResetModel, .endResetModel], []⟩

/-- The signals that are queued for the model, and the expiry of a timer. -/
inductive Event where
  | reloadWalletTransactions
  | processNextChunk (generation : ℕ)
  | transactionCreated (id : TransactionId)
  | transactionUpdated (id : TransactionId)
  | lastKnownHeightUpdated
  | walletCloseCompleted

def handle (wallet : Option Wallet) (m : MessagesModel) : Event → Outcome
  | .reloadWalletTransactions => m.reloadWalletTransactions
  | .processNextChunk generation => m.processNextChunk wallet generation
  | .transactionCreated id => m.transactionCreated wallet id
  | .transactionUpdated id => ⟨m, [m.updateWalletTransaction id], []⟩
  | .lastKnownHeightUpdated => ⟨m, m.lastKnownHeightUpdated, []⟩
  | .walletCloseCompleted => m.reset

end MessagesModel
end ConcealDesktop
