import ConcealDesktop.Library.RowChanges
import ConcealDesktop.Models

/-! What the views attached to the item models are told. An observer follows the rows of a model by
its notifications alone; the handlers announce exactly what they do to the rows. A handler clears
its rows before it ends a reset, and announces inserted rows after it has added them, so the rows
that an observer reads for a range are the ones that the handler leaves. -/
namespace ConcealDesktop
open EventDriven RowChanges WalletAdapter

/-- The change of the rows that a notification stands for. -/
def ModelSignal.rowChange : ModelSignal → Option Change
  | .endResetModel => some .clear
  | .beginInsertRows first last => some (.insert first last)
  | .beginRemoveRows first last => some (.remove first last)
  | .beginResetModel | .endInsertRows | .endRemoveRows | .dataChanged _ _ => none

/-- The observer's rows after a handler that has left `rows`. -/
def observe {α : Type} (rows : List α) (signals : List ModelSignal) (shadow : List α) :
    Option (List α) :=
  replay rows (signals.filterMap ModelSignal.rowChange) shadow

section Observe

variable {α : Type} {rows shadow : List α}

theorem observe_append (signals signals' : List ModelSignal) :
    observe rows (signals ++ signals') shadow =
      (observe rows signals shadow).bind (observe rows signals') := by
  unfold observe
  rw [List.filterMap_append, replay_append]

@[simp] theorem observe_nil : observe rows [] shadow = some shadow := rfl

/-- Changes of cells do not touch the rows. -/
theorem observe_of_unchanged {signals : List ModelSignal}
    (h : ∀ signal ∈ signals, signal.rowChange = none) :
    observe rows signals shadow = some shadow := by
  unfold observe
  rw [List.filterMap_eq_nil_iff.mpr h]
  rfl

@[simp] theorem observe_dataChanged (topLeft bottomRight : QModelIndex) :
    observe rows [.dataChanged topLeft bottomRight] shadow = some shadow := rfl

@[simp] theorem observe_reset :
    observe rows [.beginResetModel, .endResetModel] shadow = some [] := rfl

/-- The announced range holds the rows between two parts. -/
theorem observe_insert (before inserted after : List α) (h : inserted ≠ []) :
    observe (before ++ inserted ++ after)
      [.beginInsertRows before.length (before.length + inserted.length - 1), .endInsertRows]
      (before ++ after) = some (before ++ inserted ++ after) :=
  (replay_singleton _ _ _).trans (apply_insert before inserted after h)

theorem observe_remove (before after : List α) (a : α) :
    observe rows [.beginRemoveRows before.length before.length, .endRemoveRows]
      (before ++ a :: after) = some (before ++ after) :=
  (replay_singleton _ _ _).trans (apply_remove rows before after a)

/-- The rows that a catch-up loop has appended are announced at the end of the list. -/
theorem observe_insertRows (before inserted : List α) :
    observe (before ++ inserted) (TransactionsModel.insertRows before.length inserted.length)
      before = some (before ++ inserted) := by
  unfold TransactionsModel.insertRows
  split_ifs with h
  · have hne : inserted ≠ [] := List.length_pos_iff.mp h
    simpa using observe_insert before inserted [] hne
  · have hnil : inserted = [] := List.length_eq_zero_iff.mp (by omega)
    rw [hnil, List.append_nil]
    exact observe_nil

/-- A loop that appends and counts rows, followed by the notification of its range. -/
theorem observe_loop {σ ι : Type} (rows : σ → List α) (take : σ × ℕ → ι → σ × ℕ)
    (hstep : ∀ acc i, ∃ new, rows (take acc i).1 = rows acc.1 ++ new ∧
      (take acc i).2 = acc.2 + new.length) (is : List ι) (m : σ) :
    observe (rows (is.foldl take (m, 0)).1)
      (TransactionsModel.insertRows (rows m).length (is.foldl take (m, 0)).2) (rows m) =
        some (rows (is.foldl take (m, 0)).1) := by
  obtain ⟨new, hrows, hcount⟩ := foldl_appends rows take hstep is (m, 0)
  rw [hrows, hcount, Nat.zero_add]
  exact observe_insertRows (rows m) new

end Observe

namespace TransactionsModel

theorem appendTransaction_appends (wallet : Option Wallet) (acc : TransactionsModel × ℕ)
    (id : TransactionId) :
    ∃ new, (appendTransaction wallet acc id).1.m_transfers = acc.1.m_transfers ++ new ∧
      (appendTransaction wallet acc id).2 = acc.2 + new.length := by
  obtain ⟨m, inserted⟩ := acc
  unfold appendTransaction
  cases getTransaction wallet id with
  | none => exact ⟨[], by simp, by simp⟩
  | some t =>
    dsimp only
    split_ifs
    · exact ⟨[(id, 0)], rfl, rfl⟩
    · exact ⟨[(id, WALLET_INVALID_TRANSFER_ID)], rfl, rfl⟩

theorem observe_appended (wallet : Option Wallet) (m : TransactionsModel) (ids : List ℕ) :
    observe (ids.foldl (appendTransaction wallet) (m, 0)).1.m_transfers
      (insertRows m.rowCount (ids.foldl (appendTransaction wallet) (m, 0)).2)
      m.m_transfers = some (ids.foldl (appendTransaction wallet) (m, 0)).1.m_transfers :=
  observe_loop (fun m : TransactionsModel => m.m_transfers) (appendTransaction wallet)
    (appendTransaction_appends wallet) ids m

theorem observe_reload (wallet : Option Wallet) (m : TransactionsModel) :
    observe (m.reloadWalletTransactions wallet).1.m_transfers (m.reloadWalletTransactions wallet).2
      m.m_transfers = some (m.reloadWalletTransactions wallet).1.m_transfers := by
  unfold reloadWalletTransactions reset
  dsimp only
  rw [observe_append, observe_reset]
  exact observe_appended wallet empty _

theorem observe_transactionCreated (wallet : Option Wallet) (m : TransactionsModel)
    (id : TransactionId) :
    observe (m.transactionCreated wallet id).1.m_transfers (m.transactionCreated wallet id).2
      m.m_transfers = some (m.transactionCreated wallet id).1.m_transfers := by
  unfold transactionCreated
  split_ifs
  · exact observe_nil
  · exact observe_appended wallet m _

theorem observe_update (rows : List (TransactionId × TransferId)) (m : TransactionsModel)
    (id : TransactionId) : observe rows [m.updateWalletTransaction id] rows = some rows := by
  unfold updateWalletTransaction
  exact observe_dataChanged _ _

theorem observe_lastKnownHeightUpdated (rows : List (TransactionId × TransferId))
    (m : TransactionsModel) : observe rows m.lastKnownHeightUpdated rows = some rows := by
  unfold lastKnownHeightUpdated
  split_ifs
  · exact observe_dataChanged _ _
  · exact observe_nil

theorem observe_handle (wallet : Option Wallet) (m : TransactionsModel) (e : Event) :
    observe (m.handle wallet e).1.m_transfers (m.handle wallet e).2 m.m_transfers =
      some (m.handle wallet e).1.m_transfers := by
  cases e with
  | reloadWalletTransactions => exact observe_reload wallet m
  | transactionCreated id => exact observe_transactionCreated wallet m id
  | transactionUpdated id => exact observe_update _ m id
  | lastKnownHeightUpdated => exact observe_lastKnownHeightUpdated _ m
  | walletCloseCompleted => exact observe_reset

end TransactionsModel

namespace MessagesModel

theorem appendTransaction_appends (wallet : Option Wallet) (acc : MessagesModel × ℕ)
    (id : TransactionId) :
    ∃ new, (appendTransaction wallet acc id).1.m_messages = acc.1.m_messages ++ new ∧
      (appendTransaction wallet acc id).2 = acc.2 + new.length := by
  obtain ⟨m, inserted⟩ := acc
  unfold appendTransaction
  dsimp only
  split_ifs
  · exact ⟨[], by simp, by simp⟩
  · cases getTransaction wallet id with
    | none => exact ⟨[], by simp, by simp⟩
    | some t =>
      dsimp only
      split_ifs
      · exact ⟨[], by simp, by simp⟩
      · exact ⟨t.messages.map fun text => (id, text), rfl, by simp⟩

theorem observe_appended (wallet : Option Wallet) (m : MessagesModel) (ids : List ℕ) :
    observe (ids.foldl (appendTransaction wallet) (m, 0)).1.m_messages
      (insertRows m.rowCount (ids.foldl (appendTransaction wallet) (m, 0)).2)
      m.m_messages = some (ids.foldl (appendTransaction wallet) (m, 0)).1.m_messages :=
  observe_loop (fun m : MessagesModel => m.m_messages) (appendTransaction wallet)
    (appendTransaction_appends wallet) ids m

theorem observe_processNextChunk (wallet : Option Wallet) (m : MessagesModel) (generation : ℕ) :
    observe (m.processNextChunk wallet generation).model.m_messages
      (m.processNextChunk wallet generation).signals m.m_messages =
        some (m.processNextChunk wallet generation).model.m_messages := by
  unfold processNextChunk
  split_ifs
  · exact observe_nil
  · exact observe_appended wallet m _

theorem observe_transactionCreated (wallet : Option Wallet) (m : MessagesModel)
    (id : TransactionId) :
    observe (m.transactionCreated wallet id).model.m_messages
      (m.transactionCreated wallet id).signals m.m_messages =
        some (m.transactionCreated wallet id).model.m_messages := by
  unfold transactionCreated
  split_ifs
  · exact observe_nil
  · exact observe_appended wallet m _

theorem observe_update (rows : List (TransactionId × StdString)) (m : MessagesModel)
    (id : TransactionId) : observe rows [m.updateWalletTransaction id] rows = some rows := by
  unfold updateWalletTransaction
  exact observe_dataChanged _ _

theorem observe_lastKnownHeightUpdated (rows : List (TransactionId × StdString))
    (m : MessagesModel) : observe rows m.lastKnownHeightUpdated rows = some rows := by
  unfold lastKnownHeightUpdated
  split_ifs
  · exact observe_dataChanged _ _
  · exact observe_nil

theorem observe_handle (wallet : Option Wallet) (m : MessagesModel) (e : Event) :
    observe (m.handle wallet e).model.m_messages (m.handle wallet e).signals m.m_messages =
      some (m.handle wallet e).model.m_messages := by
  cases e with
  | reloadWalletTransactions => exact observe_reset
  | processNextChunk generation => exact observe_processNextChunk wallet m generation
  | transactionCreated id => exact observe_transactionCreated wallet m id
  | transactionUpdated id => exact observe_update _ m id
  | lastKnownHeightUpdated => exact observe_lastKnownHeightUpdated _ m
  | walletCloseCompleted => exact observe_reset

end MessagesModel

namespace DepositModel

/-- What a row stands for. -/
inductive Row where
  | real (depositId : DepositId)
  | pending (row : PendingDepositRow)
deriving DecidableEq

/-- The pending deposits come after the real ones. -/
def rows (m : DepositModel) : List Row :=
  (List.range m.m_depositCount).map .real ++ m.m_pendingDeposits.map .pending

theorem length_rows (m : DepositModel) : m.rows.length = m.rowCount := by
  simp [rows, rowCount]

/-- Real rows that come between the real rows so far and the pending ones. -/
theorem observe_real (m : DepositModel) (k : ℕ) :
    observe { m with m_depositCount := m.m_depositCount + (k + 1) }.rows
      [.beginInsertRows m.m_depositCount (m.m_depositCount + k : ℕ), .endInsertRows] m.rows =
        some { m with m_depositCount := m.m_depositCount + (k + 1) }.rows := by
  have hrows : { m with m_depositCount := m.m_depositCount + (k + 1) }.rows =
      (List.range m.m_depositCount).map .real ++
        ((List.range (k + 1)).map (m.m_depositCount + ·)).map .real ++
          m.m_pendingDeposits.map .pending := by
    simp only [rows, List.range_add, List.map_append]
  have hlength : (((List.range m.m_depositCount).map Row.real).length : ℤ) = m.m_depositCount := by
    simp
  have hlast : ((m.m_depositCount + k : ℕ) : ℤ) = m.m_depositCount +
      (((List.range (k + 1)).map (m.m_depositCount + ·)).map Row.real).length - 1 := by
    simp only [List.length_map, List.length_range]
    omega
  rw [hrows, hlast, ← hlength]
  exact observe_insert _ _ _ (by simp)

theorem observe_appendDeposit (wallet : Option Wallet) (m : DepositModel) (depositId : DepositId)
    (hlt : depositId + 1 < 2 ^ 32) :
    observe (m.appendDeposit wallet depositId).1.rows (m.appendDeposit wallet depositId).2 m.rows =
      some (m.appendDeposit wallet depositId).1.rows := by
  unfold appendDeposit
  split_ifs with hold
  · exact observe_nil
  · cases getDeposit wallet depositId with
    | none => exact observe_nil
    | some deposit =>
      dsimp only
      split_ifs
      · exact observe_nil
      · obtain ⟨k, rfl⟩ := Nat.exists_eq_add_of_le (not_lt.mp hold)
        rw [Nat.mod_eq_of_lt hlt, Nat.add_assoc]
        exact observe_real m k

theorem observe_sync (wallet : Option Wallet) (m : DepositModel) :
    observe (m.syncDepositRowsFromWallet wallet).1.rows (m.syncDepositRowsFromWallet wallet).2
      m.rows = some (m.syncDepositRowsFromWallet wallet).1.rows := by
  have hbound := getDepositCount_lt wallet
  unfold syncDepositRowsFromWallet
  dsimp only
  split_ifs with hle
  · exact observe_nil
  · have hlast : getDepositCount wallet - 1 + 1 < 2 ^ 32 := by omega
    exact observe_appendDeposit wallet m _ hlast

theorem observe_reload (wallet : Option Wallet) (m : DepositModel) :
    observe (m.reloadWalletDeposits wallet).1.rows (m.reloadWalletDeposits wallet).2 m.rows =
      some (m.reloadWalletDeposits wallet).1.rows := by
  have hbound := getDepositCount_lt wallet
  unfold reloadWalletDeposits
  dsimp only [reset]
  split_ifs with hnone
  · exact observe_reset
  · have hmod : getDepositCount wallet % 2 ^ 32 = getDepositCount wallet :=
      Nat.mod_eq_of_lt (by omega)
    rw [observe_append, observe_reset, hmod]
    obtain ⟨k, hk⟩ := Nat.exists_eq_succ_of_ne_zero hnone
    have hlast : ((getDepositCount wallet : ℤ) - 1) = (initial.m_depositCount + k : ℕ) := by
      rw [hk]
      simp [initial]
    have hcount : getDepositCount wallet = initial.m_depositCount + (k + 1) := by
      rw [hk]
      simp [initial]
    rw [hlast, hcount]
    exact observe_real initial k

/-- A pending row is taken out from between the rows before it and those after it. -/
theorem observe_pending (rows : List Row) (m : DepositModel) {i : ℕ}
    (hi : i < m.m_pendingDeposits.length) :
    observe rows [.beginRemoveRows (m.m_depositCount + i : ℤ) (m.m_depositCount + i : ℤ),
      .endRemoveRows] m.rows =
        some { m with m_pendingDeposits := m.m_pendingDeposits.eraseIdx i }.rows := by
  have hbefore : m.rows = ((List.range m.m_depositCount).map .real ++
      (m.m_pendingDeposits.take i).map .pending) ++
        .pending m.m_pendingDeposits[i] :: (m.m_pendingDeposits.drop (i + 1)).map .pending := by
    rw [List.append_assoc, ← List.map_cons (f := Row.pending), ← List.map_append,
      List.getElem_cons_drop, List.take_append_drop]
    rfl
  have hafter : DepositModel.rows { m with m_pendingDeposits := m.m_pendingDeposits.eraseIdx i } =
      ((List.range m.m_depositCount).map .real ++ (m.m_pendingDeposits.take i).map .pending) ++
        (m.m_pendingDeposits.drop (i + 1)).map .pending := by
    rw [DepositModel.rows, List.eraseIdx_eq_take_drop_succ, List.map_append, List.append_assoc]
  have hrow : (m.m_depositCount + i : ℤ) = (((List.range m.m_depositCount).map Row.real ++
      (m.m_pendingDeposits.take i).map Row.pending).length : ℤ) := by
    simp only [List.length_append, List.length_map, List.length_range, List.length_take]
    omega
  rw [hbefore, hafter, hrow]
  exact observe_remove _ _ _

theorem observe_removePending (rows : List Row) (wallet : Option Wallet) (m : DepositModel)
    (id : TransactionId) :
    observe rows (m.removePending wallet id).2 m.rows =
      some (m.removePending wallet id).1.rows := by
  unfold removePending
  cases getTransaction wallet id with
  | none => exact observe_nil
  | some t =>
    dsimp only
    split_ifs
    · exact observe_nil
    · cases hfind : m.m_pendingDeposits.reverse.findIdx?
          (PendingDepositRow.matches · id (QByteArray.toUpper (QByteArray.toHex t.hash))) with
      | none => exact observe_nil
      | some fromEnd =>
        dsimp only
        generalize hi : m.m_pendingDeposits.length - 1 - fromEnd = i
        have hfromEnd : fromEnd < m.m_pendingDeposits.length := by
          have := (List.findIdx?_eq_some_iff_findIdx_eq.mp hfind).1
          rwa [List.length_reverse] at this
        have hlt : i < m.m_pendingDeposits.length := by omega
        exact observe_pending rows m hlt

theorem observe_transactionUpdated (env : Environment) (wallet : Option Wallet)
    (transactions : TransactionsModel) (m : DepositModel) (id : TransactionId) :
    observe (m.transactionUpdated env wallet transactions id).1.rows
      (m.transactionUpdated env wallet transactions id).2 m.rows =
        some (m.transactionUpdated env wallet transactions id).1.rows := by
  unfold transactionUpdated
  rw [observe_append, observe_append, observe_removePending, Option.bind_some, observe_sync,
    Option.bind_some]
  apply observe_of_unchanged
  intro signal hsignal
  unfold announceDeposits at hsignal
  dsimp only at hsignal
  split_ifs at hsignal
  · cases hsignal
  · rw [List.mem_singleton.mp hsignal]
    rfl

theorem observe_depositsUpdated (wallet : Option Wallet) (m : DepositModel)
    (ids : List DepositId) :
    observe (m.depositsUpdated wallet ids).1.rows (m.depositsUpdated wallet ids).2 m.rows =
      some (m.depositsUpdated wallet ids).1.rows := by
  unfold depositsUpdated
  rw [observe_append, observe_sync, Option.bind_some]
  apply observe_of_unchanged
  intro signal hsignal
  obtain ⟨depositId, -, rfl⟩ := List.mem_map.mp hsignal
  rfl

theorem observe_pendingSubmitted (m : DepositModel) (id : TransactionId) (hashHex : StdString)
    (amount term : ℕ) :
    observe (m.walletDepositPendingSubmitted id hashHex amount term).1.rows
      (m.walletDepositPendingSubmitted id hashHex amount term).2 m.rows =
        some (m.walletDepositPendingSubmitted id hashHex amount term).1.rows := by
  have hrows : (m.walletDepositPendingSubmitted id hashHex amount term).1.rows =
      m.rows ++ [.pending ⟨id, QByteArray.toUpper hashHex, amount, term⟩] := by
    simp [walletDepositPendingSubmitted, rows]
  have hlast : (m.rowCount : ℤ) = m.rows.length + ([Row.pending ⟨id, QByteArray.toUpper hashHex,
      amount, term⟩].length : ℤ) - 1 := by
    simp [length_rows]
  have hsignals : (m.walletDepositPendingSubmitted id hashHex amount term).2 =
      [.beginInsertRows m.rows.length (m.rows.length + ([Row.pending ⟨id,
        QByteArray.toUpper hashHex, amount, term⟩].length : ℤ) - 1), .endInsertRows] := by
    rw [← hlast, length_rows]
    rfl
  rw [hrows, hsignals]
  simpa using observe_insert m.rows [Row.pending ⟨id, QByteArray.toUpper hashHex, amount, term⟩] []
    (by simp)

theorem observe_handle (env : Environment) (wallet : Option Wallet)
    (transactions : TransactionsModel) (m : DepositModel) (e : Event) :
    observe (m.handle env wallet transactions e).1.rows (m.handle env wallet transactions e).2
      m.rows = some (m.handle env wallet transactions e).1.rows := by
  cases e with
  | reloadWalletDeposits => exact observe_reload wallet m
  | transactionCreated id => exact observe_sync wallet m
  | transactionUpdated id => exact observe_transactionUpdated env wallet transactions m id
  | depositsUpdated ids => exact observe_depositsUpdated wallet m ids
  | walletDepositPending id hashHex amount term =>
    exact observe_pendingSubmitted m id hashHex amount term
  | walletCloseCompleted => exact observe_reset

end DepositModel

namespace Models

/-- The rows of the three models, or an observer's copy of them. -/
structure Rows where
  transactions : List (TransactionId × TransferId)
  messages : List (TransactionId × StdString)
  deposits : List DepositModel.Row
deriving DecidableEq

def State.rows (s : State) : Rows :=
  ⟨s.transactions.m_transfers, s.messages.m_messages, s.deposits.rows⟩

/-- The copies after an event, or nothing if a notification does not fit its copy. -/
def follow (env : Environment) (s : State) (shadow : Rows) : Event → Option Rows
  | .wallet _ => some shadow
  | .transactions e =>
    let (m, signals) := s.transactions.handle s.wallet e
    (observe m.m_transfers signals shadow.transactions).map fun rows =>
      { shadow with transactions := rows }
  | .messages e =>
    let outcome := s.messages.handle s.wallet e
    (observe outcome.model.m_messages outcome.signals shadow.messages).map fun rows =>
      { shadow with messages := rows }
  | .deposits e =>
    let (m, signals) := s.deposits.handle env s.wallet s.transactions e
    (observe m.rows signals shadow.deposits).map fun rows => { shadow with deposits := rows }

/-- The copies of an observer that is attached before the first event and is told everything. -/
def followed (env : Environment) : List Event → Option Rows
  | [] => some (system env).init.rows
  | e :: h => (followed env h).bind fun shadow => follow env ((system env).after h) shadow e

/-- A copy that agrees with the models agrees with them after any event. -/
theorem follow_rows (env : Environment) (s : State) (e : Event) :
    follow env s s.rows e = some (handle env s e).rows := by
  cases e with
  | wallet wallet => rfl
  | transactions e =>
    simp only [follow, State.rows, handle, TransactionsModel.observe_handle, Option.map_some]
  | messages e =>
    simp only [follow, State.rows, handle, MessagesModel.observe_handle, Option.map_some]
  | deposits e =>
    simp only [follow, State.rows, handle, DepositModel.observe_handle, Option.map_some]

/-- After every handler of every run the observer has exactly the rows of the models. -/
theorem followed_eq_rows (env : Environment) (h : List Event) :
    followed env h = some ((system env).after h).rows := by
  induction h with
  | nil => rfl
  | cons e h ih =>
    rw [followed, ih]
    exact follow_rows env ((system env).after h) e

end Models
end ConcealDesktop
