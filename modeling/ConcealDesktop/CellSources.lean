import ConcealDesktop.TransactionRows

/-! Which transaction a cell shows. TransactionsModel reads the pair of zeros for a row outside its
table, so such a row shows transaction 0; DepositModel looks its creating and spending transactions
up by row, before they may be listed. -/
namespace ConcealDesktop.TransactionsModel
open WalletAdapter

/-- The reading is of the given transaction, as the wallet has it. -/
def Reading.IsOf (wallet : Option Wallet) (id : ℕ) (reading : Reading) : Prop :=
  reading.transactionId = id ∧ readPair wallet (id, reading.transferId) = some reading

/-- For every role, the cell is empty or rendered from the transaction with the row's number. -/
def OwnOrEmpty (env : Environment) (wallet : Option Wallet) (m : TransactionsModel) (row : ℕ)
    (column : ℤ) : Prop :=
  ∀ role, data env wallet m (index row column) role = .null ∨
    ∃ reading : Reading, reading.IsOf wallet row ∧
      data env wallet m (index row column) role = render env (index row column) reading role

/-- The row is in the table, or what a row outside it shows is transaction 0 or nothing. -/
def RowSafe (wallet : Option Wallet) (m : TransactionsModel) (row : ℕ) : Prop :=
  row < m.rowCount ∨ row = 0 ∨ readPair wallet (0, 0) = none

instance (wallet : Option Wallet) (m : TransactionsModel) (row : ℕ) :
    Decidable (RowSafe wallet m row) := by
  unfold RowSafe
  infer_instance

theorem readPair_eq_some {wallet : Option Wallet} {ids : ℕ × ℕ} {reading : Reading}
    (h : readPair wallet ids = some reading) :
    reading.transactionId = ids.1 ∧ reading.transferId = ids.2 ∧
      getTransaction wallet ids.1 = some reading.transaction := by
  simp only [readPair, Option.bind_eq_some_iff, Option.map_eq_some_iff] at h
  obtain ⟨transaction, ht, transfer, -, deposit, -, rfl⟩ := h
  exact ⟨rfl, rfl, ht⟩

theorem isOf_of_readPair {wallet : Option Wallet} {ids : ℕ × ℕ} {reading : Reading}
    (h : readPair wallet ids = some reading) : reading.IsOf wallet ids.1 := by
  obtain ⟨hid, htransfer, -⟩ := readPair_eq_some h
  exact ⟨hid, by rw [htransfer]; exact h⟩

theorem valueAt_of_le {m : TransactionsModel} {row : ℕ} (h : m.rowCount ≤ row) :
    m.valueAt row = (0, 0) := by
  have hnone : m.m_transfers[row]? = none := List.getElem?_eq_none h
  simp [valueAt, hnone]

theorem Listed.valueAt_fst {n : ℕ} {m : TransactionsModel} (hm : Listed n m) {row : ℕ}
    (h : row < n) : (m.valueAt row).1 = row := by
  obtain ⟨transfer, hrow⟩ := (hm.row_iff row row).mpr ⟨rfl, h⟩
  simp [valueAt, hrow]

/-- What is read for a safe row is read from the row's transaction. -/
theorem Listed.read_isOf {n : ℕ} {m : TransactionsModel} (hm : Listed n m)
    {wallet : Option Wallet} {row : ℕ} {column : ℤ} (hsafe : RowSafe wallet m row)
    {reading : Reading} (hread : m.read wallet (index row column) = some reading) :
    reading.IsOf wallet row := by
  unfold read at hread
  split_ifs at hread
  have hpair : readPair wallet (m.valueAt row) = some reading := hread
  have hfst : (m.valueAt row).1 = row := by
    rcases lt_or_ge row n with h | h
    · exact hm.valueAt_fst h
    · have hout := valueAt_of_le (hm.rowCount_eq.le.trans h)
      rw [hout] at hpair ⊢
      rcases hsafe with h' | h' | h'
      · exact absurd (h'.trans_eq hm.rowCount_eq) (not_lt.mpr h)
      · exact h'.symm
      · exact absurd hpair (by simp [h'])
  exact hfst ▸ isOf_of_readPair hpair

/-- A row that is not safe shows transaction 0. -/
theorem read_of_not_rowSafe {m : TransactionsModel} {wallet : Option Wallet} {row : ℕ} {column : ℤ}
    (h : ¬RowSafe wallet m row) (hcolumn : 0 ≤ column) :
    ∃ reading, readPair wallet (0, 0) = some reading ∧
      m.read wallet (index row column) = some reading := by
  obtain ⟨hrow, -, hfirst⟩ : ¬row < m.rowCount ∧ row ≠ 0 ∧ readPair wallet (0, 0) ≠ none := by
    simpa only [RowSafe, not_or] using h
  obtain ⟨reading, hreading⟩ := Option.ne_none_iff_exists'.mp hfirst
  have hvalid : (index row column).isValid = true := by simp [index, QModelIndex.isValid, hcolumn]
  refine ⟨reading, hreading, ?_⟩
  rw [read, if_pos hvalid]
  exact (congrArg (readPair wallet) (valueAt_of_le (not_lt.mp hrow))).trans hreading

/-- A valid cell shows nothing but its own transaction exactly when its row is safe. -/
theorem Listed.ownOrEmpty_iff {n : ℕ} {m : TransactionsModel} (hm : Listed n m)
    (env : Environment) (wallet : Option Wallet) (row : ℕ) (column : ℤ) :
    OwnOrEmpty env wallet m row column ↔ column < 0 ∨ RowSafe wallet m row := by
  constructor
  · intro hown
    by_contra hnot
    obtain ⟨hcolumn, hunsafe⟩ := not_or.mp hnot
    have hzero : row ≠ 0 := fun h => hunsafe (.inr (.inl h))
    obtain ⟨reading, hreading, hread⟩ := read_of_not_rowSafe hunsafe (not_lt.mp hcolumn)
    have hid : data env wallet m (index row column) .transactionId = .int 0 := by
      rw [data, hread]
      simp [render, getUserRole, (readPair_eq_some hreading).1]
    rcases hown .transactionId with hnull | ⟨own, hof, hrender⟩
    · rw [hid] at hnull
      cases hnull
    · rw [hid] at hrender
      simp only [render, getUserRole, hof.1, QVariant.int.injEq] at hrender
      omega
  · intro h role
    cases hread : m.read wallet (index row column) with
    | none => exact .inl (by rw [data, hread])
    | some reading =>
      rcases h with hcolumn | hsafe
      · have hinvalid : (index row column).isValid = false := by
          simp [index, QModelIndex.isValid, hcolumn]
        simp [read, hinvalid] at hread
      · exact .inr ⟨reading, hm.read_isOf hsafe hread, by rw [data, hread]⟩

/-- The cells that other models link to, as texts of the transaction alone. -/
inductive LinkedColumn where
  | date | hash | height
  deriving DecidableEq

def LinkedColumn.toColumn : LinkedColumn → Column
  | .date => .date
  | .hash => .hash
  | .height => .height

def LinkedColumn.text : LinkedColumn → WalletTransaction → QVariant
  | .date => dateText
  | .hash => hashText
  | .height => heightText

theorem getDisplayRole_linked (env : Environment) (row : ℤ) (column : LinkedColumn)
    (reading : Reading) :
    getDisplayRole env (index row column.toColumn.toInt) reading =
      column.text reading.transaction := by
  cases column <;>
    simp [getDisplayRole, index, LinkedColumn.toColumn, Column.ofInt_toInt, LinkedColumn.text]

end ConcealDesktop.TransactionsModel

namespace ConcealDesktop.DepositModel
open TransactionsModel WalletAdapter

/-- The id is no transaction, or a row that TransactionsModel shows nothing else for. -/
def LinkSafe (wallet : Option Wallet) (transactions : TransactionsModel) (id : ℕ) : Prop :=
  id = WALLET_INVALID_TRANSACTION_ID ∨ (id < 2 ^ 31 ∧ RowSafe wallet transactions id)

/-- The row of the id can be read, and gives the transaction with that id. -/
def LinkReadable (wallet : Option Wallet) (transactions : TransactionsModel) (id : ℕ) : Prop :=
  (id < 2 ^ 31 ∧ RowSafe wallet transactions id) ∧
    (transactions.read wallet (TransactionsModel.index id 0)).isSome

/-- Nothing, the mark for a missing transaction, or the text of the transaction itself. -/
def OwnText (wallet : Option Wallet) (id : ℕ) (column : LinkedColumn) (v : QVariant) : Prop :=
  v = .null ∨ (id = WALLET_INVALID_TRANSACTION_ID ∧ v = .text (qstr "-")) ∨
    ∃ t ∈ getTransaction wallet id, v = column.text t

/-- The columns of the creating transaction. -/
def creatingColumn : Column → Option LinkedColumn
  | .creatingTransactionHash => some .hash
  | .creatingHeight => some .height
  | .creatingTime => some .date
  | _ => none

/-- The columns of the spending transaction. -/
def spendingColumn : Column → Option LinkedColumn
  | .spendingTransactionHash => some .hash
  | .spendingHeight => some .height
  | .spendingTime => some .date
  | _ => none

/-- The unlock height that belongs to a deposit with this creating transaction. -/
def ownUnlockHeight (t : WalletTransaction) (deposit : Deposit) : ℕ :=
  let creatingHeight := t.blockHeight % 2 ^ 64
  if creatingHeight = WALLET_UNCONFIRMED_TRANSACTION_HEIGHT then
    WALLET_UNCONFIRMED_TRANSACTION_HEIGHT
  else (creatingHeight + deposit.term) % 2 ^ 64

theorem ownUnlockHeight_lt (t : WalletTransaction) (deposit : Deposit) :
    ownUnlockHeight t deposit < 2 ^ 64 := by
  simp only [ownUnlockHeight]
  split_ifs
  · decide
  · exact Nat.mod_lt _ (by decide)

/-- The text of the unlock height column, one below the height. -/
def unlockHeightText (height : ℕ) : QVariant :=
  if height = WALLET_UNCONFIRMED_TRANSACTION_HEIGHT then .text (qstr "-")
  else .int (height - 1 : ℕ)

section Cells

variable {wallet : Option Wallet} {transactions : TransactionsModel} {n id : ℕ}

theorem LinkSafe.lt (h : LinkSafe wallet transactions id) : id < 2 ^ 64 := by
  rcases h with rfl | h
  · decide
  · omega

theorem transactionCell_own (hm : Listed n transactions) (h : LinkSafe wallet transactions id)
    (env : Environment) (column : LinkedColumn) :
    OwnText wallet id column (transactionCell env wallet transactions id column.toColumn) := by
  unfold transactionCell
  rcases h with rfl | ⟨hlt, hsafe⟩
  · left
    have hrow : toInt WALLET_INVALID_TRANSACTION_ID = -1 := by decide
    simp [TransactionsModel.data, TransactionsModel.read, hrow, TransactionsModel.index,
      QModelIndex.isValid]
  · rw [toInt_of_lt hlt]
    cases hread : transactions.read wallet
        (TransactionsModel.index id column.toColumn.toInt) with
    | none => exact .inl (by rw [TransactionsModel.data, hread])
    | some reading =>
      obtain ⟨-, hpair⟩ := hm.read_isOf hsafe hread
      right
      right
      refine ⟨reading.transaction, (readPair_eq_some hpair).2.2, ?_⟩
      rw [TransactionsModel.data, hread]
      exact getDisplayRole_linked env id column reading

/-- Otherwise the cell is that of transaction 0. -/
theorem transactionCell_else (hlt : id < 2 ^ 31) (h : ¬RowSafe wallet transactions id)
    (env : Environment) (column : LinkedColumn) :
    ∃ t ∈ getTransaction wallet 0,
      transactionCell env wallet transactions id column.toColumn = column.text t := by
  have hcolumn : 0 ≤ column.toColumn.toInt := by simp [TransactionsModel.Column.toInt]
  obtain ⟨reading, hreading, hread⟩ := read_of_not_rowSafe h hcolumn
  refine ⟨reading.transaction, (readPair_eq_some hreading).2.2, ?_⟩
  rw [transactionCell, toInt_of_lt hlt, TransactionsModel.data, hread]
  exact getDisplayRole_linked env id column reading

theorem linkedCell_of_lt (hlt : id < 2 ^ 31) (env : Environment)
    (column : TransactionsModel.Column) :
    linkedCell env wallet transactions id column =
      transactionCell env wallet transactions id column := by
  have hid : id ≠ WALLET_INVALID_TRANSACTION_ID := Nat.ne_of_lt (hlt.trans (by decide))
  rw [linkedCell, if_neg hid]

theorem linkedCell_own (hm : Listed n transactions) (h : LinkSafe wallet transactions id)
    (env : Environment) (column : LinkedColumn) :
    OwnText wallet id column (linkedCell env wallet transactions id column.toColumn) := by
  unfold linkedCell
  split_ifs with hid
  · exact .inr (.inl ⟨hid, rfl⟩)
  · exact transactionCell_own hm h env column

variable {m : DepositModel} {d : ℕ} {deposit : Deposit}

theorem access_real (hd : d < m.m_depositCount) : m.access d = .real d := by
  have hreal : m.isPendingRow d = false := by simp [isPendingRow, hd]
  simp [access, hreal]

theorem data_display_real (hd : d < m.m_depositCount) (env : Environment) (column : Column) :
    data env wallet transactions m (index d column.toInt) .display =
      some (realDisplayRole env wallet transactions d (index d column.toInt) column) := by
  simp only [data, isValid_index, Bool.true_eq_false, if_false, getDisplayRole, index_row,
    index_column, access_real hd, Column.ofInt_toInt]

/-- The cells of the creating transaction; the hash is looked up even for an invalid id. -/
theorem creating_cell (hdeposit : getDeposit wallet d = some deposit)
    (hlt : deposit.creatingTransactionId < 2 ^ 64) (env : Environment) (index : QModelIndex)
    {column : Column} {linked : LinkedColumn} (hcolumn : creatingColumn column = some linked) :
    realDisplayRole env wallet transactions d index column =
      if linked = .hash then
        transactionCell env wallet transactions deposit.creatingTransactionId linked.toColumn
      else linkedCell env wallet transactions deposit.creatingTransactionId linked.toColumn := by
  have hid : (realUserRole env wallet transactions d index .creatingTransactionId).toUnsigned 64 =
      deposit.creatingTransactionId := by
    simp only [realUserRole, hdeposit]
    exact QVariant.toUnsigned_int hlt
  cases column <;> cases hcolumn <;> simp [realDisplayRole, hid, LinkedColumn.toColumn]

theorem spending_cell (hdeposit : getDeposit wallet d = some deposit)
    (hlt : deposit.spendingTransactionId < 2 ^ 64) (env : Environment) (index : QModelIndex)
    {column : Column} {linked : LinkedColumn} (hcolumn : spendingColumn column = some linked) :
    realDisplayRole env wallet transactions d index column =
      linkedCell env wallet transactions deposit.spendingTransactionId linked.toColumn := by
  have hid : (realUserRole env wallet transactions d index .spendingTransactionId).toUnsigned 64 =
      deposit.spendingTransactionId := by
    simp only [realUserRole, hdeposit]
    exact QVariant.toUnsigned_int hlt
  cases column <;> cases hcolumn <;> simp [realDisplayRole, hid, LinkedColumn.toColumn]

/-- The unlock height is computed from the creating transaction when its row can be read. -/
theorem unlockHeight_own (hm : Listed n transactions) (hd : d < m.m_depositCount)
    (hdeposit : getDeposit wallet d = some deposit)
    (h : LinkReadable wallet transactions deposit.creatingTransactionId) (env : Environment) :
    ∃ t ∈ getTransaction wallet deposit.creatingTransactionId,
      ∀ column : Column, data env wallet transactions m (index d column.toInt) .unlockHeight =
        some (.int (ownUnlockHeight t deposit)) := by
  obtain ⟨⟨hlt, hsafe⟩, hsome⟩ := h
  obtain ⟨reading, hread⟩ := Option.isSome_iff_exists.mp hsome
  obtain ⟨-, hpair⟩ := hm.read_isOf hsafe hread
  refine ⟨reading.transaction, (readPair_eq_some hpair).2.2, ?_⟩
  intro column
  have hheight : creatingHeight env wallet transactions deposit.creatingTransactionId =
      reading.transaction.blockHeight % 2 ^ 64 := by
    rw [creatingHeight, toInt_of_lt hlt, TransactionsModel.data, hread]
    simp only [render, TransactionsModel.getUserRole, QVariant.toUnsigned]
    omega
  simp only [data, isValid_index, Bool.true_eq_false, if_false, getUserRole, index_row,
    access_real hd, realUserRole, hdeposit, hheight, ownUnlockHeight]
  split_ifs <;> rfl

theorem unlockHeight_display (hd : d < m.m_depositCount) {env : Environment} {height : ℕ}
    (hlt : height < 2 ^ 64) (h : data env wallet transactions m
      (index d Column.unlockHeight.toInt) .unlockHeight = some (.int height)) :
    data env wallet transactions m (index d Column.unlockHeight.toInt) .display =
      some (unlockHeightText height) := by
  simp only [data, isValid_index, Bool.true_eq_false, if_false, getUserRole, index_row,
    access_real hd, Option.some.injEq] at h
  rw [data_display_real hd]
  simp only [realDisplayRole, h, QVariant.toUnsigned_int hlt, unlockHeightText]

theorem access_pending {i : ℕ} {pending : PendingDepositRow}
    (h : m.m_pendingDeposits[i]? = some pending) :
    m.access (m.m_depositCount + i : ℕ) = .pending pending := by
  have hpending : m.isPendingRow (m.m_depositCount + i : ℕ) = true :=
    decide_eq_true (by omega)
  have hindex : (m.pendingIndex (m.m_depositCount + i : ℕ)).toNat = i := by
    rw [pendingIndex]
    omega
  simp only [access, hpending, if_true, hindex, h]

theorem data_display_pending {i : ℕ} {pending : PendingDepositRow}
    (h : m.m_pendingDeposits[i]? = some pending) (env : Environment) (column : Column) :
    data env wallet transactions m (index (m.m_depositCount + i : ℕ) column.toInt) .display =
      some (pendingDisplayRole env wallet transactions pending column) := by
  simp only [data, isValid_index, Bool.true_eq_false, if_false, getDisplayRole, index_row,
    index_column, access_pending h, Column.ofInt_toInt]

theorem pendingHeight_own (hm : Listed n transactions) {pending : PendingDepositRow}
    (h : LinkSafe wallet transactions pending.transactionId) (env : Environment) :
    OwnText wallet pending.transactionId .height
      (pendingDisplayRole env wallet transactions pending .creatingHeight) := by
  simp only [pendingDisplayRole]
  split_ifs with hid
  · exact .inr (.inl ⟨hid, rfl⟩)
  · exact transactionCell_own hm h env .height

/-- A pending row without a readable transaction shows the start of the epoch as its time. -/
theorem pendingTime_own (hm : Listed n transactions) {pending : PendingDepositRow}
    (h : LinkSafe wallet transactions pending.transactionId) (env : Environment) :
    pendingDisplayRole env wallet transactions pending .creatingTime = .dateText 0 ∨
      OwnText wallet pending.transactionId .date
        (pendingDisplayRole env wallet transactions pending .creatingTime) := by
  have hcell := transactionCell_own hm h env .date
  simp only [pendingDisplayRole]
  split_ifs
  · change OwnText _ _ _ (transactionCell env wallet transactions pending.transactionId .date)
      at hcell
    cases hv : transactionCell env wallet transactions pending.transactionId .date with
    | null => exact .inl rfl
    | _ =>
      rw [hv] at hcell
      exact .inr hcell
  · exact .inl rfl

/-- Nothing is read through a missing link. -/
theorem creatingHeight_of_unread (hlink : LinkSafe wallet transactions id)
    (h : ¬LinkReadable wallet transactions id) (env : Environment) :
    creatingHeight env wallet transactions id = 0 := by
  have hread : transactions.read wallet (TransactionsModel.index (toInt id) 0) = none := by
    rcases hlink with rfl | ⟨hlt, hsafe⟩
    · have hrow : toInt WALLET_INVALID_TRANSACTION_ID = -1 := by decide
      simp [TransactionsModel.read, hrow, TransactionsModel.index, QModelIndex.isValid]
    · rw [toInt_of_lt hlt]
      exact Option.not_isSome_iff_eq_none.mp fun hsome => h ⟨⟨hlt, hsafe⟩, hsome⟩
  rw [creatingHeight, TransactionsModel.data, hread]
  rfl

/-- Without a readable creating transaction the unlock height is the bare term. -/
theorem unlockHeight_of_unread (hd : d < m.m_depositCount)
    (hdeposit : getDeposit wallet d = some deposit)
    (hlink : LinkSafe wallet transactions deposit.creatingTransactionId)
    (h : ¬LinkReadable wallet transactions deposit.creatingTransactionId) (env : Environment)
    (column : Column) :
    data env wallet transactions m (index d column.toInt) .unlockHeight =
      some (.int (deposit.term % 2 ^ 64 : ℕ)) := by
  have hheight : ¬0 = WALLET_UNCONFIRMED_TRANSACTION_HEIGHT := by decide
  simp only [data, isValid_index, Bool.true_eq_false, if_false, getUserRole, index_row,
    access_real hd, realUserRole, hdeposit, creatingHeight_of_unread hlink h, hheight, Nat.zero_add]

/-- What the row of a deposit shows about transactions is about its creating and its spending
transaction. -/
structure RowShowsOwn (env : Environment) (wallet : Option Wallet)
    (transactions : TransactionsModel) (m : DepositModel) (d : ℕ) (deposit : Deposit) : Prop where
  creating : ∀ column linked, creatingColumn column = some linked →
    ∃ v, data env wallet transactions m (index d column.toInt) .display = some v ∧
      OwnText wallet deposit.creatingTransactionId linked v
  spending : ∀ column linked, spendingColumn column = some linked →
    ∃ v, data env wallet transactions m (index d column.toInt) .display = some v ∧
      OwnText wallet deposit.spendingTransactionId linked v
  unlock : ∃ t ∈ getTransaction wallet deposit.creatingTransactionId,
    (∀ column : Column, data env wallet transactions m (index d column.toInt) .unlockHeight =
      some (.int (ownUnlockHeight t deposit))) ∧
    data env wallet transactions m (index d Column.unlockHeight.toInt) .display =
      some (unlockHeightText (ownUnlockHeight t deposit))

/-- The links of a deposit are safe. The unlock height needs a readable row of the creating
transaction, or one whose height adds nothing to the term. -/
structure LinksSafe (wallet : Option Wallet) (transactions : TransactionsModel)
    (deposit : Deposit) : Prop where
  creating : LinkSafe wallet transactions deposit.creatingTransactionId
  spending : LinkSafe wallet transactions deposit.spendingTransactionId
  unlock : LinkReadable wallet transactions deposit.creatingTransactionId ∨
    ∃ t ∈ getTransaction wallet deposit.creatingTransactionId,
      ownUnlockHeight t deposit = deposit.term % 2 ^ 64

/-- The links of a deposit are no transaction or numbers that a row can have. -/
def LinksFit (deposit : Deposit) : Prop :=
  (deposit.creatingTransactionId = WALLET_INVALID_TRANSACTION_ID ∨
    deposit.creatingTransactionId < 2 ^ 31) ∧
  (deposit.spendingTransactionId = WALLET_INVALID_TRANSACTION_ID ∨
    deposit.spendingTransactionId < 2 ^ 31)

/-- No two transactions of a wallet have the same hash. -/
def HashesDistinct (wallet : Option Wallet) : Prop :=
  ∀ (i j : ℕ) (t t' : WalletTransaction), getTransaction wallet i = some t →
    getTransaction wallet j = some t' → t.hash = t'.hash → i = j

theorem rowShowsOwn (hm : Listed n transactions) (hd : d < m.m_depositCount)
    (hdeposit : getDeposit wallet d = some deposit)
    (h : LinksSafe wallet transactions deposit) (env : Environment) :
    RowShowsOwn env wallet transactions m d deposit where
  creating column linked hcolumn := by
    refine ⟨_, data_display_real hd env column, ?_⟩
    rw [creating_cell hdeposit h.creating.lt env _ hcolumn]
    split_ifs
    · exact transactionCell_own hm h.creating env linked
    · exact linkedCell_own hm h.creating env linked
  spending column linked hcolumn := by
    refine ⟨_, data_display_real hd env column, ?_⟩
    rw [spending_cell hdeposit h.spending.lt env _ hcolumn]
    exact linkedCell_own hm h.spending env linked
  unlock := by
    obtain ⟨t, ht, hrole⟩ : ∃ t ∈ getTransaction wallet deposit.creatingTransactionId,
        ∀ column : Column, data env wallet transactions m (index d column.toInt) .unlockHeight =
          some (.int (ownUnlockHeight t deposit)) := by
      by_cases hreadable : LinkReadable wallet transactions deposit.creatingTransactionId
      · exact unlockHeight_own hm hd hdeposit hreadable env
      · obtain ⟨t, ht, hterm⟩ := h.unlock.resolve_left hreadable
        exact ⟨t, ht, hterm ▸ unlockHeight_of_unread hd hdeposit h.creating hreadable env⟩
    exact ⟨t, ht, hrole, unlockHeight_display hd (ownUnlockHeight_lt t deposit) (hrole _)⟩

/-- The hash tells the transactions apart, so a cell that shows the own hash has a safe link. -/
theorem linkSafe_of_hash (hdistinct : HashesDistinct wallet)
    (hfit : id = WALLET_INVALID_TRANSACTION_ID ∨ id < 2 ^ 31) (env : Environment)
    (h : OwnText wallet id .hash (transactionCell env wallet transactions id .hash)) :
    LinkSafe wallet transactions id := by
  rcases hfit with rfl | hlt
  · exact .inl rfl
  · right
    refine ⟨hlt, ?_⟩
    by_contra hunsafe
    obtain ⟨first, hfirst, hcell⟩ := transactionCell_else hlt hunsafe env .hash
    rw [show TransactionsModel.Column.hash = LinkedColumn.hash.toColumn from rfl, hcell] at h
    rcases h with h | ⟨-, h⟩ | ⟨t, ht, h⟩
    · cases h
    · cases h
    · have hhash : first.hash = t.hash := by
        have hread := congrArg QByteArray.fromHex (QVariant.bytes.inj h)
        rwa [QByteArray.fromHex_toUpper_toHex, QByteArray.fromHex_toUpper_toHex] at hread
      have hzero : 0 = id := hdistinct 0 id first t hfirst ht hhash
      exact hunsafe (.inr (.inl hzero.symm))

theorem linksSafe_of_own (hd : d < m.m_depositCount)
    (hdeposit : getDeposit wallet d = some deposit) (hdistinct : HashesDistinct wallet)
    (hfit : LinksFit deposit) {env : Environment}
    (h : RowShowsOwn env wallet transactions m d deposit) :
    LinksSafe wallet transactions deposit := by
  have hbound {id : ℕ} (hid : id = WALLET_INVALID_TRANSACTION_ID ∨ id < 2 ^ 31) : id < 2 ^ 64 := by
    rcases hid with rfl | hid
    · decide
    · omega
  have hcreating : LinkSafe wallet transactions deposit.creatingTransactionId := by
    apply linkSafe_of_hash hdistinct hfit.1 env
    obtain ⟨v, hv, hown⟩ := h.creating .creatingTransactionHash .hash rfl
    rw [data_display_real hd, creating_cell hdeposit (hbound hfit.1) env _ rfl, if_pos rfl,
      Option.some.injEq] at hv
    exact hv ▸ hown
  have hspending : LinkSafe wallet transactions deposit.spendingTransactionId := by
    rcases hfit.2 with hid | hlt
    · exact .inl hid
    · apply linkSafe_of_hash hdistinct hfit.2 env
      obtain ⟨v, hv, hown⟩ := h.spending .spendingTransactionHash .hash rfl
      rw [data_display_real hd, spending_cell hdeposit (hbound hfit.2) env _ rfl,
        linkedCell_of_lt hlt, Option.some.injEq] at hv
      exact hv ▸ hown
  refine ⟨hcreating, hspending, ?_⟩
  rw [or_iff_not_imp_left]
  intro hunread
  obtain ⟨t, ht, hrole, -⟩ := h.unlock
  have hunlock := hrole .unlockHeight
  rw [unlockHeight_of_unread hd hdeposit hcreating hunread] at hunlock
  refine ⟨t, ht, ?_⟩
  have hint := QVariant.int.inj (Option.some.inj hunlock)
  exact_mod_cast hint.symm

/-- A pending row shows its stored hash, and its own transaction beside it while the link is safe;
otherwise the height is that of transaction 0. -/
structure PendingRow (env : Environment) (wallet : Option Wallet)
    (transactions : TransactionsModel) (m : DepositModel) (i : ℕ) (pending : PendingDepositRow) :
    Prop where
  hash : data env wallet transactions m
    (index (m.m_depositCount + i : ℕ) Column.creatingTransactionHash.toInt) .display =
      some (.utf8 pending.transactionHash)
  height : LinkSafe wallet transactions pending.transactionId →
    ∃ v, data env wallet transactions m
      (index (m.m_depositCount + i : ℕ) Column.creatingHeight.toInt) .display = some v ∧
        OwnText wallet pending.transactionId .height v
  height_else : pending.transactionId < 2 ^ 31 →
    ¬RowSafe wallet transactions pending.transactionId → ∃ t ∈ getTransaction wallet 0,
      data env wallet transactions m
        (index (m.m_depositCount + i : ℕ) Column.creatingHeight.toInt) .display =
          some (heightText t)
  time : LinkSafe wallet transactions pending.transactionId →
    ∃ v, data env wallet transactions m
      (index (m.m_depositCount + i : ℕ) Column.creatingTime.toInt) .display = some v ∧
        (v = .dateText 0 ∨ OwnText wallet pending.transactionId .date v)

theorem pendingRow (hm : Listed n transactions) {i : ℕ} {pending : PendingDepositRow}
    (hi : m.m_pendingDeposits[i]? = some pending) (env : Environment) :
    PendingRow env wallet transactions m i pending where
  hash := data_display_pending hi env _
  height h := ⟨_, data_display_pending hi env _, pendingHeight_own hm h env⟩
  height_else hlt h := by
    obtain ⟨t, ht, hcell⟩ := transactionCell_else hlt h env .height
    refine ⟨t, ht, ?_⟩
    rw [data_display_pending hi]
    apply congrArg some
    have hid : pending.transactionId ≠ WALLET_INVALID_TRANSACTION_ID :=
      Nat.ne_of_lt (hlt.trans (by decide))
    rw [pendingDisplayRole, if_neg hid]
    exact hcell
  time h := ⟨_, data_display_pending hi env _, pendingTime_own hm h env⟩

end Cells

end ConcealDesktop.DepositModel

namespace ConcealDesktop.Models
open EventDriven TransactionsModel DepositModel WalletAdapter

/-- In every reachable state, a valid cell of TransactionsModel shows nothing but its own
transaction exactly when its row is in the table, is the first one, or transaction 0 cannot be
read; and the row of a deposit shows nothing but its own transactions exactly when its links are
such rows. -/
theorem cells_show_own_transactions (env : Environment) (h : List Event) :
    let s := (system env).after h
    (∀ (row : ℕ) (column : ℤ), OwnOrEmpty env s.wallet s.transactions row column ↔
      column < 0 ∨ RowSafe s.wallet s.transactions row) ∧
    (∀ (d : ℕ) (deposit : Deposit), d < s.deposits.m_depositCount →
      getDeposit s.wallet d = some deposit →
        (LinksSafe s.wallet s.transactions deposit →
          RowShowsOwn env s.wallet s.transactions s.deposits d deposit) ∧
        (HashesDistinct s.wallet → LinksFit deposit →
          RowShowsOwn env s.wallet s.transactions s.deposits d deposit →
            LinksSafe s.wallet s.transactions deposit)) ∧
    ∀ (i : ℕ) (pending : PendingDepositRow), s.deposits.m_pendingDeposits[i]? = some pending →
      PendingRow env s.wallet s.transactions s.deposits i pending := by
  intro s
  obtain ⟨n, hlisted⟩ := exists_listed env h
  exact ⟨fun row column => hlisted.ownOrEmpty_iff env s.wallet row column,
    fun d deposit hd hdeposit => ⟨fun hsafe => rowShowsOwn hlisted hd hdeposit hsafe env,
      fun hdistinct hfit hown => linksSafe_of_own hd hdeposit hdistinct hfit hown⟩,
    fun i pending hi => pendingRow hlisted hi env⟩

/-- The created signal of transaction 1 is delivered before the deposits are synchronised: the row
of the deposit that it creates shows its hash, height and time. -/
theorem cells_show_own_transactions_run :
    let env := Environment.offline
    let first : WalletTransaction := ⟨.succeeded, 0, 1, [0xaa], 0, 0, false, [], [],
      WALLET_INVALID_DEPOSIT_ID, 0, [⟨[]⟩]⟩
    let creating : WalletTransaction := ⟨.succeeded, 0, 2, [0xbb], 0, 0, false, [], [], 0, 1, []⟩
    let deposit : Deposit := ⟨1, 21900, true, 1, WALLET_INVALID_TRANSACTION_ID⟩
    let before : Wallet := ⟨[first], [], by decide, by decide⟩
    let wallet : Wallet := ⟨[first, creating], [deposit], by decide, by decide⟩
    let h : List Event := [.deposits (.depositsUpdated [0]), .transactions (.transactionCreated 1),
      .wallet (some wallet), .transactions .reloadWalletTransactions, .wallet (some before)]
    let s := (system env).after h
    s.deposits.m_depositCount = 1 ∧ RowShowsOwn env s.wallet s.transactions s.deposits 0 deposit := by
  intro env first creating deposit before wallet h s
  have hsafe : RowSafe s.wallet s.transactions 1 := .inl (by decide)
  have hreadable : LinkReadable s.wallet s.transactions 1 := ⟨⟨by decide, hsafe⟩, by decide⟩
  have hrow := (cells_show_own_transactions env h).2.1 0 deposit (by decide) rfl
  exact ⟨rfl, hrow.1 ⟨.inr ⟨by decide, hsafe⟩, .inl rfl, .inl hreadable⟩⟩

/-- The deposits are synchronised before the created signal of transaction 1 is delivered: the
row of the deposit shows the hash of transaction 0 as its creating transaction. -/
theorem deposit_before_transaction :
    let env := Environment.offline
    let first : WalletTransaction := ⟨.succeeded, 0, 1, [0xaa], 0, 0, false, [], [],
      WALLET_INVALID_DEPOSIT_ID, 0, [⟨[]⟩]⟩
    let creating : WalletTransaction := ⟨.succeeded, 0, 2, [0xbb], 0, 0, false, [], [], 0, 1, []⟩
    let deposit : Deposit := ⟨1, 21900, true, 1, WALLET_INVALID_TRANSACTION_ID⟩
    let before : Wallet := ⟨[first], [], by decide, by decide⟩
    let wallet : Wallet := ⟨[first, creating], [deposit], by decide, by decide⟩
    let h : List Event := [.deposits (.depositsUpdated [0]), .wallet (some wallet),
      .deposits .reloadWalletDeposits, .transactions .reloadWalletTransactions,
      .wallet (some before)]
    let s := (system env).after h
    (system env).Admissible h ∧ s.transactions.rowCount = 1 ∧ s.deposits.m_depositCount = 1 ∧
      DepositModel.data env s.wallet s.transactions s.deposits
        (DepositModel.index 0 DepositModel.Column.creatingTransactionHash.toInt) .display =
          some (.bytes (bytes "AA")) ∧
      ¬OwnOrEmpty env s.wallet s.transactions 1 0 := by
  intro env first creating deposit before wallet h s
  have hlisted := exists_listed env h
  refine ⟨by decide, rfl, rfl, by decide, fun hown => ?_⟩
  obtain ⟨n, hn⟩ := hlisted
  rcases (hn.ownOrEmpty_iff env s.wallet 1 0).mp hown with hcolumn | hsafe
  · exact absurd hcolumn (by decide)
  · exact absurd hsafe (by decide)

end ConcealDesktop.Models
