import Mathlib.Data.List.Sort
import ConcealDesktop.CellSources
import ConcealDesktop.RowNotifications
import ConcealDesktop.RowRanges
import ConcealDesktop.SortedModels

/-! The frames of the recent transactions. A frame is the editor of one row; its mapper writes five
cells of the row into labels when the frame is created and whenever the model of the view
announces a change of the row, from whatever wallet is open then. The model of the view is a proxy
of a proxy: the first 25 rows of the table sorted by date, which announces a change of some rows
for all the rows between them. -/
namespace ConcealDesktop.RecentTransactions
open EventDriven TransactionsModel

/-- What RecentTransactionDelegate::setEditorData does to the label. -/
inductive Rendering where
  /-- std::string::substr throws std::out_of_range. -/
  | outOfRange
  | unchanged
  | setText (text : QVariant)
  /-- The text is elided to the width of the label first. -/
  | setElidedText (text : QVariant)
deriving DecidableEq

/-- QVariant::toByteArray of the values that the hash role has. -/
def toByteArray : QVariant → StdString
  | .bytes b => b
  | _ => []

/-- QString::fromStdString of an ASCII text. -/
def fromStdString (s : StdString) : QString := s.map UInt8.toUInt16

/-- The label of a transaction type, which is read back from a number. -/
def typeText (txType : ℕ) : QString :=
  if txType = 0 then qstr "New Block"
  else if txType = 2 then qstr "Outgoing TX"
  else if txType = 3 then qstr "Optimization"
  else if txType = 4 then qstr "New Deposit"
  else if txType = 5 then qstr "Deposit Unlock"
  else qstr "Incoming TX"

/-- The text of the hash label: the first and the last eight of 64 characters. -/
def hashLabel (txhash : StdString) : Rendering :=
  match txhash.substr 0 8, txhash.substr 56 8 with
  | some start, some finish =>
    .setText (.text (qstr "Hash: " ++ fromStdString start ++ qstr "....." ++ fromStdString finish))
  | _, _ => .outOfRange

/-- RecentTransactionDelegate::setEditorData, with the cells of the row. -/
def setEditorData (data : Role → QVariant) : Option Column → Rendering
  | some .hash => hashLabel (QByteArray.toUpper (QByteArray.toHex (toByteArray (data .hash))))
  | some .message => .setElidedText (data .display)
  | some .type => .setText (.text (typeText ((data .type).toUnsigned 8)))
  | some .date | some .amount | some .confirmations => .setText (data .display)
  | some .state | some .address | some .paymentId | some .secretkey | some .fee | some .height
  | none => .unchanged

/-- The columns that TransactionFrame maps to its labels. -/
def mappings : List Column := [.type, .amount, .date, .confirmations, .hash]

/-- How QSortFilterProxyModel keeps an order of rows by a comparison: new rows are put in, and
changed rows put elsewhere where they are out of order. Each row has one place. -/
structure RowPlacement where
  insert (lessThan : ℕ → ℕ → Bool) (order rows : List ℕ) : List ℕ
  resort (lessThan : ℕ → ℕ → Bool) (order rows : List ℕ) : List ℕ
  insert_perm : ∀ lessThan order rows, (insert lessThan order rows).Perm (order ++ rows)
  resort_perm : ∀ lessThan order rows, (resort lessThan order rows).Perm order

structure State where
  models : Models.State
  /-- The rows of the table in the order of SortedTransactionsModel. -/
  sorted : List ℕ
  /-- The rows that have a frame. -/
  frames : List ℕ

/-- The rows of RecentTransactionsModel. -/
def recent (sorted : List ℕ) : List ℕ :=
  (sorted.zipIdx.filter fun p => RecentTransactionsModel.filterAcceptsRow p.2).map Prod.fst

inductive Event where
  /-- An event of the wallet or of one of the models. -/
  | models (e : Models.Event)
  | openPersistentEditor (row : ℕ)
  | closePersistentEditor (row : ℕ)

/-- A transaction hash has 32 bytes. -/
def HashesComplete (wallet : Option Wallet) : Prop :=
  ∀ w ∈ wallet, ∀ t ∈ w.transactions, t.hash.length = 32

instance : (wallet : Option Wallet) → Decidable (HashesComplete wallet)
  | none => .isTrue fun _ h => by cases h
  | some w => decidable_of_iff (∀ t ∈ w.transactions, t.hash.length = 32)
      ⟨fun h _ hw => by cases hw; exact h, fun h => h w rfl⟩

def modelsEnabled (s : Models.State) : Models.Event → Prop
  | .wallet wallet => Models.enabled s (.wallet wallet) ∧ HashesComplete wallet
  | e => Models.enabled s e

instance (s : Models.State) : (e : Models.Event) → Decidable (modelsEnabled s e)
  | .wallet wallet =>
    inferInstanceAs (Decidable (Models.enabled s (.wallet wallet) ∧ HashesComplete wallet))
  | .transactions e => inferInstanceAs (Decidable (Models.enabled s (.transactions e)))
  | .messages e => inferInstanceAs (Decidable (Models.enabled s (.messages e)))
  | .deposits e => inferInstanceAs (Decidable (Models.enabled s (.deposits e)))

/-- An editor is opened for a row of the view. -/
def enabled (s : State) : Event → Prop
  | .models e => modelsEnabled s.models e
  | .openPersistentEditor row => row ∈ recent s.sorted
  | .closePersistentEditor _ => True

instance decidableEnabled (s : State) : (e : Event) → Decidable (enabled s e)
  | .models e => inferInstanceAs (Decidable (modelsEnabled s.models e))
  | .openPersistentEditor row => inferInstanceAs (Decidable (row ∈ recent s.sorted))
  | .closePersistentEditor _ => inferInstanceAs (Decidable True)

/-- A reset of the model closes every editor of its view. -/
def framesAfter (frames : List ℕ) : Models.Event → List ℕ
  | .transactions .reloadWalletTransactions | .transactions .walletCloseCompleted => []
  | _ => frames

/-- The notifications of TransactionsModel during an event. -/
def signals (s : Models.State) : Models.Event → List ModelSignal
  | .transactions e => (s.transactions.handle s.wallet e).2
  | .wallet _ | .messages _ | .deposits _ => []

/-- The rows of the table that a dataChanged notification is about; one with an invalid index is
ignored by a proxy. -/
def changedRows (rowCount : ℕ) (topLeft bottomRight : QModelIndex) : List ℕ :=
  if topLeft.isValid ∧ bottomRight.isValid then
    (List.range rowCount).filter fun r => topLeft.row ≤ r ∧ (r : ℤ) ≤ bottomRight.row
  else []

section Proxies

variable (env : Environment) (placement : RowPlacement)

/-- The comparison in descending order. -/
def before (wallet : Option Wallet) (m : TransactionsModel) (a b : ℕ) : Bool :=
  SortedTransactionsModel.lessThan env wallet m (index b Column.date.toInt)
    (index a Column.date.toInt)

/-- SortedTransactionsModel follows its source. Rows are placed anew when the column that they are
sorted by changes. -/
def sortedAfter (wallet : Option Wallet) (m : TransactionsModel) (sorted : List ℕ) :
    ModelSignal → List ℕ
  | .beginResetModel => []
  | .beginInsertRows first last => placement.insert (before env wallet m) sorted
      (List.range' first.toNat (last + 1 - first).toNat)
  | .dataChanged topLeft bottomRight =>
    if topLeft.column ≤ Column.date.toInt ∧ Column.date.toInt ≤ bottomRight.column then
      placement.resort (before env wallet m) sorted (changedRows m.rowCount topLeft bottomRight)
    else sorted
  | .endResetModel | .endInsertRows | .beginRemoveRows _ _ | .endRemoveRows => sorted

/-- The order after an event of the models. -/
def orderAfter (s : State) (e : Models.Event) : List ℕ :=
  let after := Models.handle env s.models e
  (signals s.models e).foldl (sortedAfter env placement after.wallet after.transactions) s.sorted

/-- A row that leaves the view loses its frame. -/
def handle (s : State) : Event → State
  | .models e =>
    let order := orderAfter env placement s e
    { models := Models.handle env s.models e
      sorted := order
      frames := (framesAfter s.frames e).filter (· ∈ recent order) }
  | .openPersistentEditor row => { s with frames := row :: s.frames }
  | .closePersistentEditor row => { s with frames := s.frames.erase row }

def system : EventSystem State Event where
  init := ⟨(Models.system env).init, [], []⟩
  enabled := enabled
  handle := handle env placement

instance (s : State) (e : Event) : Decidable ((system env placement).enabled s e) :=
  decidableEnabled s e

end Proxies

/-- The row stands between the first and the last of the changed rows. -/
def Spanned (order changed : List ℕ) (row : ℕ) : Prop :=
  (∃ first ∈ changed, order.idxOf first ≤ order.idxOf row) ∧
    ∃ last ∈ changed, order.idxOf row ≤ order.idxOf last

instance (order changed : List ℕ) (row : ℕ) : Decidable (Spanned order changed row) :=
  inferInstanceAs (Decidable (_ ∧ _))

/-- The view hears of a change of the cell: a proxy announces one range of its own rows for the
changed ones. -/
def announcesCell (order : List ℕ) (rowCount row : ℕ) (column : Column) : ModelSignal → Prop
  | .dataChanged topLeft bottomRight =>
    Spanned order (changedRows rowCount topLeft bottomRight) row ∧
      topLeft.column ≤ column.toInt ∧ column.toInt ≤ bottomRight.column
  | _ => False

instance (order : List ℕ) (rowCount row : ℕ) (column : Column) :
    (signal : ModelSignal) → Decidable (announcesCell order rowCount row column signal)
  | .dataChanged topLeft bottomRight =>
    inferInstanceAs (Decidable (Spanned order (changedRows rowCount topLeft bottomRight) row ∧
      topLeft.column ≤ column.toInt ∧ column.toInt ≤ bottomRight.column))
  | .beginResetModel | .endResetModel | .beginInsertRows _ _ | .endInsertRows
  | .beginRemoveRows _ _ | .endRemoveRows => inferInstanceAs (Decidable False)

/-- The cells that are written into labels during an event that leaves the state `after`. -/
def rendered (s after : State) : Event → List (ℕ × Column)
  | .openPersistentEditor row => mappings.map fun column => (row, column)
  | .models e => (signals s.models e).flatMap fun signal =>
      after.frames.flatMap fun row =>
        (mappings.filter fun column => announcesCell after.sorted
          after.models.transactions.rowCount row column signal).map fun column => (row, column)
  | .closePersistentEditor _ => []

/-- The cell as setEditorData renders it from the model and the wallet. -/
def renderCell (env : Environment) (s : State) (cell : ℕ × Column) : Rendering :=
  setEditorData (data env s.models.wallet s.models.transactions
    (index cell.1 cell.2.toInt)) (Column.ofInt cell.2.toInt)

/-- Everything that is rendered during the event is rendered without an exception. -/
def RendersAll (env : Environment) (placement : RowPlacement) (s : State) (e : Event) : Prop :=
  ∀ cell ∈ rendered s (handle env placement s e) e,
    renderCell env (handle env placement s e) cell ≠ .outOfRange

instance (env : Environment) (placement : RowPlacement) (s : State) (e : Event) :
    Decidable (RendersAll env placement s e) :=
  inferInstanceAs (Decidable (∀ cell ∈ rendered s _ e, _ ≠ _))

/-- The open wallet has the transaction of the row, with its transfer and its deposit. -/
def RowReadable (s : State) (row : ℕ) : Prop :=
  (readPair s.models.wallet (s.models.transactions.valueAt row)).isSome = true

instance (s : State) (row : ℕ) : Decidable (RowReadable s row) :=
  inferInstanceAs (Decidable (_ = true))

/-- The rows of the table that an update of the transaction announces. -/
def updatedRows (m : TransactionsModel) (id : TransactionId) : List ℕ :=
  match m.updateWalletTransaction id with
  | .dataChanged topLeft bottomRight => changedRows m.rowCount topLeft bottomRight
  | _ => []

/-- A frame is opened only while the open wallet has the transaction of its row; and an update is
delivered only while it has those of all the framed rows of the view that stand between the
announced ones, themselves included. -/
def RenderedRowsReadable (env : Environment) (placement : RowPlacement) (s : State) :
    Event → Prop
  | .openPersistentEditor row => RowReadable s row
  | .models (.transactions (.transactionUpdated id)) =>
    let order := orderAfter env placement s (.transactions (.transactionUpdated id))
    ∀ row ∈ s.frames, row ∈ recent order →
      Spanned order (updatedRows s.models.transactions id) row → RowReadable s row
  | _ => True

instance (env : Environment) (placement : RowPlacement) (s : State) (e : Event) :
    Decidable (RenderedRowsReadable env placement s e) := by
  unfold RenderedRowsReadable
  split <;> infer_instance

/-- The label of a hash needs 28 bytes. -/
theorem hashLabel_ne_outOfRange_iff (txhash : StdString) :
    hashLabel txhash ≠ .outOfRange ↔ 56 ≤ txhash.length := by
  unfold hashLabel StdString.substr
  rw [if_pos (Nat.zero_le _)]
  split_ifs with hlength
  · exact iff_of_true (by simp) hlength
  · exact iff_of_false (by simp) hlength

section Cells

variable {env : Environment} {s : State} {row : ℕ}

/-- Only the hash label can fail. -/
theorem setEditorData_ne_outOfRange {cells : Role → QVariant} {column : Column}
    (hcolumn : column ≠ .hash) : setEditorData cells (some column) ≠ .outOfRange := by
  cases column with
  | hash => exact absurd rfl hcolumn
  | _ => exact fun h => by cases h

theorem HashesComplete.length_hash {wallet : Option Wallet} (hcomplete : HashesComplete wallet)
    {id : TransactionId} {t : WalletTransaction}
    (ht : WalletAdapter.getTransaction wallet id = some t) : t.hash.length = 32 := by
  obtain ⟨w, hw, hid⟩ := Option.bind_eq_some_iff.mp ht
  exact hcomplete w hw t (List.mem_of_getElem? hid)

/-- The hash label of a row is written if its transaction can be read, and fails otherwise. -/
theorem renderCell_hash_iff (hcomplete : HashesComplete s.models.wallet) :
    renderCell env s (row, .hash) ≠ .outOfRange ↔ RowReadable s row := by
  have hread : s.models.transactions.read s.models.wallet (index row Column.hash.toInt) =
      readPair s.models.wallet (s.models.transactions.valueAt row) := by
    rw [TransactionsModel.read, if_pos (by simp [index, QModelIndex.isValid]; decide)]
    rfl
  unfold renderCell RowReadable
  rw [Column.ofInt_toInt]
  simp only [setEditorData, hashLabel_ne_outOfRange_iff, QByteArray.length_toUpper_toHex, data,
    hread]
  cases hpair : readPair s.models.wallet (s.models.transactions.valueAt row) with
  | none => exact iff_of_false (by simp [toByteArray]) (by simp)
  | some reading =>
    have hlength := hcomplete.length_hash (readPair_eq_some hpair).2.2
    have hbytes : toByteArray (render env (index row Column.hash.toInt) reading .hash) =
        reading.transaction.hash := rfl
    exact iff_of_true (by rw [hbytes, hlength]; decide) rfl

theorem renderCell_ne_outOfRange (hcomplete : HashesComplete s.models.wallet)
    (hreadable : RowReadable s row) (column : Column) :
    renderCell env s (row, column) ≠ .outOfRange := by
  by_cases hcolumn : column = .hash
  · rw [hcolumn]
    exact (renderCell_hash_iff hcomplete).mpr hreadable
  · unfold renderCell
    rw [Column.ofInt_toInt]
    exact setEditorData_ne_outOfRange hcolumn

/-- All the labels of a row are written exactly when its transaction can be read. -/
theorem renderRow_iff (hcomplete : HashesComplete s.models.wallet) :
    (∀ column ∈ mappings, renderCell env s (row, column) ≠ .outOfRange) ↔ RowReadable s row :=
  ⟨fun h => (renderCell_hash_iff hcomplete).mp (h .hash (by decide)),
    fun h column _ => renderCell_ne_outOfRange hcomplete h column⟩

theorem mem_rendered_models {after : State} {e : Models.Event} {cell : ℕ × Column} :
    cell ∈ rendered s after (.models e) ↔ ∃ signal ∈ signals s.models e,
      cell.1 ∈ after.frames ∧ cell.2 ∈ mappings ∧ announcesCell after.sorted
        after.models.transactions.rowCount cell.1 cell.2 signal := by
  obtain ⟨row, column⟩ := cell
  simp only [rendered, List.mem_flatMap, List.mem_map, List.mem_filter, decide_eq_true_eq,
    Prod.mk.injEq]
  constructor
  · rintro ⟨signal, hsignal, row', hrow, column', ⟨hcolumn, hcell⟩, rfl, rfl⟩
    exact ⟨signal, hsignal, hrow, hcolumn, hcell⟩
  · rintro ⟨signal, hsignal, hrow, hcolumn, hcell⟩
    exact ⟨signal, hsignal, row, hrow, column, ⟨hcolumn, hcell⟩, rfl, rfl⟩

/-- The update of a transaction announces all the cells of its rows that have labels. -/
theorem announcesCell_update_iff {order : List ℕ} {m : TransactionsModel} {id : TransactionId}
    {column : Column} (hcolumn : column ∈ mappings) :
    announcesCell order m.rowCount row column (m.updateWalletTransaction id) ↔
      Spanned order (updatedRows m id) row := by
  have hmapped : ∀ c ∈ mappings, Column.date.toInt ≤ c.toInt ∧ c.toInt ≤ Column.type.toInt := by
    decide
  exact and_iff_left (hmapped column hcolumn)

section Unannounced

variable {order : List ℕ} {rowCount : ℕ} {column : Column} {signal : ModelSignal}

theorem not_announcesCell_reset (h : signal ∈ [ModelSignal.beginResetModel, .endResetModel]) :
    ¬ announcesCell order rowCount row column signal := by
  rcases List.mem_pair.mp h with rfl | rfl
  · exact id
  · exact id

theorem not_announcesCell_insertRows {first inserted : ℕ}
    (h : signal ∈ insertRows first inserted) :
    ¬ announcesCell order rowCount row column signal := by
  unfold insertRows at h
  split_ifs at h
  · rcases List.mem_pair.mp h with rfl | rfl
    · exact id
    · exact id
  · cases h

/-- A new height announces the state column, which has no label. -/
theorem not_announcesCell_lastKnownHeightUpdated {m : TransactionsModel}
    (hcolumn : column ∈ mappings) (h : signal ∈ m.lastKnownHeightUpdated) :
    ¬ announcesCell order rowCount row column signal := by
  have hmapped : ∀ c ∈ mappings, ¬ c.toInt ≤ Column.state.toInt := by decide
  unfold TransactionsModel.lastKnownHeightUpdated at h
  split_ifs at h
  · rw [List.mem_singleton.mp h]
    exact fun hcell => hmapped column hcolumn hcell.2.2
  · cases h

/-- No mapped cell is announced by the handlers other than the update of a transaction. -/
theorem not_announcesCell_of_ne_update {m : TransactionsModel} {wallet : Option Wallet}
    {e : TransactionsModel.Event} (he : ∀ id, e ≠ .transactionUpdated id)
    (hcolumn : column ∈ mappings) (hsignal : signal ∈ (m.handle wallet e).2) :
    ¬ announcesCell order rowCount row column signal := by
  cases e with
  | reloadWalletTransactions =>
    rcases List.mem_append.mp hsignal with hreset | hrows
    · exact not_announcesCell_reset hreset
    · exact not_announcesCell_insertRows hrows
  | transactionCreated id =>
    change signal ∈ (m.transactionCreated wallet id).2 at hsignal
    unfold TransactionsModel.transactionCreated at hsignal
    split_ifs at hsignal
    · cases hsignal
    · exact not_announcesCell_insertRows hsignal
  | transactionUpdated id => exact absurd rfl (he id)
  | lastKnownHeightUpdated => exact not_announcesCell_lastKnownHeightUpdated hcolumn hsignal
  | walletCloseCompleted => exact not_announcesCell_reset hsignal

end Unannounced

end Cells

section Runs

variable {env : Environment} {placement : RowPlacement} {s : State}

theorem HashesComplete.handle (hcomplete : HashesComplete s.models.wallet) {e : Event}
    (he : enabled s e) : HashesComplete (handle env placement s e).models.wallet := by
  cases e with
  | models e =>
    cases e with
    | wallet wallet => exact he.2
    | transactions e | messages e | deposits e => exact hcomplete
  | openPersistentEditor row | closePersistentEditor row => exact hcomplete

/-- The handlers but one announce no cell that has a label. -/
theorem rendersAll_of_ne_update {e : TransactionsModel.Event}
    (he : ∀ id, e ≠ .transactionUpdated id) :
    RendersAll env placement s (.models (.transactions e)) := by
  intro cell hcell
  obtain ⟨signal, hsignal, -, hcolumn, hannounced⟩ := mem_rendered_models.mp hcell
  exact absurd hannounced (not_announcesCell_of_ne_update he hcolumn hsignal)

theorem rendersAll_update_iff (hcomplete : HashesComplete s.models.wallet) (id : TransactionId) :
    RendersAll env placement s (.models (.transactions (.transactionUpdated id))) ↔
      RenderedRowsReadable env placement s (.models (.transactions (.transactionUpdated id))) := by
  constructor
  · intro hrenders row hrow hrecent hspanned
    have hhash : Column.hash ∈ mappings := by decide
    have hcell : (row, Column.hash) ∈ rendered s
        (handle env placement s (.models (.transactions (.transactionUpdated id))))
        (.models (.transactions (.transactionUpdated id))) :=
      mem_rendered_models.mpr ⟨_, List.mem_singleton_self _,
        List.mem_filter.mpr ⟨hrow, decide_eq_true hrecent⟩, hhash,
        (announcesCell_update_iff hhash).mpr hspanned⟩
    exact (renderCell_hash_iff hcomplete).mp (hrenders _ hcell)
  · intro hreadable cell hcell
    obtain ⟨signal, hsignal, hframe, hcolumn, hannounced⟩ := mem_rendered_models.mp hcell
    obtain ⟨hrow, hrecent⟩ := List.mem_filter.mp hframe
    rw [List.mem_singleton.mp hsignal] at hannounced
    have hspanned := (announcesCell_update_iff hcolumn).mp hannounced
    exact renderCell_ne_outOfRange hcomplete
      (hreadable cell.1 hrow (of_decide_eq_true hrecent) hspanned) cell.2

/-- One event, while the wallet's hashes are complete. -/
theorem rendersAll_iff (hcomplete : HashesComplete s.models.wallet) (e : Event) :
    RendersAll env placement s e ↔ RenderedRowsReadable env placement s e := by
  cases e with
  | openPersistentEditor row =>
    apply List.forall_mem_map.trans
    exact renderRow_iff (s := handle env placement s (.openPersistentEditor row)) hcomplete
  | closePersistentEditor row => exact iff_of_true (fun cell h => by cases h) trivial
  | models e =>
    cases e with
    | wallet wallet | messages e | deposits e =>
      exact iff_of_true (fun cell h => by cases h) trivial
    | transactions e =>
      cases e with
      | transactionUpdated id => exact rendersAll_update_iff hcomplete id
      | reloadWalletTransactions | transactionCreated id | lastKnownHeightUpdated
      | walletCloseCompleted => exact iff_of_true (rendersAll_of_ne_update (by simp)) trivial

/-! ### The rows of the proxies -/

theorem recent_subset (sorted : List ℕ) : recent sorted ⊆ sorted := by
  rw [recent, RecentTransactionsModel.filter_zipIdx sorted 0]
  exact List.take_subset _ _

/-- The sorted table has the rows of its source, and the frames are among them. -/
structure RowsFollowed (s : State) : Prop where
  sorted : s.sorted.Perm (List.range s.models.transactions.rowCount)
  frames : ∀ row ∈ s.frames, row < s.models.transactions.rowCount

theorem perm_insertRows {wallet : Option Wallet} {m : TransactionsModel} {sorted : List ℕ}
    {first inserted : ℕ} (hsorted : sorted.Perm (List.range first)) :
    ((insertRows first inserted).foldl (sortedAfter env placement wallet m) sorted).Perm
      (List.range (first + inserted)) := by
  unfold insertRows
  split_ifs with hsome
  · have hfirst : (first : ℤ).toNat = first := Int.toNat_natCast first
    have hcount : ((first : ℤ) + inserted - 1 + 1 - first).toNat = inserted := by omega
    have hrows : List.range (first + inserted) =
        List.range first ++ List.range' first inserted := by
      rw [List.range_add, List.range'_eq_map_range]
    show (placement.insert _ sorted (List.range' _ _)).Perm _
    rw [hfirst, hcount, hrows]
    exact (placement.insert_perm _ _ _).trans (hsorted.append_right _)
  · rw [Nat.eq_zero_of_not_pos hsome]
    exact hsorted

theorem rowCount_foldl (wallet : Option Wallet) (m : TransactionsModel) (ids : List ℕ) :
    (ids.foldl (appendTransaction wallet) (m, 0)).1.rowCount =
      m.rowCount + (ids.foldl (appendTransaction wallet) (m, 0)).2 := by
  obtain ⟨new, hrows, hcount⟩ := RowChanges.foldl_appends
    (fun m : TransactionsModel => m.m_transfers) (appendTransaction wallet)
    (appendTransaction_appends wallet) ids (m, 0)
  rw [hcount, Nat.zero_add]
  exact (congrArg List.length hrows).trans List.length_append

/-- SortedTransactionsModel follows its source through every handler. -/
theorem perm_handle {wallet : Option Wallet} {m : TransactionsModel} {sorted : List ℕ}
    (hsorted : sorted.Perm (List.range m.rowCount)) (e : TransactionsModel.Event)
    (m' : TransactionsModel) :
    ((m.handle wallet e).2.foldl (sortedAfter env placement wallet m') sorted).Perm
      (List.range (m.handle wallet e).1.rowCount) := by
  have hchanged (topLeft bottomRight : QModelIndex) :
      (sortedAfter env placement wallet m' sorted (.dataChanged topLeft bottomRight)).Perm
        (List.range m.rowCount) := by
    simp only [sortedAfter]
    split_ifs
    · exact (placement.resort_perm _ _ _).trans hsorted
    · exact hsorted
  cases e with
  | reloadWalletTransactions =>
    have hcount : (m.handle wallet .reloadWalletTransactions).1.rowCount = _ :=
      rowCount_foldl wallet empty (List.range' 0 (WalletAdapter.getTransactionCount wallet))
    rw [hcount]
    exact perm_insertRows (List.Perm.refl _)
  | transactionCreated id =>
    show List.Perm (List.foldl _ _ (m.transactionCreated wallet id).2)
      (List.range (m.transactionCreated wallet id).1.rowCount)
    unfold transactionCreated
    split_ifs
    · exact hsorted
    · rw [rowCount_foldl]
      exact perm_insertRows hsorted
  | transactionUpdated id =>
    show List.Perm (List.foldl _ _ [m.updateWalletTransaction id]) (List.range m.rowCount)
    rw [List.foldl_cons]
    exact hchanged _ _
  | lastKnownHeightUpdated =>
    show List.Perm (List.foldl _ _ m.lastKnownHeightUpdated) (List.range m.rowCount)
    unfold lastKnownHeightUpdated
    split_ifs
    · rw [List.foldl_cons]
      exact hchanged _ _
    · exact hsorted
  | walletCloseCompleted => exact List.Perm.refl _

theorem RowsFollowed.step (hs : RowsFollowed s) {e : Event} (he : enabled s e) :
    RowsFollowed (handle env placement s e) := by
  cases e with
  | openPersistentEditor row =>
    refine ⟨hs.sorted, fun r hr => ?_⟩
    rcases List.mem_cons.mp hr with rfl | hr
    · exact List.mem_range.mp (hs.sorted.subset (recent_subset _ he))
    · exact hs.frames r hr
  | closePersistentEditor row =>
    exact ⟨hs.sorted, fun r hr => hs.frames r (List.mem_of_mem_erase hr)⟩
  | models e =>
    have hsorted : (orderAfter env placement s e).Perm
        (List.range (Models.handle env s.models e).transactions.rowCount) := by
      cases e with
      | wallet wallet | messages e | deposits e => exact hs.sorted
      | transactions e => exact perm_handle hs.sorted e _
    refine ⟨hsorted, fun r hr => ?_⟩
    have hrecent := of_decide_eq_true (List.mem_filter.mp hr).2
    exact List.mem_range.mp (hsorted.subset (recent_subset _ hrecent))

/-- In every run nothing that is rendered throws exactly when the rows are readable whenever
their frames are opened or lie between updated rows of the view; and the frames are of rows of
the table. -/
theorem rendersAll_iff_rowsReadable (env : Environment) (placement : RowPlacement)
    (h : List Event) (hadm : (system env placement).Admissible h) :
    ((system env placement).Always (RendersAll env placement) h ↔
      (system env placement).Always (RenderedRowsReadable env placement) h) ∧
      ∀ row ∈ ((system env placement).after h).frames,
        row < ((system env placement).after h).models.transactions.rowCount := by
  constructor
  · have hinit : HashesComplete (system env placement).init.models.wallet :=
      fun w hw => by cases hw
    exact EventSystem.always_iff_of_invariant (I := fun s => HashesComplete s.models.wallet) hinit
      (fun s e hcomplete he _ => hcomplete.handle he)
      (fun s e hcomplete _ => rendersAll_iff hcomplete e) hadm
  · have hinit : RowsFollowed (system env placement).init :=
      ⟨List.Perm.refl _, fun row hrow => absurd hrow List.not_mem_nil⟩
    have hfollowed : RowsFollowed ((system env placement).after h) :=
      EventSystem.Always.invariant hinit (fun s e hs he => hs.step he) hadm
    exact hfollowed.frames

/-- The rows one after the other, each behind the ones that are equal to it. -/
def insertRowsInOrder (lessThan : ℕ → ℕ → Bool) (order rows : List ℕ) : List ℕ :=
  rows.foldl (fun order row => order.orderedInsert (fun a b => lessThan a b = true) row) order

theorem insertRowsInOrder_perm (lessThan : ℕ → ℕ → Bool) (order rows : List ℕ) :
    (insertRowsInOrder lessThan order rows).Perm (order ++ rows) := by
  induction rows generalizing order with
  | nil => exact List.Perm.of_eq (List.append_nil order).symm
  | cons row rows ih =>
    have hinserted := List.perm_orderedInsert (fun a b => lessThan a b = true) row order
    exact (ih _).trans ((hinserted.append_right rows).trans List.perm_middle.symm)

def insertInOrder : RowPlacement where
  insert := insertRowsInOrder
  resort lessThan order rows :=
    insertRowsInOrder lessThan (order.filter fun r => !decide (r ∈ rows))
      (order.filter fun r => decide (r ∈ rows))
  insert_perm := insertRowsInOrder_perm
  resort_perm lessThan order rows := by
    have hperm := insertRowsInOrder_perm lessThan (order.filter fun r => !decide (r ∈ rows))
      (order.filter fun r => decide (r ∈ rows))
    exact hperm.trans (List.perm_append_comm.trans (List.filter_append_perm _ order))

def transaction (timestamp transfers : ℕ) : WalletTransaction :=
  { Models.plainTransaction transfers with
    timestamp := timestamp
    hash := List.replicate 32 0xab }

/-- The view shows the three transactions in the order 1, 2, 0. -/
def threeTransactions : Wallet :=
  ⟨[transaction 100 2, transaction 300 1, transaction 200 1], [], by decide, by decide⟩

/-- The rows 0 and 2 have a frame. -/
def shown : List Event :=
  [.openPersistentEditor 2, .openPersistentEditor 0,
    .models (.transactions .reloadWalletTransactions), .models (.wallet (some threeTransactions))]

/-- An update of transaction 0 announces the rows 0 and 1, as it has two transfers, and the view
renders row 2 between them. -/
def shownAndUpdated : List Event := .models (.transactions (.transactionUpdated 0)) :: shown

theorem update_renders :
    (system Environment.offline insertInOrder).Always
      (RendersAll Environment.offline insertInOrder) shownAndUpdated :=
  (rendersAll_iff_rowsReadable Environment.offline insertInOrder shownAndUpdated
    (by decide +kernel)).1.mpr (by decide +kernel)

example : (2, Column.hash) ∈ rendered ((system Environment.offline insertInOrder).after shown)
    ((system Environment.offline insertInOrder).after shownAndUpdated)
    (.models (.transactions (.transactionUpdated 0))) := by
  decide +kernel

/-- An update is posted, close() takes the wallet away, and the update is delivered before the
reset: the hash label is cut out of an empty text. -/
theorem update_after_close :
    let h : List Event := .models (.transactions (.transactionUpdated 0)) ::
      .models (.wallet none) :: shown
    (system Environment.offline insertInOrder).Admissible h ∧
      renderCell Environment.offline ((system Environment.offline insertInOrder).after h)
        (0, .hash) = .outOfRange ∧
      ¬ (system Environment.offline insertInOrder).Always
        (RendersAll Environment.offline insertInOrder) h := by
  decide +kernel

end Runs
end ConcealDesktop.RecentTransactions
