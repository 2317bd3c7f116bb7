import Mathlib.Tactic.IntervalCases
import ConcealDesktop.TransactionsModel

/-! How many confirmations the table of transactions reports: in its role, its column, its state
icon and its export. All four count with the unsigned difference of the node's last known height
and the height of the transaction, which wraps around while the node lags behind. -/
namespace ConcealDesktop

namespace QString

def utf8Bytes (u : ℕ) : StdString :=
  if u < 0x80 then [UInt8.ofNat u]
  else if u < 0x800 then [UInt8.ofNat (0xc0 + u / 0x40), UInt8.ofNat (0x80 + u % 0x40)]
  else if u < 0x10000 then [UInt8.ofNat (0xe0 + u / 0x1000), UInt8.ofNat (0x80 + u / 0x40 % 0x40),
    UInt8.ofNat (0x80 + u % 0x40)]
  else [UInt8.ofNat (0xf0 + u / 0x40000), UInt8.ofNat (0x80 + u / 0x1000 % 0x40),
    UInt8.ofNat (0x80 + u / 0x40 % 0x40), UInt8.ofNat (0x80 + u % 0x40)]

def isHighSurrogate (c : QChar) : Bool := 0xd800 ≤ c && c ≤ 0xdbff

def isLowSurrogate (c : QChar) : Bool := 0xdc00 ≤ c && c ≤ 0xdfff

/-- A unit outside a pair; a surrogate without its partner becomes a question mark. -/
def utf8Unit (c : QChar) : StdString :=
  if isHighSurrogate c || isLowSurrogate c then [0x3f] else utf8Bytes c.toNat

/-- QString::toUtf8. -/
def toUtf8 : QString → StdString
  | [] => []
  | [c] => utf8Unit c
  | c :: d :: s =>
    if isHighSurrogate c && isLowSurrogate d then
      utf8Bytes (0x10000 + (c.toNat - 0xd800) * 0x400 + (d.toNat - 0xdc00)) ++ toUtf8 s
    else utf8Unit c ++ toUtf8 (d :: s)

end QString

/-- QVariant::toString().toUtf8() of the values that the exported columns have. The text of a time
depends on the local time zone. -/
def QVariant.toUtf8 (localTime : ℕ → QString) : QVariant → StdString
  | .text s => s.toUtf8
  | .utf8 s => s
  | .bytes b => b
  | .dateText seconds => (localTime seconds).toUtf8
  | _ => []

namespace TransactionsModel
open WalletAdapter

/-! ### The export -/

def csvField (s : StdString) : StdString := bytes "\"" ++ s ++ bytes "\""

/-- The first field of a line of the export. -/
def confirmationsField (numberOfConfirmations : ℕ) : StdString :=
  let text := if numberOfConfirmations = 0 then qstr "unconfirmed" else qstr "confirmations"
  csvField (QString.number numberOfConfirmations ++ qstr " / " ++ text).toUtf8

section Export

variable (localTime : ℕ → QString) (env : Environment) (wallet : Option Wallet)
  (m : TransactionsModel)

def csvCell (row : ℕ) (column : Column) : StdString :=
  csvField ((data env wallet m (index row column.toInt) .display).toUtf8 localTime)

def csvLine (row : ℕ) : StdString :=
  let numberOfConfirmations :=
    (data env wallet m (index row Column.state.toInt) .numberOfConfirmations).toUnsigned 64
  confirmationsField numberOfConfirmations ++
    ([Column.date, .amount, .fee, .hash, .height, .address, .paymentId].map fun column =>
      bytes "," ++ csvCell localTime env wallet m row column).flatten ++ bytes "\n"

def csvHeader : StdString :=
  bytes "\"State\",\"Date\",\"Amount\",\"Fee\",\"Hash\",\"Height\",\"Address\",\"Payment ID\"\n"

def toCsv : StdString :=
  csvHeader ++ ((List.range m.rowCount).map (csvLine localTime env wallet m)).flatten

end Export

/-! ### The four reports -/

/-- The icon of the state column; from ten confirmations on it is that of the type. -/
def stateIcon (confirmations : ℕ) (typeIcon : QVariant) : QVariant :=
  if confirmations ≤ 2 then .icon (qstr ":icons/clock1")
  else if confirmations ≤ 4 then .icon (qstr ":icons/clock2")
  else if confirmations ≤ 6 then .icon (qstr ":icons/clock3")
  else if confirmations ≤ 8 then .icon (qstr ":icons/clock4")
  else if confirmations = 9 then .icon (qstr ":icons/clock5")
  else typeIcon

/-- The blocks from the transaction's own one up to the last known one, none for a transaction
that is in no block or above the last known one. -/
def expectedConfirmations (env : Environment) (t : WalletTransaction) : ℤ :=
  if t.blockHeight = WALLET_UNCONFIRMED_TRANSACTION_HEIGHT then 0
  else max 0 ((env.getLastKnownBlockHeight : ℤ) - t.blockHeight + 1)

/-- The role, the column, the state icon and the line of the export all report this number of
confirmations of the row's transaction. The column has texts of its own for a transaction that is
in no block and from ten confirmations on; in between it reports the number itself. -/
structure Reports (localTime : ℕ → QString) (env : Environment) (wallet : Option Wallet)
    (m : TransactionsModel) (row : ℕ) (t : WalletTransaction) (expected : ℤ) : Prop where
  role (column : Column) :
    data env wallet m (index row column.toInt) .numberOfConfirmations = .int expected
  confirmed : data env wallet m (index row Column.confirmations.toInt) .display =
    .text (qstr "Confirmed") ↔ 10 ≤ expected
  unconfirmed : data env wallet m (index row Column.confirmations.toInt) .display =
    .text (qstr "Unconfirmed") ↔ t.blockHeight = WALLET_UNCONFIRMED_TRANSACTION_HEIGHT
  number : t.blockHeight ≠ WALLET_UNCONFIRMED_TRANSACTION_HEIGHT → expected < 10 →
    (data env wallet m (index row Column.confirmations.toInt) .display).toUtf8 localTime =
      (QString.number expected.toNat).toUtf8
  icon : data env wallet m (index row Column.state.toInt) .decoration =
    stateIcon expected.toNat (data env wallet m (index row Column.state.toInt) .icon)
  csv : confirmationsField expected.toNat <+: csvLine localTime env wallet m row

section Row

variable {localTime : ℕ → QString} {env : Environment} {wallet : Option Wallet}
  {m : TransactionsModel} {row : ℕ} {r : Reading}

/-- A row is read alike in every column. -/
theorem read_column (hr : m.read wallet (index row 0) = some r) (column : Column) :
    m.read wallet (index row column.toInt) = some r := by
  have hvalid (c : Column) : (index row c.toInt).isValid = true := by
    simp [QModelIndex.isValid, index, Column.toInt]
  have hzero : (index row 0).isValid = true := hvalid .state
  unfold read at hr ⊢
  rw [hzero] at hr
  rw [hvalid column]
  exact hr

theorem data_of_read (hr : m.read wallet (index row 0) = some r) (column : Column) (role : Role) :
    data env wallet m (index row column.toInt) role =
      render env (index row column.toInt) r role := by
  unfold data
  rw [read_column hr]

/-- What the role, the icon and the export count with. -/
def numberOfConfirmations (env : Environment) (t : WalletTransaction) : ℕ :=
  if t.blockHeight = WALLET_UNCONFIRMED_TRANSACTION_HEIGHT then 0
  else confirmations env t.blockHeight

theorem numberOfConfirmations_lt (env : Environment) (t : WalletTransaction) :
    numberOfConfirmations env t < 2 ^ 64 := by
  unfold numberOfConfirmations
  split_ifs
  · decide
  · exact Nat.mod_lt _ (by decide)

theorem data_numberOfConfirmations (hr : m.read wallet (index row 0) = some r)
    (column : Column) : data env wallet m (index row column.toInt) .numberOfConfirmations =
      .int (numberOfConfirmations env r.transaction) := by
  rw [data_of_read hr]
  show (if _ then QVariant.int 0 else _) = _
  unfold numberOfConfirmations
  split_ifs <;> rfl

theorem getDecorationRole_state (index : QModelIndex) (r : Reading)
    (hcolumn : Column.ofInt index.column = some .state) {n : ℕ}
    (hn : (getUserRole env index r .numberOfConfirmations).toUnsigned 64 = n) :
    getDecorationRole env index r = stateIcon n (getUserRole env index r .icon) := by
  unfold getDecorationRole
  rw [hcolumn]
  simp only [hn]
  by_cases hsmall : n < 10
  · interval_cases n <;> rfl
  · obtain ⟨k, rfl⟩ : ∃ k, n = k + 10 := ⟨n - 10, by omega⟩
    have hlarge : stateIcon (k + 10) (getUserRole env index r .icon) =
        getUserRole env index r .icon := by
      unfold stateIcon
      simp
    rw [hlarge]
    rfl

theorem data_stateIcon (hr : m.read wallet (index row 0) = some r) :
    data env wallet m (index row Column.state.toInt) .decoration =
      stateIcon (numberOfConfirmations env r.transaction)
        (data env wallet m (index row Column.state.toInt) .icon) := by
  have hcount : data env wallet m (index row Column.state.toInt) .numberOfConfirmations = _ :=
    data_numberOfConfirmations hr .state
  rw [data_of_read hr] at hcount ⊢
  rw [data_of_read hr]
  have hicon (i : QModelIndex) : render env i r .icon = getUserRole env i r .icon := rfl
  have hdecoration (i : QModelIndex) : render env i r .decoration = getDecorationRole env i r := rfl
  rw [hicon, hdecoration]
  apply getDecorationRole_state _ _ (Column.ofInt_toInt .state)
  have hrole : getUserRole env (index row Column.state.toInt) r .numberOfConfirmations =
      .int (numberOfConfirmations env r.transaction) := hcount
  rw [hrole, QVariant.toUnsigned_int (numberOfConfirmations_lt env r.transaction)]

/-- A confirmed transaction that is not yet ten blocks deep shows its payment id. -/
theorem data_confirmations (hr : m.read wallet (index row 0) = some r) :
    data env wallet m (index row Column.confirmations.toInt) .display =
      if r.transaction.blockHeight = WALLET_UNCONFIRMED_TRANSACTION_HEIGHT then
        .text (qstr "Unconfirmed")
      else if 10 ≤ confirmations env r.transaction.blockHeight then .text (qstr "Confirmed")
      else .utf8 (env.extractPaymentId r.transaction.extra) := by
  rw [data_of_read hr]
  rfl

/-- Below ten confirmations the column shows no number: a payment id has sixty-four digits, or
none. -/
theorem number_not_shown (hr : m.read wallet (index row 0) = some r)
    (hun : r.transaction.blockHeight ≠ WALLET_UNCONFIRMED_TRANSACTION_HEIGHT)
    (hshallow : confirmations env r.transaction.blockHeight < 10) {n : ℕ} (hn : n < 10) :
    (data env wallet m (index row Column.confirmations.toInt) .display).toUtf8 localTime ≠
      (QString.number n).toUtf8 := by
  rw [data_confirmations hr, if_neg hun, if_neg (by omega)]
  intro h
  have hdigit : (QString.number n).toUtf8.length = 1 := by
    interval_cases n <;> decide
  have hlength : (env.extractPaymentId r.transaction.extra).length = 1 :=
    (congrArg List.length h).trans hdigit
  have hid := env.length_extractPaymentId r.transaction.extra
  omega

/-- All four places report the number that the code counts, if the transaction is in no block or
the number is at least ten. -/
theorem reports_numberOfConfirmations (hr : m.read wallet (index row 0) = some r)
    (hsettled : r.transaction.blockHeight = WALLET_UNCONFIRMED_TRANSACTION_HEIGHT ∨
      10 ≤ confirmations env r.transaction.blockHeight) :
    Reports localTime env wallet m row r.transaction (numberOfConfirmations env r.transaction) := by
  have hne : QVariant.text (qstr "Unconfirmed") ≠ .text (qstr "Confirmed") := by decide
  constructor
  · exact data_numberOfConfirmations hr
  · rw [data_confirmations hr, numberOfConfirmations]
    split_ifs with hun hdeep
    · exact iff_of_false hne (by decide)
    · exact iff_of_true rfl (by exact_mod_cast hdeep)
    · exact absurd hsettled (not_or.mpr ⟨hun, hdeep⟩)
  · rw [data_confirmations hr]
    split_ifs with hun hdeep
    · exact iff_of_true rfl hun
    · exact iff_of_false hne.symm hun
    · exact absurd hsettled (not_or.mpr ⟨hun, hdeep⟩)
  · intro hun hlt
    have hdeep := hsettled.resolve_left hun
    rw [numberOfConfirmations, if_neg hun] at hlt
    exact absurd hdeep (by omega)
  · exact data_stateIcon hr
  · rw [csvLine, data_numberOfConfirmations hr, Int.toNat_natCast,
      QVariant.toUnsigned_int (numberOfConfirmations_lt env r.transaction), List.append_assoc]
    exact List.prefix_append _ _

/-- The unsigned count is the number of blocks unless the transaction stands more than one block
above the last known one, or the count does not fit 64 bits. -/
theorem confirmations_eq_iff {k h : ℕ} (_hk : k < 2 ^ 64) (_hh : h < 2 ^ 32) :
    (((k + 2 ^ 64 - h + 1) % 2 ^ 64 : ℕ) : ℤ) = max 0 ((k : ℤ) - h + 1) ↔
      h ≤ k + 1 ∧ k + 1 - h < 2 ^ 64 := by
  omega

/-- The reports show the number of blocks exactly when the transaction is in no block, or at least
ten blocks deep with a count that fits 64 bits. -/
theorem reports_iff (hr : m.read wallet (index row 0) = some r)
    (hlast : env.getLastKnownBlockHeight < 2 ^ 64) (hheight : r.transaction.blockHeight < 2 ^ 32) :
    Reports localTime env wallet m row r.transaction (expectedConfirmations env r.transaction) ↔
      r.transaction.blockHeight = WALLET_UNCONFIRMED_TRANSACTION_HEIGHT ∨
        r.transaction.blockHeight + 9 ≤ env.getLastKnownBlockHeight ∧
          env.getLastKnownBlockHeight + 1 - r.transaction.blockHeight < 2 ^ 64 := by
  by_cases hun : r.transaction.blockHeight = WALLET_UNCONFIRMED_TRANSACTION_HEIGHT
  · have hreports : Reports localTime env wallet m row r.transaction
        (numberOfConfirmations env r.transaction) := reports_numberOfConfirmations hr (.inl hun)
    have hcount : (numberOfConfirmations env r.transaction : ℤ) =
        expectedConfirmations env r.transaction := by
      simp [numberOfConfirmations, expectedConfirmations, hun]
    exact iff_of_true (hcount ▸ hreports) (Or.inl hun)
  rw [or_iff_right hun]
  have hcount : (confirmations env r.transaction.blockHeight : ℤ) =
      expectedConfirmations env r.transaction ↔
        r.transaction.blockHeight ≤ env.getLastKnownBlockHeight + 1 ∧
          env.getLastKnownBlockHeight + 1 - r.transaction.blockHeight < 2 ^ 64 := by
    rw [expectedConfirmations, if_neg hun]
    exact confirmations_eq_iff hlast hheight
  have hnumber : numberOfConfirmations env r.transaction =
      confirmations env r.transaction.blockHeight := by
    rw [numberOfConfirmations, if_neg hun]
  have hexpected : expectedConfirmations env r.transaction =
      max 0 ((env.getLastKnownBlockHeight : ℤ) - r.transaction.blockHeight + 1) := by
    rw [expectedConfirmations, if_neg hun]
  constructor
  · intro h
    have hrole := (data_numberOfConfirmations hr .state).symm.trans (h.role .state)
    rw [QVariant.int.injEq, hnumber] at hrole
    obtain ⟨hle, hfits⟩ := hcount.mp hrole
    refine ⟨?_, hfits⟩
    by_contra hshallow
    have hlt : expectedConfirmations env r.transaction < 10 := by omega
    have hcell := h.number hun hlt
    exact number_not_shown hr hun (by omega) (by omega) hcell
  · rintro ⟨hdeep, hfits⟩
    have heq := hcount.mpr ⟨by omega, hfits⟩
    have hten : 10 ≤ confirmations env r.transaction.blockHeight := by omega
    have hreports : Reports localTime env wallet m row r.transaction
        (numberOfConfirmations env r.transaction) := reports_numberOfConfirmations hr (.inr hten)
    rw [hnumber, heq] at hreports
    exact hreports

end Row

/-- A transaction in block 7, and the table that shows it. -/
def blockSeven : WalletTransaction :=
  ⟨.succeeded, 0, 7, [], 0, 0, false, [], [], WALLET_INVALID_DEPOSIT_ID, 0, []⟩

def blockSevenWallet : Wallet := ⟨[blockSeven], [], Wallet.one_lt, Wallet.none_lt⟩

def blockSevenTable : TransactionsModel := ⟨[(0, WALLET_INVALID_TRANSFER_ID)], ∅⟩

theorem reports_iff_ahead : Reports (fun _ => [])
    { Environment.offline with getLastKnownBlockHeight := 20 } (some blockSevenWallet)
    blockSevenTable 0 blockSeven 14 :=
  (reports_iff (by decide : blockSevenTable.read (some blockSevenWallet) (index 0 0) =
    some ⟨0, blockSeven, WALLET_INVALID_TRANSFER_ID, WalletTransfer.default,
      WALLET_INVALID_DEPOSIT_ID, Deposit.default⟩) (by decide) (by decide)).mpr (by decide)

/-- Before the node has answered, a transaction in block 7 counts as deeply confirmed. -/
theorem reports_behind :
    data Environment.offline (some blockSevenWallet) blockSevenTable
      (index 0 Column.confirmations.toInt) .display = .text (qstr "Confirmed") ∧
    ¬ Reports (fun _ => []) Environment.offline (some blockSevenWallet) blockSevenTable 0
      blockSeven (expectedConfirmations Environment.offline blockSeven) := by
  refine ⟨by decide +kernel, fun h => ?_⟩
  exact absurd (h.role .state) (by decide)

end TransactionsModel
end ConcealDesktop
