import ConcealDesktop.CellSources

/-! The real rows of DepositModel along a run. A reload counts all deposits of the wallet; the
incremental path looks at the newest one only, and counts nothing when that one is spent already. -/
namespace ConcealDesktop.DepositModel
open WalletAdapter

/-- The newest deposit is locked or not spent yet, so it is appended. -/
def NewestListable (wallet : Option Wallet) : Prop :=
  ∀ deposit ∈ getDeposit wallet (getDepositCount wallet - 1),
    deposit.locked = true ∨ deposit.spendingTransactionId = WALLET_INVALID_TRANSACTION_ID

instance (wallet : Option Wallet) : Decidable (NewestListable wallet) := by
  unfold NewestListable
  infer_instance

/-- The number of real rows after the incremental path. -/
def syncedCount (wallet : Option Wallet) (count : ℕ) : ℕ :=
  if count < getDepositCount wallet ∧ NewestListable wallet then getDepositCount wallet else count

theorem syncDepositRowsFromWallet_count (wallet : Option Wallet) (m : DepositModel) :
    (m.syncDepositRowsFromWallet wallet).1.m_depositCount =
      syncedCount wallet m.m_depositCount := by
  have hbound := getDepositCount_lt wallet
  by_cases hle : getDepositCount wallet ≤ m.m_depositCount
  · have hnot : ¬m.m_depositCount < getDepositCount wallet := not_lt.mpr hle
    simp [syncDepositRowsFromWallet, syncedCount, hle, hnot]
  · have hlt : m.m_depositCount < getDepositCount wallet := not_le.mp hle
    have hnew : ¬getDepositCount wallet - 1 < m.m_depositCount := by omega
    have hcount : (getDepositCount wallet - 1 + 1) % 2 ^ 32 = getDepositCount wallet := by omega
    have hlast : getDepositCount wallet - 1 < getDepositCount wallet := by omega
    obtain ⟨deposit, hdeposit⟩ := Option.isSome_iff_exists.mp
      ((getDeposit_isSome wallet (getDepositCount wallet - 1)).mpr hlast)
    have hnewest : NewestListable wallet ↔ ¬(deposit.locked = false ∧
        deposit.spendingTransactionId ≠ WALLET_INVALID_TRANSACTION_ID) := by
      simp only [NewestListable, hdeposit, Option.mem_def, Option.some.injEq, forall_eq']
      cases deposit.locked <;> simp
    simp only [syncDepositRowsFromWallet, if_neg hle, appendDeposit, if_neg hnew, hdeposit,
      syncedCount, hlt, true_and, hnewest]
    split_ifs <;> first | rfl | exact hcount

theorem reloadWalletDeposits_count (wallet : Option Wallet) (m : DepositModel) :
    (m.reloadWalletDeposits wallet).1.m_depositCount = getDepositCount wallet := by
  have hbound := getDepositCount_lt wallet
  simp only [reloadWalletDeposits, reset]
  split_ifs with h
  · exact h.symm
  · exact Nat.mod_eq_of_lt (by omega)

theorem removePending_count (wallet : Option Wallet) (m : DepositModel) (id : TransactionId) :
    (m.removePending wallet id).1.m_depositCount = m.m_depositCount := by
  unfold removePending
  cases getTransaction wallet id with
  | none => rfl
  | some t =>
    dsimp only
    split_ifs
    · rfl
    · split <;> rfl

/-- The handlers that take the incremental path. -/
def Event.syncs : Event → Bool
  | .transactionCreated _ | .transactionUpdated _ | .depositsUpdated _ => true
  | .reloadWalletDeposits | .walletDepositPending .. | .walletCloseCompleted => false

/-- What an event does to the number of real rows. -/
def countAfter (wallet : Option Wallet) (count : ℕ) : Event → ℕ
  | .reloadWalletDeposits => getDepositCount wallet
  | .transactionCreated _ | .transactionUpdated _ | .depositsUpdated _ => syncedCount wallet count
  | .walletDepositPending .. => count
  | .walletCloseCompleted => 0

theorem handle_count (env : Environment) (wallet : Option Wallet)
    (transactions : TransactionsModel) (m : DepositModel) (e : Event) :
    (m.handle env wallet transactions e).1.m_depositCount =
      countAfter wallet m.m_depositCount e := by
  cases e with
  | reloadWalletDeposits => exact reloadWalletDeposits_count wallet m
  | transactionCreated id => exact syncDepositRowsFromWallet_count wallet m
  | transactionUpdated id =>
    exact (syncDepositRowsFromWallet_count wallet _).trans
      (congrArg (syncedCount wallet) (removePending_count wallet m id))
  | depositsUpdated ids => exact syncDepositRowsFromWallet_count wallet m
  | walletDepositPending id hash amount term => rfl
  | walletCloseCompleted => rfl

theorem countAfter_of_syncs {e : Event} (h : e.syncs = true) (wallet : Option Wallet) (count : ℕ) :
    countAfter wallet count e = syncedCount wallet count := by
  cases e <;> first | rfl | cases h

theorem syncedCount_le {wallet : Option Wallet} {count : ℕ} (h : count ≤ getDepositCount wallet) :
    syncedCount wallet count ≤ getDepositCount wallet := by
  unfold syncedCount
  split_ifs
  · exact le_rfl
  · exact h

theorem syncedCount_eq_iff {wallet : Option Wallet} {count : ℕ}
    (h : count ≤ getDepositCount wallet) :
    syncedCount wallet count = getDepositCount wallet ↔
      count = getDepositCount wallet ∨ NewestListable wallet := by
  unfold syncedCount
  split_ifs with hnew
  · exact iff_of_true rfl (.inr hnew.2)
  · constructor
    · exact .inl
    · rintro (heq | hlistable)
      · exact heq
      · exact h.antisymm (not_lt.mp fun hlt => hnew ⟨hlt, hlistable⟩)

theorem lt_syncedCount_iff (wallet : Option Wallet) (count d : ℕ) :
    d < syncedCount wallet count ↔
      d < count ∨ (d < getDepositCount wallet ∧ NewestListable wallet) := by
  unfold syncedCount
  split_ifs with hnew
  · constructor
    · intro hd
      exact .inr ⟨hd, hnew.2⟩
    · rintro (hd | hd)
      · exact hd.trans hnew.1
      · exact hd.1
  · constructor
    · exact .inl
    · rintro (hd | ⟨hd, hlistable⟩)
      · exact hd
      · exact hd.trans_le (not_lt.mp fun hlt => hnew ⟨hlt, hlistable⟩)

end ConcealDesktop.DepositModel

namespace ConcealDesktop.Models
open EventDriven DepositModel WalletAdapter TransactionsModel

/-! ### The incremental path against a reload -/

/-- No wallet is closed or exchanged for one with fewer deposits, and the model is not reset. -/
def DepositsGrow (s : State) : Event → Prop
  | .wallet wallet => getDepositCount s.wallet ≤ getDepositCount wallet
  | .deposits .walletCloseCompleted => False
  | _ => True

instance (s : State) : (e : Event) → Decidable (DepositsGrow s e)
  | .wallet wallet =>
    inferInstanceAs (Decidable (getDepositCount s.wallet ≤ getDepositCount wallet))
  | .deposits .walletCloseCompleted => inferInstanceAs (Decidable False)
  | .deposits .reloadWalletDeposits | .deposits (.transactionCreated _)
  | .deposits (.transactionUpdated _) | .deposits (.depositsUpdated _)
  | .deposits (.walletDepositPending ..) | .transactions _ | .messages _ =>
    inferInstanceAs (Decidable True)

/-- After a reload or an event that takes the incremental path, the real rows are those that a
reload would leave, one for each deposit of the wallet. -/
def DepositsListed (env : Environment) (s : State) : Event → Prop
  | .deposits e => (e.syncs = true ∨ e = .reloadWalletDeposits) →
      (handle env s (.deposits e)).deposits.m_depositCount = getDepositCount s.wallet ∧
      (handle env s (.deposits e)).deposits.m_depositCount =
        ((handle env s (.deposits e)).deposits.reloadWalletDeposits s.wallet).1.m_depositCount
  | _ => True

/-- The incremental path is taken with all deposits listed already or a listable newest one. -/
def SyncsListable (s : State) : Event → Prop
  | .deposits e => e.syncs = true →
      s.deposits.m_depositCount = getDepositCount s.wallet ∨ NewestListable s.wallet
  | _ => True

instance (s : State) : (e : Event) → Decidable (SyncsListable s e)
  | .deposits e => inferInstanceAs (Decidable (e.syncs = true →
      s.deposits.m_depositCount = getDepositCount s.wallet ∨ NewestListable s.wallet))
  | .wallet _ | .transactions _ | .messages _ => inferInstanceAs (Decidable True)

theorem handle_deposits_count (env : Environment) (s : State) (e : DepositModel.Event) :
    (handle env s (.deposits e)).deposits.m_depositCount =
      countAfter s.wallet s.deposits.m_depositCount e :=
  handle_count env s.wallet s.transactions s.deposits e

theorem count_le_step (env : Environment) (s : State) (e : Event)
    (hs : s.deposits.m_depositCount ≤ getDepositCount s.wallet) (he : DepositsGrow s e) :
    (handle env s e).deposits.m_depositCount ≤ getDepositCount (handle env s e).wallet := by
  cases e with
  | wallet wallet => exact hs.trans he
  | transactions e => exact hs
  | messages e => exact hs
  | deposits e =>
    rw [handle_deposits_count]
    cases e with
    | reloadWalletDeposits => exact le_rfl
    | transactionCreated id => exact syncedCount_le hs
    | transactionUpdated id => exact syncedCount_le hs
    | depositsUpdated ids => exact syncedCount_le hs
    | walletDepositPending id hash amount term => exact hs
    | walletCloseCompleted => exact Nat.zero_le _

theorem depositsListed_iff_step (env : Environment) (s : State) (e : Event)
    (hs : s.deposits.m_depositCount ≤ getDepositCount s.wallet) :
    DepositsListed env s e ↔ SyncsListable s e := by
  cases e with
  | wallet wallet => exact Iff.rfl
  | transactions e => exact Iff.rfl
  | messages e => exact Iff.rfl
  | deposits e =>
    simp only [DepositsListed, SyncsListable, reloadWalletDeposits_count, and_self,
      handle_deposits_count]
    by_cases hsync : e.syncs = true
    · simp only [hsync, true_or, true_imp_iff, countAfter_of_syncs hsync]
      exact syncedCount_eq_iff hs
    · simp only [hsync, Bool.false_eq_true, false_or, false_imp_iff, iff_true]
      rintro rfl
      rfl

/-- In every run of a growing wallet, each event leaves the rows of a reload exactly when the
incremental path always finds its newest deposit listable or nothing to do. -/
theorem depositsListed_iff_listable {env : Environment} {h : List Event}
    (hgrow : (system env).Always DepositsGrow h) :
    (system env).Always (DepositsListed env) h ↔ (system env).Always SyncsListable h :=
  EventSystem.always_iff_of_invariant (P := DepositsGrow)
    (I := fun s => s.deposits.m_depositCount ≤ getDepositCount s.wallet) (Nat.zero_le _)
    (fun s e hs he _ => count_le_step env s e hs he)
    (fun s e hs _ => depositsListed_iff_step env s e hs) hgrow

/-- A deposit that is locked, and one that was spent by transaction 1. -/
def lockedDeposit : Deposit := ⟨1, 21900, true, 0, WALLET_INVALID_TRANSACTION_ID⟩
def spentDeposit : Deposit := ⟨1, 21900, false, 0, 1⟩

/-- A locked deposit appears after the reload and is listed by the created signal. -/
theorem depositsListed_iff_listable_run :
    let env := Environment.offline
    let before : Wallet := ⟨[], [spentDeposit], by decide, by decide⟩
    let wallet : Wallet := ⟨[], [spentDeposit, lockedDeposit], by decide, by decide⟩
    let h : List Event := [.deposits (.transactionCreated 0), .wallet (some wallet),
      .deposits .reloadWalletDeposits, .wallet (some before)]
    (system env).Always DepositsGrow h ∧ (system env).Always (DepositsListed env) h ∧
      ((system env).after h).deposits.m_depositCount = 2 := by
  intro env before wallet h
  have hgrow : (system env).Always DepositsGrow h := by decide
  exact ⟨hgrow, (depositsListed_iff_listable hgrow).mpr (by decide), by decide⟩

/-- A locked and a spent deposit appear at once: the created signal lists neither of them. -/
theorem newest_spent_hides_batch :
    let env := Environment.offline
    let before : Wallet := ⟨[], [], by decide, by decide⟩
    let wallet : Wallet := ⟨[], [lockedDeposit, spentDeposit], by decide, by decide⟩
    let h : List Event := [.deposits (.transactionCreated 0), .wallet (some wallet),
      .deposits .reloadWalletDeposits, .wallet (some before)]
    let s := (system env).after h
    (system env).Admissible h ∧ (system env).Always DepositsGrow h ∧
      s.deposits.m_depositCount = 0 ∧ getDepositCount s.wallet = 2 ∧
      (s.deposits.reloadWalletDeposits s.wallet).1.m_depositCount = 2 ∧
      ¬(system env).Always (DepositsListed env) h := by
  intro env before wallet h s
  refine ⟨by decide, by decide, rfl, rfl, rfl, fun hlisted => ?_⟩
  exact absurd (hlisted.1 (.inl rfl)).1 (by decide)

/-! ### Deposits looked up by their id -/

/-- Whether a deposit is counted after an event of the model, given that it was before. -/
def CountedAfter (wallet : Option Wallet) (d : ℕ) (before : Prop) : DepositModel.Event → Prop
  | .reloadWalletDeposits => d < getDepositCount wallet
  | .transactionCreated _ | .transactionUpdated _ | .depositsUpdated _ =>
    before ∨ (d < getDepositCount wallet ∧ NewestListable wallet)
  | .walletDepositPending .. => before
  | .walletCloseCompleted => False

/-- The deposit has been counted since the model was last reset: by a reload, or by an event that
took the incremental path while the newest deposit was listable. -/
def CountedBy (env : Environment) (d : ℕ) : List Event → Prop
  | [] => False
  | .deposits e :: h => CountedAfter ((system env).after h).wallet d (CountedBy env d h) e
  | .wallet _ :: h | .transactions _ :: h | .messages _ :: h => CountedBy env d h

theorem lt_countAfter_iff (wallet : Option Wallet) (count d : ℕ) (e : DepositModel.Event) :
    d < countAfter wallet count e ↔ CountedAfter wallet d (d < count) e := by
  cases e with
  | reloadWalletDeposits => exact Iff.rfl
  | transactionCreated id => exact lt_syncedCount_iff wallet count d
  | transactionUpdated id => exact lt_syncedCount_iff wallet count d
  | depositsUpdated ids => exact lt_syncedCount_iff wallet count d
  | walletDepositPending id hash amount term => exact Iff.rfl
  | walletCloseCompleted => exact iff_of_false (Nat.not_lt_zero d) id

theorem lt_count_iff (env : Environment) (d : ℕ) (h : List Event) :
    d < ((system env).after h).deposits.m_depositCount ↔ CountedBy env d h := by
  induction h with
  | nil => exact iff_of_false (Nat.not_lt_zero d) id
  | cons e h ih =>
    cases e with
    | wallet wallet => exact ih
    | transactions e => exact ih
    | messages e => exact ih
    | deposits e =>
      have hcount := handle_deposits_count env ((system env).after h) e
      rw [CountedBy, ← ih, ← lt_countAfter_iff, ← hcount]
      rfl

/-- TransactionDetailsDialog: the row of DepositModel that it reads for a transaction row. -/
def detailsDepositRow (env : Environment) (wallet : Option Wallet)
    (transactions : TransactionsModel) (row : ℤ) : Option ℤ :=
  let depositId := (TransactionsModel.data env wallet transactions
    (TransactionsModel.index row row) .depositId).toUnsigned 64
  if depositId = WALLET_INVALID_DEPOSIT_ID then none else some (toInt depositId)

theorem access_eq_real_iff (m : DepositModel) (d : ℕ) :
    m.access d = .real d ↔ d < m.m_depositCount := by
  constructor
  · intro h
    by_contra hnot
    have hpending : m.isPendingRow d = true := decide_eq_true (by omega)
    simp only [access, hpending, if_true] at h
    split at h <;> cases h
  · exact access_real

/-- The ids by which deposits are looked up are those that the transactions name. -/
theorem detailsDepositRow_eq {env : Environment} {wallet : Option Wallet}
    {transactions : TransactionsModel} {row : ℤ} {reading : TransactionsModel.Reading}
    (h : transactions.read wallet (TransactionsModel.index row row) = some reading)
    (hdeposit : (getDeposit wallet reading.transaction.firstDepositId).isSome) :
    detailsDepositRow env wallet transactions row =
      some (toInt reading.transaction.firstDepositId) := by
  have hlt := ((getDeposit_isSome _ _).mp hdeposit).trans (getDepositCount_lt wallet)
  have hid : (TransactionsModel.data env wallet transactions (TransactionsModel.index row row)
      .depositId).toUnsigned 64 = reading.transaction.firstDepositId := by
    rw [TransactionsModel.data, h]
    exact QVariant.toUnsigned_int (hlt.trans (by decide))
  rw [detailsDepositRow, hid, if_neg (Nat.ne_of_lt (hlt.trans (by decide)))]

/-! ### Deposits announced by an update of their transaction -/

/-- What transactionUpdated announces for a transaction are the rows from its first deposit on, one
for each deposit that it names, and they are the real rows of these deposits. -/
def AnnouncesOwn (env : Environment) (s : State) (id : TransactionId) (t : WalletTransaction) :
    Prop :=
  ∀ topLeft bottomRight : QModelIndex,
    .dataChanged topLeft bottomRight ∈ announceDeposits env s.wallet s.transactions id →
      topLeft.row = t.firstDepositId ∧
      bottomRight.row = t.firstDepositId + (t.depositCount % 2 ^ 64 : ℕ) - 1 ∧
      ∀ d : ℕ, topLeft.row ≤ d → d ≤ bottomRight.row →
        (s.deposits.transactionUpdated env s.wallet s.transactions id).1.access d = .real d

/-- Two transactions that name the same rows of deposits; a row number has 32 bits. -/
def SameDeposits (t t' : WalletTransaction) : Prop :=
  t.firstDepositId = t'.firstDepositId ∧ t.depositCount % 2 ^ 32 = t'.depositCount % 2 ^ 32

/-- An update finds its transaction listed (or transaction 0, which a row outside the table shows,
names no deposit or the same ones), and the last deposit of the transaction is counted then. -/
structure UpdateSafe (env : Environment) (h : List Event) (id : TransactionId)
    (t : WalletTransaction) : Prop where
  listed : RowSafe ((system env).after h).wallet ((system env).after h).transactions id ∨
    ∀ first ∈ getTransaction ((system env).after h).wallet 0,
      first.depositCount % 2 ^ 64 = 0 ∨ SameDeposits first t
  counted : ∀ shown ∈ ((system env).after h).transactions.read ((system env).after h).wallet
      (TransactionsModel.index id 0),
    shown.transaction.depositCount % 2 ^ 64 = 0 ∨ t.depositCount % 2 ^ 64 = 0 ∨
      CountedBy env (t.firstDepositId + t.depositCount % 2 ^ 64 - 1)
        (.deposits (.transactionUpdated id) :: h)

theorem count_lt (env : Environment) (h : List Event) :
    ((system env).after h).deposits.m_depositCount < 2 ^ 31 := by
  have hsynced (wallet : Option Wallet) {count : ℕ} (hcount : count < 2 ^ 31) :
      syncedCount wallet count < 2 ^ 31 := by
    unfold syncedCount
    split_ifs
    · exact getDepositCount_lt wallet
    · exact hcount
  induction h with
  | nil => exact Nat.two_pow_pos 31
  | cons e h ih =>
    cases e with
    | wallet wallet => exact ih
    | transactions e => exact ih
    | messages e => exact ih
    | deposits e =>
      apply (handle_deposits_count env ((system env).after h) e).trans_lt
      cases e with
      | reloadWalletDeposits => exact getDepositCount_lt _
      | transactionCreated id => exact hsynced _ ih
      | transactionUpdated id => exact hsynced _ ih
      | depositsUpdated ids => exact hsynced _ ih
      | walletDepositPending id hash amount term => exact ih
      | walletCloseCompleted => exact Nat.two_pow_pos 31

theorem SameDeposits.refl (t : WalletTransaction) : SameDeposits t t := ⟨rfl, rfl⟩

theorem firstDepositId_of_read {wallet : Option Wallet} {m : TransactionsModel}
    {i : QModelIndex} {shown : TransactionsModel.Reading} (h : m.read wallet i = some shown) :
    shown.transaction.firstDepositId = WALLET_INVALID_DEPOSIT_ID ∨
      shown.transaction.firstDepositId < 2 ^ 31 := by
  unfold TransactionsModel.read at h
  split_ifs at h
  simp only [TransactionsModel.readPair, Option.bind_eq_some_iff, Option.map_eq_some_iff] at h
  obtain ⟨transaction, -, transfer, -, deposit, hdeposit, rfl⟩ := h
  unfold TransactionsModel.readDeposit at hdeposit
  split_ifs at hdeposit with hinvalid
  · exact Or.inl hinvalid
  · have hlt := (getDeposit_isSome _ _).mp (Option.isSome_of_eq_some hdeposit)
    exact Or.inr (hlt.trans (getDepositCount_lt wallet))

theorem toUnsigned_natCast (n : ℕ) : (QVariant.int n).toUnsigned 64 = n % 2 ^ 64 := by
  show ((n : ℤ) % 2 ^ 64).toNat = _
  omega

/-- The one range that is announced for the transaction that the row shows. -/
theorem announceDeposits_of_read {env : Environment} {wallet : Option Wallet}
    {transactions : TransactionsModel} {id : ℕ} {shown : TransactionsModel.Reading}
    (hread : transactions.read wallet (TransactionsModel.index (toInt id) 0) = some shown) :
    announceDeposits env wallet transactions id =
      if shown.transaction.depositCount % 2 ^ 64 = 0 then []
      else [.dataChanged (DepositModel.index (toInt shown.transaction.firstDepositId) 0)
        (DepositModel.index (toInt ((shown.transaction.firstDepositId +
          shown.transaction.depositCount % 2 ^ 64 - 1) % 2 ^ 64)) (columnCount - 1))] := by
  have hlt : shown.transaction.firstDepositId < 2 ^ 64 := by
    rcases firstDepositId_of_read hread with h | h
    · rw [h]
      decide
    · exact h.trans (by decide)
  have hcell (role : TransactionsModel.Role) :
      TransactionsModel.data env wallet transactions (TransactionsModel.index (toInt id) 0) role =
        TransactionsModel.render env (TransactionsModel.index (toInt id) 0) shown role := by
    rw [TransactionsModel.data, hread]
  have hdeposit : (TransactionsModel.data env wallet transactions
      (TransactionsModel.index (toInt id) 0) .depositId).toUnsigned 64 =
        shown.transaction.firstDepositId := by
    rw [hcell]
    exact QVariant.toUnsigned_int hlt
  have hcount : (TransactionsModel.data env wallet transactions
      (TransactionsModel.index (toInt id) 0) .depositCount).toUnsigned 64 =
        shown.transaction.depositCount % 2 ^ 64 := by
    rw [hcell]
    exact toUnsigned_natCast _
  have hvalid : (TransactionsModel.index (toInt id) 0).isValid = true := by
    unfold TransactionsModel.read at hread
    split_ifs at hread with h
    exact h
  unfold announceDeposits
  simp only [hdeposit, hcount, hvalid, Bool.true_eq_false, false_or]

theorem announceDeposits_of_read_none {env : Environment} {wallet : Option Wallet}
    {transactions : TransactionsModel} {id : ℕ}
    (hread : transactions.read wallet (TransactionsModel.index (toInt id) 0) = none) :
    announceDeposits env wallet transactions id = [] := by
  have hcount : (TransactionsModel.data env wallet transactions
      (TransactionsModel.index (toInt id) 0) .depositCount).toUnsigned 64 = 0 := by
    rw [TransactionsModel.data, hread]
    rfl
  unfold announceDeposits
  simp only [hcount, or_true, if_true]

/-- The last announced row determines the number of rows up to the 32 bits of a row number. -/
theorem last_row_congr {first announced count : ℕ} (hannounced : announced ≠ 0)
    (h : toInt ((first + announced - 1) % 2 ^ 64) = first + count - 1) :
    announced % 2 ^ 32 = count % 2 ^ 32 := by
  have hrow := toInt_emod ((first + announced - 1) % 2 ^ 64)
  omega

theorem last_row_eq {first announced count : ℕ} (hannounced : announced ≠ 0)
    (hcongr : announced % 2 ^ 32 = count % 2 ^ 32) (hfirst : first < 2 ^ 31)
    (hlast : count = 0 ∨ first + count - 1 < 2 ^ 31) :
    toInt ((first + announced - 1) % 2 ^ 64) = first + count - 1 := by
  have hrow := toInt_emod ((first + announced - 1) % 2 ^ 64)
  have hbounds := toInt_bounds ((first + announced - 1) % 2 ^ 64)
  omega

theorem lt_of_row_le {first count n d : ℕ} (h : count = 0 ∨ first + count - 1 < n)
    (hge : (first : ℤ) ≤ d) (hle : (d : ℤ) ≤ first + count - 1) : d < n := by
  omega

theorem first_row_iff {shown first : ℕ}
    (hshown : shown = WALLET_INVALID_DEPOSIT_ID ∨ shown < 2 ^ 31) (hfirst : first < 2 ^ 31) :
    toInt shown = first ↔ shown = first := by
  rcases hshown with hinvalid | hlt
  · have hminus : toInt WALLET_INVALID_DEPOSIT_ID = -1 := by decide
    have hlarge : 2 ^ 31 < WALLET_INVALID_DEPOSIT_ID := by decide
    rw [hinvalid, hminus]
    exact iff_of_false (by omega) (hfirst.trans hlarge).ne'
  · rw [toInt_of_lt hlt]
    exact Int.ofNat_inj

/-- The transaction that the row shows decides what is announced. -/
theorem announcesOwn_iff (env : Environment) {s : State} {id : ℕ} {t : WalletTransaction}
    {shown : TransactionsModel.Reading} (hfirst : t.firstDepositId < 2 ^ 31)
    (hread : s.transactions.read s.wallet (TransactionsModel.index (toInt id) 0) = some shown)
    {after : DepositModel} (hafter :
      (s.deposits.transactionUpdated env s.wallet s.transactions id).1 = after)
    (hlt : after.m_depositCount < 2 ^ 31) :
    AnnouncesOwn env s id t ↔ shown.transaction.depositCount % 2 ^ 64 = 0 ∨
      SameDeposits shown.transaction t ∧ (t.depositCount % 2 ^ 64 = 0 ∨
        t.firstDepositId + t.depositCount % 2 ^ 64 - 1 < after.m_depositCount) := by
  have hshown := firstDepositId_of_read hread
  unfold AnnouncesOwn
  rw [announceDeposits_of_read hread, hafter]
  split_ifs with hzero
  · exact iff_of_true (fun _ _ h => absurd h List.not_mem_nil) (Or.inl hzero)
  rw [or_iff_right hzero]
  constructor
  · intro h
    obtain ⟨htop, hbottom, hreal⟩ := h _ _ (List.mem_singleton.mpr rfl)
    simp only [DepositModel.index_row] at htop hbottom hreal
    have heq := (first_row_iff hshown hfirst).mp htop
    rw [heq] at hbottom
    have hcongr := last_row_congr hzero hbottom
    refine ⟨⟨heq, by omega⟩, or_iff_not_imp_left.mpr fun hsome => ?_⟩
    have hlast := hreal (t.firstDepositId + t.depositCount % 2 ^ 64 - 1)
      (by rw [htop]; omega) (by rw [heq, hbottom]; omega)
    exact (access_eq_real_iff after _).mp hlast
  · rintro ⟨⟨heq, hsame⟩, hcounted⟩ topLeft bottomRight h
    obtain ⟨rfl, rfl⟩ := ModelSignal.dataChanged.inj (List.mem_singleton.mp h)
    simp only [DepositModel.index_row]
    have htop := (first_row_iff hshown hfirst).mpr heq
    have hmod : shown.transaction.depositCount % 2 ^ 64 % 2 ^ 32 =
        t.depositCount % 2 ^ 64 % 2 ^ 32 := by omega
    have hbottom := last_row_eq hzero hmod hfirst
      (hcounted.imp_right (·.trans hlt))
    rw [heq] at htop ⊢
    refine ⟨htop, hbottom, fun d hge hle => ?_⟩
    rw [htop] at hge
    rw [hbottom] at hle
    rw [access_eq_real_iff]
    exact lt_of_row_le hcounted hge hle

/-- A readable row shows its own transaction if it is safe and transaction 0 otherwise. -/
theorem listed_iff {wallet : Option Wallet} {m : TransactionsModel} {n id : ℕ} (hm : Listed n m)
    {t : WalletTransaction} (ht : getTransaction wallet id = some t)
    {shown : TransactionsModel.Reading}
    (hread : m.read wallet (TransactionsModel.index id 0) = some shown) :
    (RowSafe wallet m id ∨ ∀ first ∈ getTransaction wallet 0,
        first.depositCount % 2 ^ 64 = 0 ∨ SameDeposits first t) ↔
      shown.transaction.depositCount % 2 ^ 64 = 0 ∨ SameDeposits shown.transaction t := by
  by_cases hsafe : RowSafe wallet m id
  · have hown := (readPair_eq_some (hm.read_isOf hsafe hread).2).2.2
    rw [ht, Option.some.injEq] at hown
    rw [hown]
    exact iff_of_true (Or.inl hsafe) (Or.inr (SameDeposits.refl _))
  · obtain ⟨reading, hfirst, hreading⟩ := read_of_not_rowSafe hsafe (le_refl 0)
    rw [hread, Option.some.injEq] at hreading
    have hzero := (readPair_eq_some hfirst).2.2
    rw [or_iff_right hsafe, hzero, ← hreading]
    simp

/-- Where the updated row can be read, the transaction that it shows decides what is safe. -/
theorem updateSafe_iff_of_read {env : Environment} {h : List Event} {id n : ℕ}
    {t : WalletTransaction} {shown : TransactionsModel.Reading}
    (hlisted : Listed n ((system env).after h).transactions)
    (ht : getTransaction ((system env).after h).wallet id = some t)
    (hread : ((system env).after h).transactions.read ((system env).after h).wallet
      (TransactionsModel.index id 0) = some shown) :
    UpdateSafe env h id t ↔
      (shown.transaction.depositCount % 2 ^ 64 = 0 ∨ SameDeposits shown.transaction t) ∧
      (shown.transaction.depositCount % 2 ^ 64 = 0 ∨ t.depositCount % 2 ^ 64 = 0 ∨
        t.firstDepositId + t.depositCount % 2 ^ 64 - 1 <
          ((system env).after
            (.deposits (.transactionUpdated id) :: h)).deposits.m_depositCount) := by
  have hsafe := listed_iff hlisted ht hread
  have hcounted := lt_count_iff env (t.firstDepositId + t.depositCount % 2 ^ 64 - 1)
    (.deposits (.transactionUpdated id) :: h)
  constructor
  · rintro ⟨hrow, hlast⟩
    exact ⟨hsafe.mp hrow, (hlast shown hread).imp_right (Or.imp_right hcounted.mpr)⟩
  · rintro ⟨hrow, hlast⟩
    refine ⟨hsafe.mpr hrow, fun other hother => ?_⟩
    obtain rfl := Option.some.inj (hread.symm.trans hother)
    exact hlast.imp_right (Or.imp_right hcounted.mp)

theorem announcesOwn_iff_updateSafe {env : Environment} {h : List Event} {id : ℕ}
    {t : WalletTransaction} (ht : getTransaction ((system env).after h).wallet id = some t)
    (hdeposit : (getDeposit ((system env).after h).wallet t.firstDepositId).isSome) :
    AnnouncesOwn env ((system env).after h) id t ↔ UpdateSafe env h id t := by
  obtain ⟨n, hlisted⟩ := exists_listed env h
  have hid : id < 2 ^ 31 :=
    ((getTransaction_isSome _ _).mp (Option.isSome_of_eq_some ht)).trans (getTransactionCount_lt _)
  have hfirst : t.firstDepositId < 2 ^ 31 :=
    ((getDeposit_isSome _ _).mp hdeposit).trans (getDepositCount_lt _)
  cases hread : ((system env).after h).transactions.read ((system env).after h).wallet
      (TransactionsModel.index id 0) with
  | none =>
    have hnone : announceDeposits env ((system env).after h).wallet
        ((system env).after h).transactions id = [] :=
      announceDeposits_of_read_none ((toInt_of_lt hid).symm ▸ hread)
    refine iff_of_true (fun _ _ hmem => absurd (hnone ▸ hmem) List.not_mem_nil) ⟨Or.inl ?_, ?_⟩
    · by_contra hunsafe
      obtain ⟨reading, -, hreading⟩ := read_of_not_rowSafe hunsafe (le_refl 0)
      rw [hread] at hreading
      cases hreading
    · rw [hread]
      exact fun _ hshown => absurd hshown (Option.not_mem_none _)
  | some shown =>
    have hown := announcesOwn_iff env hfirst ((toInt_of_lt hid).symm ▸ hread) rfl
      (count_lt env (.deposits (.transactionUpdated id) :: h))
    rw [updateSafe_iff_of_read hlisted ht hread]
    exact hown.trans or_and_left

/-- In every reachable state, the row with the number of an existing deposit is the row of that
deposit exactly when the deposit has been counted; and an update of a transaction announces the
real rows of its deposits exactly when it finds the transaction listed and its deposits counted. -/
theorem lookup_real_iff_counted (env : Environment) (h : List Event) :
    let s := (system env).after h
    (∀ d : ℕ, (getDeposit s.wallet d).isSome →
      (s.deposits.access (toInt d) = .real d ↔ CountedBy env d h)) ∧
    (∀ (row : ℤ) (reading : TransactionsModel.Reading),
      s.transactions.read s.wallet (TransactionsModel.index row row) = some reading →
      (getDeposit s.wallet reading.transaction.firstDepositId).isSome →
        detailsDepositRow env s.wallet s.transactions row =
          some (toInt reading.transaction.firstDepositId)) ∧
    ∀ (id : ℕ) (t : WalletTransaction), getTransaction s.wallet id = some t →
      (getDeposit s.wallet t.firstDepositId).isSome →
        (AnnouncesOwn env s id t ↔ UpdateSafe env h id t) := by
  intro s
  refine ⟨fun d hd => ?_, fun row reading hread hdeposit => detailsDepositRow_eq hread hdeposit,
    fun id t ht hdeposit => announcesOwn_iff_updateSafe ht hdeposit⟩
  have hlt := ((getDeposit_isSome _ _).mp hd).trans (getDepositCount_lt s.wallet)
  rw [toInt_of_lt hlt, access_eq_real_iff]
  exact lt_count_iff env d h

/-- The only deposit is spent when it appears: the details of its transaction read the pending
deposits, of which there are none. -/
theorem spent_deposit_out_of_bounds :
    let env := Environment.offline
    let creating : WalletTransaction := ⟨.succeeded, 0, 1, [], 0, 0, false, [], [], 0, 1, []⟩
    let before : Wallet := ⟨[], [], by decide, by decide⟩
    let wallet : Wallet := ⟨[creating], [spentDeposit], by decide, by decide⟩
    let h : List Event := [.deposits (.transactionCreated 0),
      .transactions (.transactionCreated 0), .wallet (some wallet),
      .deposits .reloadWalletDeposits, .wallet (some before)]
    let s := (system env).after h
    (system env).Admissible h ∧ (getDeposit s.wallet 0).isSome ∧
      detailsDepositRow env s.wallet s.transactions 0 = some 0 ∧
      s.deposits.access 0 = .outOfBounds 0 ∧
      DepositModel.data env s.wallet s.transactions s.deposits (DepositModel.index 0 0) .display =
        none := by
  decide

/-- While the table lists transaction 0 only, an update of transaction 1 with its counted deposit 1
announces the row of deposit 0. -/
example :
    let creating (firstDepositId : ℕ) : WalletTransaction :=
      ⟨.succeeded, 0, 1, [], 0, 0, false, [], [], firstDepositId, 1, [⟨[]⟩]⟩
    let before : Wallet := ⟨[creating 0], [lockedDeposit], by decide, by decide⟩
    let wallet : Wallet :=
      ⟨[creating 0, creating 1], [lockedDeposit, lockedDeposit], by decide, by decide⟩
    let h : List Event := [.deposits .reloadWalletDeposits, .wallet (some wallet),
      .transactions .reloadWalletTransactions, .wallet (some before)]
    let s := (system Environment.offline).after h
    s.deposits.m_depositCount = 2 ∧ announceDeposits Environment.offline s.wallet s.transactions 1 =
      [.dataChanged (DepositModel.index 0 0) (DepositModel.index 0 (columnCount - 1))] := by
  decide

end ConcealDesktop.Models
