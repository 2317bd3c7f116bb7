import Mathlib.Order.MinMax
import ConcealDesktop.TransactionRows

/-! The row ranges of TransactionsModel. A transaction gets one row whatever the number of its
transfers, but its entry counts the transfers, and an update announces as many rows. -/
namespace ConcealDesktop.TransactionsModel
open EventDriven WalletAdapter

/-- The entry of a transaction covers exactly its rows, and so does the range that an update of
it announces; for a transaction without an entry the range is empty. -/
def RangeExact (m : TransactionsModel) (id : ℕ) : Prop :=
  (∀ entry ∈ m.m_transactionRow.lookup id, ∀ r : ℕ,
    (entry.1 ≤ r ∧ r < entry.1 + entry.2) ↔ ∃ transfer, m.m_transfers[r]? = some (id, transfer)) ∧
  ∀ r : ℤ, (m.updateWalletTransaction id).announces r ↔
    0 ≤ r ∧ ∃ transfer, m.m_transfers[r.toNat]? = some (id, transfer)

def RangesExact (m : TransactionsModel) : Prop := ∀ id : ℕ, RangeExact m id

/-- The transaction has at most one transfer, as far as 32 bits can tell. -/
def AtMostOneTransfer (wallet : Option Wallet) (id : ℕ) : Prop :=
  getTransferCount wallet id = 0 ∨ getTransferCount wallet id % 2 ^ 32 = 1

instance (wallet : Option Wallet) (id : ℕ) : Decidable (AtMostOneTransfer wallet id) := by
  unfold AtMostOneTransfer
  infer_instance

theorem countOf_eq_one_iff (wallet : Option Wallet) (id : ℕ) :
    countOf wallet id = 1 ↔ AtMostOneTransfer wallet id := by
  unfold countOf AtMostOneTransfer
  split_ifs with h <;> simp [h]

/-- The range of an update when the entry is `(first, count)`. -/
theorem announces_update {m : TransactionsModel} {id first count : ℕ}
    (h : m.m_transactionRow.value id = (first, count)) (r : ℤ) :
    (m.updateWalletTransaction id).announces r ↔
      toInt first ≤ r ∧ r ≤ toInt ((first + count + 2 ^ 32 - 1) % 2 ^ 32) := by
  simp only [updateWalletTransaction, h, ModelSignal.announces, index]

/-- Without an entry the announced range ends before it starts. -/
theorem Listed.rangeExact_of_le {n : ℕ} {m : TransactionsModel} (hm : Listed n m) {id : ℕ}
    (h : n ≤ id) : RangeExact m id := by
  have hnone := hm.lookup_eq_none h
  have hvalue : m.m_transactionRow.value id = (0, 0) := by
    rw [QHash.value, hnone]
    rfl
  refine ⟨fun entry he => by simp [hnone] at he, fun r => ?_⟩
  have hrow : ¬∃ transfer, m.m_transfers[r.toNat]? = some (id, transfer) := by
    rw [hm.row_iff]
    omega
  have hfirst : toInt 0 = 0 := by decide
  have hlast : toInt ((0 + 0 + 2 ^ 32 - 1) % 2 ^ 32) = -1 := by decide
  rw [announces_update hvalue, hfirst, hlast]
  constructor
  · intro hr
    omega
  · rintro ⟨-, hr⟩
    exact absurd hr hrow

/-- A listed transaction has one row, so its range is exact when its entry counts one. -/
theorem Listed.rangeExact_iff {n : ℕ} {m : TransactionsModel} (hm : Listed n m) {id count : ℕ}
    (h : id < n) (he : m.m_transactionRow.lookup id = some (id, count)) :
    RangeExact m id ↔ count = 1 := by
  have hlt := hm.lt
  have hvalue : m.m_transactionRow.value id = (id, count) := by
    rw [QHash.value, he]
    rfl
  constructor
  · intro hexact
    have hr (r : ℕ) : (id ≤ r ∧ r < id + count) ↔ r = id ∧ id < n :=
      (hexact.1 (id, count) he r).trans (hm.row_iff r id)
    have hfirst := (hr id).mpr ⟨rfl, h⟩
    have hsecond := hr (id + 1)
    omega
  · rintro rfl
    refine ⟨fun entry hentry r => ?_, fun r => ?_⟩
    · obtain rfl : (id, 1) = entry := Option.some.inj (he.symm.trans hentry)
      rw [hm.row_iff]
      omega
    · have hlast : (id + 1 + 2 ^ 32 - 1) % 2 ^ 32 = id := by omega
      rw [announces_update hvalue, hlast, toInt_of_lt (by omega), hm.row_iff]
      omega

theorem Listed.rangesExact_iff {n : ℕ} {m : TransactionsModel} (hm : Listed n m) :
    RangesExact m ↔ ∀ k : ℕ, k < n → m.m_transactionRow.lookup k = some (k, 1) := by
  constructor
  · intro hexact k hk
    obtain ⟨count, he⟩ := hm.first k hk
    rw [he, (hm.rangeExact_iff hk he).mp (hexact k)]
  · intro hone k
    rcases lt_or_ge k n with hk | hk
    · exact (hm.rangeExact_iff hk (hone k hk)).mpr rfl
    · exact hm.rangeExact_of_le hk

/-- What an event lists has at most one transfer each. -/
def ListsSingle (wallet : Option Wallet) (m : TransactionsModel) : Event → Prop
  | .reloadWalletTransactions => ∀ k < getTransactionCount wallet, AtMostOneTransfer wallet k
  | .transactionCreated id => ∀ k < min (id + 1) (getTransactionCount wallet),
      m.rowCount ≤ k → AtMostOneTransfer wallet k
  | .transactionUpdated _ | .lastKnownHeightUpdated | .walletCloseCompleted => True

instance (wallet : Option Wallet) (m : TransactionsModel) (e : Event) :
    Decidable (ListsSingle wallet m e) := by
  cases e <;> unfold ListsSingle <;> infer_instance

theorem Appended.rangesExact_iff {wallet : Option Wallet} {m m' : TransactionsModel}
    {start n : ℕ} (h : Appended wallet m start n m')
    (hm : ∀ k : ℕ, k < start → m.m_transactionRow.lookup k = some (k, 1)) :
    RangesExact m' ↔ ∀ k : ℕ, start ≤ k → k < n → AtMostOneTransfer wallet k := by
  rw [h.listed.rangesExact_iff]
  constructor
  · intro hone k hstart hk
    have he := hone k hk
    rw [h.entries k, if_pos ⟨hstart, hk⟩] at he
    rw [← countOf_eq_one_iff]
    simpa using he
  · intro hone k hk
    rw [h.entries k]
    split_ifs with hnew
    · rw [(countOf_eq_one_iff wallet k).mpr (hone k hnew.1 hk)]
    · exact hm k (by omega)

/-- One handler, from rows whose ranges are exact. -/
theorem rangesExact_handle_iff {n : ℕ} {m : TransactionsModel} (hm : Listed n m)
    (hexact : RangesExact m) (wallet : Option Wallet) (e : Event) :
    RangesExact (m.handle wallet e).1 ↔ ListsSingle wallet m e := by
  cases e with
  | reloadWalletTransactions =>
    apply ((reload_appended wallet m).rangesExact_iff
      fun k hk => absurd hk (Nat.not_lt_zero k)).trans
    exact ⟨fun h k hk => h k (Nat.zero_le k) hk, fun h k _ hk => h k hk⟩
  | transactionCreated id =>
    apply ((transactionCreated_appended hm wallet id).rangesExact_iff
      (hm.rangesExact_iff.mp hexact)).trans
    rw [ListsSingle, hm.rowCount_eq]
    constructor
    · intro h k hk hn
      exact h k hn (lt_max_of_lt_right hk)
    · intro h k hn hk
      exact h k ((lt_max_iff.mp hk).resolve_left (not_lt.mpr hn)) hn
  | transactionUpdated id => exact iff_of_true hexact trivial
  | lastKnownHeightUpdated => exact iff_of_true hexact trivial
  | walletCloseCompleted =>
    exact iff_of_true (listed_empty.rangesExact_iff.mpr fun _ hk => absurd hk (Nat.not_lt_zero _))
      trivial

end ConcealDesktop.TransactionsModel

namespace ConcealDesktop.Models
open EventDriven TransactionsModel

/-- The handlers of TransactionsModel list transactions with at most one transfer each. -/
def ListsSingleTransfers (s : State) : Event → Prop
  | .transactions e => ListsSingle s.wallet s.transactions e
  | _ => True

instance (s : State) : (e : Event) → Decidable (ListsSingleTransfers s e)
  | .transactions e => inferInstanceAs (Decidable (ListsSingle s.wallet s.transactions e))
  | .wallet _ | .messages _ | .deposits _ => inferInstanceAs (Decidable True)

/-- In every run, the ranges are exact after each event exactly when every event lists only
transactions with at most one transfer. -/
theorem rangesExact_iff_single (env : Environment) (h : List Event) :
    (system env).Always (fun s e => RangesExact (handle env s e).transactions) h ↔
      (system env).Always ListsSingleTransfers h := by
  have hlisted (s : State) (hs : ∃ n, Listed n s.transactions) (e : Event) :
      ∃ n, Listed n (handle env s e).transactions := by
    obtain ⟨n, hn⟩ := hs
    cases e with
    | transactions e => exact hn.handle _ e
    | _ => exact ⟨n, hn⟩
  have hstep (s : State) (e : Event)
      (hs : (∃ n, Listed n s.transactions) ∧ RangesExact s.transactions) :
      RangesExact (handle env s e).transactions ↔ ListsSingleTransfers s e := by
    obtain ⟨⟨n, hn⟩, hexact⟩ := hs
    cases e with
    | transactions e => exact rangesExact_handle_iff hn hexact s.wallet e
    | _ => exact iff_of_true hexact trivial
  exact EventSystem.always_iff_of_invariant (P := fun _ _ => True)
    (I := fun s => (∃ n, Listed n s.transactions) ∧ RangesExact s.transactions)
    ⟨⟨0, listed_empty⟩, listed_empty.rangesExact_iff.mpr fun _ hk => absurd hk (Nat.not_lt_zero _)⟩
    (fun s e hs _ hsingle => ⟨hlisted s hs.1 e, (hstep s e hs).mpr hsingle⟩)
    (fun s e hs _ => hstep s e hs) (EventSystem.Always.of_forall (fun _ _ => trivial) h)

/-- A received transaction with the given number of transfers. -/
def plainTransaction (transfers : ℕ) : WalletTransaction where
  state := .succeeded
  timestamp := 0
  blockHeight := 1
  hash := []
  totalAmount := 0
  fee := 0
  isBase := false
  extra := []
  messages := []
  firstDepositId := WALLET_INVALID_DEPOSIT_ID
  depositCount := 0
  transfers := List.replicate transfers WalletTransfer.default

/-- The only transaction of a wallet has two transfers: it has one row, and its entry and its
updates claim a second one. -/
theorem two_transfers_range :
    let env := Environment.offline
    let wallet : Wallet := ⟨[plainTransaction 2], [], by decide, by decide⟩
    let h : List Event := [.transactions .reloadWalletTransactions, .wallet (some wallet)]
    let m := ((system env).after h).transactions
    (system env).Admissible h ∧ m.rowCount = 1 ∧ m.m_transactionRow.lookup 0 = some (0, 2) ∧
      (m.updateWalletTransaction 0).announces 1 ∧ ¬RangesExact m := by
  intro env wallet h m
  have hvalue : m.m_transactionRow.value 0 = (0, 2) := rfl
  refine ⟨⟨trivial, trivial, trivial⟩, rfl, rfl, (announces_update hvalue 1).mpr (by decide),
    fun hexact => ?_⟩
  obtain ⟨transfer, hrow⟩ := ((hexact 0).1 (0, 2) rfl 1).mp (by decide)
  cases hrow

end ConcealDesktop.Models
