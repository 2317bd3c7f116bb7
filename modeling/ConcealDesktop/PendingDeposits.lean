import ConcealDesktop.DepositRows
import ConcealDesktop.Library.KeyedLists

/-! The pending rows of DepositModel beside its real rows. A submitted deposit is shown by a pending
row until an update about its confirmed transaction arrives, and by a real row from the first
event after the wallet has registered it. Only the update removes a pending row before it looks
for new deposits, so the order of the events decides whether a deposit is shown twice. -/
namespace ConcealDesktop.PendingDeposits
open EventDriven DepositModel WalletAdapter KeyedLists

/-- The hash of a transaction as the pending rows spell it. -/
def hashUpper (t : WalletTransaction) : StdString := QByteArray.toUpper (QByteArray.toHex t.hash)

def Confirmed (t : WalletTransaction) : Prop :=
  t.blockHeight ≠ WALLET_UNCONFIRMED_TRANSACTION_HEIGHT

instance (t : WalletTransaction) : Decidable (Confirmed t) := inferInstanceAs (Decidable (_ ≠ _))

/-- The hashes of the transactions that have created the deposits of the wallet. -/
def depositHashes (w : Wallet) : List (Option StdString) :=
  w.deposits.map fun d => (getTransaction (some w) d.creatingTransactionId).map hashUpper

/-- WalletAdapter::findTransactionIdByHashHex, with the id that stays when nothing is found. -/
def findTransactionIdByHashHex (w : Wallet) (hashHexUpper : StdString) : TransactionId :=
  (w.transactions.findIdx? fun t => hashUpper t = QByteArray.toUpper hashHexUpper).getD
    WALLET_INVALID_TRANSACTION_ID

structure State where
  wallet : Wallet
  deposits : DepositModel
  /-- The events on their way to the model. -/
  posted : List DepositModel.Event
  /-- The hashes of the submitted deposits. -/
  submitted : List StdString

inductive Event where
  /-- WalletAdapter::deposit has created the transaction of a deposit. -/
  | deposit (hashHex : StdString) (amount term : ℕ)
  /-- The wallet thread registers deposits, confirms or renumbers transactions, and tells. -/
  | wallet (wallet : Wallet) (notices : List DepositModel.Event)
  /-- One of the posted events reaches the model. -/
  | deliver (i : ℕ)

/-- A deposit keeps its place and its transaction, however the ids are renumbered. A submitted one
is registered once, and new deposits are told of by some event. -/
def Advances (s : State) (w : Wallet) (notices : List DepositModel.Event) : Prop :=
  depositHashes s.wallet <+: depositHashes w ∧
    (∀ hash ∈ s.submitted, (depositHashes w).count (some hash) ≤ 1) ∧
    (∀ e ∈ notices, e.syncs = true) ∧
    ((depositHashes s.wallet).length < (depositHashes w).length → notices ≠ [])

instance (s : State) (w : Wallet) (notices : List DepositModel.Event) :
    Decidable (Advances s w notices) := by
  unfold Advances
  infer_instance

def enabled (s : State) : Event → Prop
  | .deposit hashHex _ _ => QByteArray.toUpper hashHex ∉ s.submitted ∧
      some (QByteArray.toUpper hashHex) ∉ depositHashes s.wallet
  | .wallet w notices => Advances s w notices
  | .deliver i => i < s.posted.length

instance decidableEnabled (s : State) : (e : Event) → Decidable (enabled s e)
  | .deposit hashHex _ _ => inferInstanceAs (Decidable (QByteArray.toUpper hashHex ∉ s.submitted ∧
      some (QByteArray.toUpper hashHex) ∉ depositHashes s.wallet))
  | .wallet w notices => inferInstanceAs (Decidable (Advances s w notices))
  | .deliver i => inferInstanceAs (Decidable (i < s.posted.length))

section Runs

variable (env : Environment) (transactions : TransactionsModel)

def handle (s : State) : Event → State
  | .deposit hashHex amount term =>
    let qHash := QByteArray.toUpper hashHex
    { s with
      posted := s.posted ++
        [.walletDepositPending (findTransactionIdByHashHex s.wallet qHash) qHash amount term]
      submitted := qHash :: s.submitted }
  | .wallet w notices => { s with wallet := w, posted := s.posted ++ notices }
  | .deliver i =>
    match s.posted[i]? with
    | some e =>
      { s with
        deposits := (s.deposits.handle env (some s.wallet) transactions e).1
        posted := s.posted.eraseIdx i }
    | none => s

/-- A wallet is open and its deposits are listed. -/
def system (w : Wallet) : EventSystem State Event where
  init := ⟨w, (DepositModel.initial.reloadWalletDeposits (some w)).1, [], []⟩
  enabled := enabled
  handle := handle env transactions

instance (w : Wallet) (s : State) (e : Event) :
    Decidable ((system env transactions w).enabled s e) := decidableEnabled s e

end Runs

/-! ### What is to hold -/

def pendingHashes (s : State) : List StdString :=
  s.deposits.m_pendingDeposits.map (·.transactionHash)

/-- The transactions of the deposits that have a real row, in the order of the rows. -/
def listed (s : State) : List (Option StdString) :=
  (depositHashes s.wallet).take s.deposits.m_depositCount

/-- The transactions of the registered deposits without a real row. -/
def unlisted (s : State) : List (Option StdString) :=
  (depositHashes s.wallet).drop s.deposits.m_depositCount

/-- The rows, pending or real, that show the deposit of a transaction. -/
def rowsOf (s : State) (hash : StdString) : ℕ :=
  (pendingHashes s).count hash + (listed s).count (some hash)

def ShownOnce (s : State) : Prop := ∀ hash ∈ s.submitted, rowsOf s hash ≤ 1

/-- The event tells of the confirmed transaction with the hash. -/
def Brings (w : Wallet) (hash : StdString) : DepositModel.Event → Prop
  | .transactionUpdated id =>
    ∃ t ∈ getTransaction (some w) id, Confirmed t ∧ hashUpper t = hash
  | _ => False

/-- A pending row goes away only when the confirmation of its own transaction is delivered. -/
def RemovesOwn (env : Environment) (transactions : TransactionsModel) (s : State) (e : Event) :
    Prop :=
  ∀ pending ∈ s.deposits.m_pendingDeposits,
    pending ∉ (handle env transactions s e).deposits.m_pendingDeposits →
      ∃ i, e = .deliver i ∧ ∃ posted ∈ s.posted[i]?, Brings s.wallet pending.transactionHash posted

/-- Once all events are delivered, every registered deposit is shown by its real row alone. -/
def Settled (s : State) : Prop :=
  s.posted = [] → ∀ hash ∈ s.submitted, some hash ∈ depositHashes s.wallet →
    (pendingHashes s).count hash = 0 ∧ (listed s).count (some hash) = 1

/-! ### The order of the events -/

/-- The pending rows that an update looks at before the row of its transaction: all of them, where
the transaction has none. -/
def passed (s : State) (hash : StdString) : List PendingDepositRow :=
  s.deposits.m_pendingDeposits.reverse.takeWhile (·.transactionHash ≠ hash)

/-- The number of the updated transaction has not been that of another one when a pending row
stored it, or the update does not come to this row. -/
def NumberKept (s : State) : DepositModel.Event → Prop
  | .transactionUpdated id => ∀ t ∈ getTransaction (some s.wallet) id, Confirmed t →
      id ≠ WALLET_INVALID_TRANSACTION_ID →
        ∀ pending ∈ passed s (hashUpper t), pending.transactionId ≠ id
  | _ => True

/-- A pending row arrives before its deposit is listed. An event that lists new deposits finds no
pending row among them but the one that it removes, and where the newest deposit cannot be listed,
another event is still to come. -/
def InOrder (s : State) (rest : List DepositModel.Event) : DepositModel.Event → Prop
  | .walletDepositPending _ hashHex _ _ => some (QByteArray.toUpper hashHex) ∉ listed s
  | e => (s.deposits.m_depositCount = getDepositCount (some s.wallet) ∨
        NewestListable (some s.wallet) ∨ ∃ later ∈ rest, later.syncs = true) ∧
      (NewestListable (some s.wallet) → ∀ hash ∈ pendingHashes s, some hash ∈ unlisted s →
        Brings s.wallet hash e) ∧
      NumberKept s e

def Orderly (s : State) : Event → Prop
  | .deliver i => ∀ e ∈ s.posted[i]?, InOrder s (s.posted.eraseIdx i) e
  | _ => True

instance decidableBrings (w : Wallet) (hash : StdString) :
    (e : DepositModel.Event) → Decidable (Brings w hash e)
  | .transactionUpdated id =>
    inferInstanceAs (Decidable (∃ t ∈ getTransaction (some w) id, Confirmed t ∧ hashUpper t = hash))
  | .reloadWalletDeposits | .transactionCreated _ | .depositsUpdated _
  | .walletDepositPending .. | .walletCloseCompleted => inferInstanceAs (Decidable False)

instance decidableNumberKept (s : State) : (e : DepositModel.Event) → Decidable (NumberKept s e)
  | .transactionUpdated id =>
    inferInstanceAs (Decidable (∀ t ∈ getTransaction (some s.wallet) id, Confirmed t →
      id ≠ WALLET_INVALID_TRANSACTION_ID →
        ∀ pending ∈ passed s (hashUpper t), pending.transactionId ≠ id))
  | .reloadWalletDeposits | .transactionCreated _ | .depositsUpdated _
  | .walletDepositPending .. | .walletCloseCompleted => inferInstanceAs (Decidable True)

instance decidableInOrder (s : State) (rest : List DepositModel.Event) (e : DepositModel.Event) :
    Decidable (InOrder s rest e) := by
  cases e <;> unfold InOrder <;> infer_instance

instance decidableOrderly (s : State) : (e : Event) → Decidable (Orderly s e)
  | .deliver i => inferInstanceAs (Decidable (∀ e ∈ s.posted[i]?,
      InOrder s (s.posted.eraseIdx i) e))
  | .deposit .. | .wallet .. => inferInstanceAs (Decidable True)

/-! ### What one delivery does -/

section Delivery

variable {env : Environment} {transactions : TransactionsModel}

theorem sync_pending (wallet : Option Wallet) (m : DepositModel) :
    (m.syncDepositRowsFromWallet wallet).1.m_pendingDeposits = m.m_pendingDeposits := by
  unfold syncDepositRowsFromWallet appendDeposit
  dsimp only
  split_ifs
  · rfl
  · rfl
  · cases getDeposit wallet (getDepositCount wallet - 1) with
    | none => rfl
    | some deposit => dsimp only; split_ifs <;> rfl

/-- The rows that an update about a transaction leaves pending. -/
def remaining (w : Wallet) (id : TransactionId) (rows : List PendingDepositRow) :
    List PendingDepositRow :=
  match getTransaction (some w) id with
  | none => rows
  | some t =>
    if Confirmed t then eraseLast (PendingDepositRow.matches · id (hashUpper t)) rows else rows

theorem remaining_of_confirmed {w : Wallet} {id : TransactionId} {t : WalletTransaction}
    (ht : t ∈ getTransaction (some w) id) (hconfirmed : Confirmed t)
    (rows : List PendingDepositRow) :
    remaining w id rows = eraseLast (PendingDepositRow.matches · id (hashUpper t)) rows := by
  unfold remaining
  rw [show getTransaction (some w) id = some t from ht]
  exact if_pos hconfirmed

theorem removePending_pending (w : Wallet) (m : DepositModel) (id : TransactionId) :
    (m.removePending (some w) id).1.m_pendingDeposits = remaining w id m.m_pendingDeposits := by
  unfold removePending remaining
  cases getTransaction (some w) id with
  | none => rfl
  | some t =>
    dsimp only
    by_cases hc : t.blockHeight = WALLET_UNCONFIRMED_TRANSACTION_HEIGHT
    · have hno : ¬ Confirmed t := not_not.mpr hc
      rw [if_pos hc, if_neg hno]
    · have hyes : Confirmed t := hc
      rw [if_neg hc, if_pos hyes]
      unfold hashUpper
      cases hfind : m.m_pendingDeposits.reverse.findIdx?
          (PendingDepositRow.matches · id (QByteArray.toUpper (QByteArray.toHex t.hash))) with
      | none => exact (eraseLast_of_findIdx? hfind).symm
      | some fromEnd => exact eraseIdx_eq_eraseLast hfind

/-- The pending rows after an event. -/
def pendingAfter (w : Wallet) (rows : List PendingDepositRow) :
    DepositModel.Event → List PendingDepositRow
  | .transactionUpdated id => remaining w id rows
  | .walletDepositPending id hashHex amount term =>
    rows ++ [⟨id, QByteArray.toUpper hashHex, amount, term⟩]
  | .transactionCreated _ | .depositsUpdated _ => rows
  | .reloadWalletDeposits | .walletCloseCompleted => []

theorem handle_pending (env : Environment) (transactions : TransactionsModel) (w : Wallet)
    (m : DepositModel) (e : DepositModel.Event) :
    (m.handle env (some w) transactions e).1.m_pendingDeposits =
      pendingAfter w m.m_pendingDeposits e := by
  cases e with
  | reloadWalletDeposits =>
    show (m.reloadWalletDeposits (some w)).1.m_pendingDeposits = []
    unfold reloadWalletDeposits
    dsimp only
    split_ifs <;> rfl
  | transactionCreated id => exact sync_pending (some w) m
  | transactionUpdated id =>
    exact (sync_pending (some w) _).trans (removePending_pending w m id)
  | depositsUpdated ids => exact sync_pending (some w) m
  | walletDepositPending id hashHex amount term => rfl
  | walletCloseCompleted => rfl

theorem remaining_sublist (w : Wallet) (id : TransactionId) (rows : List PendingDepositRow) :
    (remaining w id rows).Sublist rows := by
  unfold remaining
  cases getTransaction (some w) id with
  | none => exact List.Sublist.refl rows
  | some t =>
    dsimp only
    split_ifs
    · exact eraseLast_sublist _ rows
    · exact List.Sublist.refl rows

theorem pendingAfter_sublist {e : DepositModel.Event} (he : e.syncs = true) (w : Wallet)
    (rows : List PendingDepositRow) : (pendingAfter w rows e).Sublist rows := by
  cases e with
  | transactionUpdated id => exact remaining_sublist w id rows
  | transactionCreated id => exact List.Sublist.refl rows
  | depositsUpdated ids => exact List.Sublist.refl rows
  | reloadWalletDeposits => cases he
  | walletDepositPending id hashHex amount term => cases he
  | walletCloseCompleted => cases he

variable {s : State}

/-- While the numbers are kept, the row that an update finds is the row of its transaction. -/
theorem NumberKept.hash_eq {id : TransactionId} {t : WalletTransaction}
    {pending : PendingDepositRow} (h : NumberKept s (.transactionUpdated id))
    (ht : t ∈ getTransaction (some s.wallet) id) (hconfirmed : Confirmed t)
    (hfound : s.deposits.m_pendingDeposits.reverse.find?
      (PendingDepositRow.matches · id (hashUpper t)) = some pending) :
    pending.transactionHash = hashUpper t := by
  set own : PendingDepositRow → Bool := fun row => row.transactionHash = hashUpper t
  have hkind : ∀ row, own row = true → PendingDepositRow.matches row id (hashUpper t) = true :=
    fun row hrow => decide_eq_true (Or.inl (of_decide_eq_true hrow))
  have hbefore : ∀ row ∈ s.deposits.m_pendingDeposits.reverse.takeWhile (!own ·),
      PendingDepositRow.matches row id (hashUpper t) = false := by
    intro row hrow
    refine decide_eq_false ?_
    rintro (hhash | ⟨hvalid, hid⟩)
    · have hown : own row = true := decide_eq_true hhash
      have hother := List.mem_takeWhile_imp hrow
      simp only [hown, Bool.not_true, Bool.false_eq_true] at hother
    · refine h t ht hconfirmed (hid ▸ hvalid) row ?_ hid
      unfold passed
      simpa only [decide_not] using hrow
  have hown : own pending = true := find?_of_takeWhile hkind hbefore hfound
  exact of_decide_eq_true hown

/-- The update about the transaction of a pending row leaves no row with its hash. -/
theorem not_mem_pendingAfter {e : DepositModel.Event} {hash : StdString}
    (hkeys : (pendingHashes s).Nodup) (hown : NumberKept s e) (hbrings : Brings s.wallet hash e) :
    hash ∉ (pendingAfter s.wallet s.deposits.m_pendingDeposits e).map (·.transactionHash) := by
  cases e with
  | transactionUpdated id =>
    obtain ⟨t, ht, hconfirmed, rfl⟩ := hbrings
    have hrows := remaining_of_confirmed ht hconfirmed s.deposits.m_pendingDeposits
    intro hmem
    obtain ⟨pending, hpending, hhash⟩ := List.mem_map.mp
      ((pendingAfter_sublist (e := .transactionUpdated id) rfl s.wallet _).map _ |>.subset hmem)
    have hmatch : PendingDepositRow.matches pending id (hashUpper t) = true :=
      decide_eq_true (Or.inl hhash)
    have hsome : (s.deposits.m_pendingDeposits.reverse.find?
        (PendingDepositRow.matches · id (hashUpper t))).isSome :=
      List.find?_isSome.mpr ⟨pending, List.mem_reverse.mpr hpending, hmatch⟩
    obtain ⟨found, hfound⟩ := Option.isSome_iff_exists.mp hsome
    have hfoundHash : found.transactionHash = hashUpper t := hown.hash_eq ht hconfirmed hfound
    have hgone := key_not_mem_eraseLast hkeys hfound
    rw [← hrows, hfoundHash] at hgone
    exact hgone hmem
  | reloadWalletDeposits => cases hbrings
  | transactionCreated id => cases hbrings
  | depositsUpdated ids => cases hbrings
  | walletDepositPending id hashHex amount term => cases hbrings
  | walletCloseCompleted => cases hbrings

/-- Conversely an event that removes a pending row is the update about its transaction. -/
theorem brings_of_removed {e : DepositModel.Event} {pending : PendingDepositRow}
    (he : e.syncs = true) (hown : NumberKept s e)
    (hbefore : pending ∈ s.deposits.m_pendingDeposits)
    (hafter : pending ∉ pendingAfter s.wallet s.deposits.m_pendingDeposits e) :
    Brings s.wallet pending.transactionHash e := by
  cases e with
  | transactionUpdated id =>
    change pending ∉ remaining s.wallet id s.deposits.m_pendingDeposits at hafter
    cases ht : getTransaction (some s.wallet) id with
    | none =>
      unfold remaining at hafter
      rw [ht] at hafter
      exact absurd hbefore hafter
    | some t =>
      by_cases hconfirmed : Confirmed t
      · rw [remaining_of_confirmed ht hconfirmed] at hafter
        have hfound := find?_of_erased hbefore hafter
        exact ⟨t, ht, hconfirmed, (hown.hash_eq ht hconfirmed hfound).symm⟩
      · unfold remaining at hafter
        rw [ht] at hafter
        have hkept : pending ∉ s.deposits.m_pendingDeposits := by
          simpa only [if_neg hconfirmed] using hafter
        exact absurd hbefore hkept
  | transactionCreated id => exact absurd hbefore hafter
  | depositsUpdated ids => exact absurd hbefore hafter
  | reloadWalletDeposits => cases he
  | walletDepositPending id hashHex amount term => cases he
  | walletCloseCompleted => cases he

end Delivery

/-! ### The invariant -/

/-- The pending row that an event brings, by its hash. -/
def postedHash : DepositModel.Event → Option StdString
  | .walletDepositPending _ hashHex _ _ => some (QByteArray.toUpper hashHex)
  | _ => none

/-- The hashes that have a pending row or will have one. -/
def awaited (s : State) : List StdString := pendingHashes s ++ s.posted.filterMap postedHash

structure Inv (s : State) : Prop where
  distinct : (awaited s).Nodup
  known : ∀ hash ∈ awaited s, hash ∈ s.submitted
  apart : ∀ hash ∈ pendingHashes s, some hash ∉ listed s
  once : ∀ hash ∈ s.submitted, (depositHashes s.wallet).count (some hash) ≤ 1
  counted : s.deposits.m_depositCount ≤ getDepositCount (some s.wallet)
  kinds : ∀ e ∈ s.posted, e.syncs = true ∨
    ∃ id hashHex amount term, e = .walletDepositPending id hashHex amount term
  announced : s.deposits.m_depositCount < getDepositCount (some s.wallet) →
    ∃ e ∈ s.posted, e.syncs = true

theorem length_depositHashes (w : Wallet) :
    (depositHashes w).length = getDepositCount (some w) := List.length_map _

theorem postedHash_of_syncs {e : DepositModel.Event} (he : e.syncs = true) :
    postedHash e = none := by
  cases e <;> first | rfl | cases he

namespace Inv

variable {s : State}

theorem pending_nodup (h : Inv s) : (pendingHashes s).Nodup :=
  (List.sublist_append_left _ _).nodup h.distinct

/-- A listed deposit has no pending row, and neither kind of row comes twice. -/
theorem shownOnce (h : Inv s) : ShownOnce s := by
  intro hash hsubmitted
  have hreal : (listed s).count (some hash) ≤ 1 :=
    ((List.take_sublist _ _).count_le (some hash)).trans (h.once hash hsubmitted)
  have hpending : (pendingHashes s).count hash ≤ 1 :=
    List.nodup_iff_count_le_one.mp h.pending_nodup hash
  unfold rowsOf
  by_cases hmem : hash ∈ pendingHashes s
  · have hnone : (listed s).count (some hash) = 0 := List.count_eq_zero.mpr (h.apart hash hmem)
    omega
  · have hnone : (pendingHashes s).count hash = 0 := List.count_eq_zero.mpr hmem
    omega

/-- With nothing on its way all deposits are listed. -/
theorem settled (h : Inv s) : Settled s := by
  intro hempty hash hsubmitted hregistered
  have hall : getDepositCount (some s.wallet) ≤ s.deposits.m_depositCount := by
    by_contra hlt
    obtain ⟨e, he, _⟩ := h.announced (not_le.mp hlt)
    rw [hempty] at he
    cases he
  have hlisted : listed s = depositHashes s.wallet := by
    apply List.take_of_length_le
    rw [length_depositHashes]
    exact hall
  have hmem : some hash ∈ listed s := hlisted ▸ hregistered
  constructor
  · apply List.count_eq_zero.mpr
    intro hpending
    exact h.apart hash hpending hmem
  · have hle := h.once hash hsubmitted
    have hpos := List.count_pos_iff.mpr hregistered
    rw [hlisted]
    omega

end Inv

section Steps

variable {env : Environment} {transactions : TransactionsModel} {s : State}

theorem inv_init (w : Wallet) : Inv (system env transactions w).init := by
  have hcount : (system env transactions w).init.deposits.m_depositCount =
      getDepositCount (some w) := reloadWalletDeposits_count (some w) DepositModel.initial
  have hpending : pendingHashes (system env transactions w).init = [] :=
    congrArg (List.map _) (handle_pending env transactions w DepositModel.initial
      .reloadWalletDeposits)
  have hawaited : awaited (system env transactions w).init = [] := by
    unfold awaited
    rw [hpending]
    rfl
  constructor
  · rw [hawaited]
    exact List.nodup_nil
  · rw [hawaited]
    intro hash hmem
    cases hmem
  · rw [hpending]
    intro hash hmem
    cases hmem
  · intro hash hmem
    cases hmem
  · exact hcount.le
  · intro e he
    cases he
  · intro hlt
    exact absurd hcount hlt.ne

/-- A new hash is awaited, and no deposit has it yet. -/
theorem inv_deposit (hashHex : StdString) (amount term : ℕ) (h : Inv s)
    (he : enabled s (.deposit hashHex amount term)) :
    Inv (handle env transactions s (.deposit hashHex amount term)) := by
  obtain ⟨hnew, hunregistered⟩ := he
  have hawaited : awaited (handle env transactions s (.deposit hashHex amount term)) =
      awaited s ++ [QByteArray.toUpper hashHex] := by
    unfold awaited handle
    rw [List.filterMap_append, ← List.append_assoc]
    congr 1
    exact congrArg (fun hash => [hash]) (QByteArray.toUpper_toUpper hashHex)
  constructor
  · rw [hawaited, (List.perm_append_singleton _ _).nodup_iff, List.nodup_cons]
    exact ⟨fun hmem => hnew (h.known _ hmem), h.distinct⟩
  · rw [hawaited]
    intro hash hmem
    rcases List.mem_append.mp hmem with hmem | hmem
    · exact List.mem_cons_of_mem _ (h.known hash hmem)
    · rw [List.mem_singleton.mp hmem]
      exact List.mem_cons_self
  · exact h.apart
  · intro hash hmem
    rcases List.mem_cons.mp hmem with rfl | hmem
    · have hnone : (depositHashes s.wallet).count (some (QByteArray.toUpper hashHex)) = 0 :=
        List.count_eq_zero.mpr hunregistered
      exact hnone.trans_le (Nat.zero_le 1)
    · exact h.once hash hmem
  · exact h.counted
  · intro e hmem
    rcases List.mem_append.mp hmem with hmem | hmem
    · exact h.kinds e hmem
    · exact .inr ⟨_, _, _, _, List.mem_singleton.mp hmem⟩
  · intro hlt
    obtain ⟨e, hmem, hsync⟩ := h.announced hlt
    exact ⟨e, List.mem_append_left _ hmem, hsync⟩

/-- The listed deposits stay the same, whatever is registered after them. -/
theorem listed_wallet {w : Wallet} (hfirst : depositHashes s.wallet <+: depositHashes w)
    (hcounted : s.deposits.m_depositCount ≤ getDepositCount (some s.wallet)) :
    (depositHashes w).take s.deposits.m_depositCount = listed s := by
  obtain ⟨new, hnew⟩ := hfirst
  unfold listed
  rw [← hnew, List.take_append_of_le_length]
  rw [length_depositHashes]
  exact hcounted

theorem inv_wallet {w : Wallet} {notices : List DepositModel.Event} (h : Inv s)
    (he : Advances s w notices) : Inv (handle env transactions s (.wallet w notices)) := by
  obtain ⟨hfirst, honce, hsyncs, htold⟩ := he
  have hlisted : listed (handle env transactions s (.wallet w notices)) = listed s :=
    listed_wallet hfirst h.counted
  have hnone : notices.filterMap postedHash = [] := by
    apply List.filterMap_eq_nil_iff.mpr
    intro e hmem
    exact postedHash_of_syncs (hsyncs e hmem)
  have hawaited : awaited (handle env transactions s (.wallet w notices)) = awaited s := by
    unfold awaited handle
    rw [List.filterMap_append, hnone, List.append_nil]
    rfl
  have hgrow : getDepositCount (some s.wallet) ≤ getDepositCount (some w) := by
    rw [← length_depositHashes, ← length_depositHashes]
    exact hfirst.length_le
  constructor
  · rw [hawaited]
    exact h.distinct
  · rw [hawaited]
    exact h.known
  · rw [hlisted]
    exact h.apart
  · exact honce
  · exact h.counted.trans hgrow
  · intro e hmem
    rcases List.mem_append.mp hmem with hmem | hmem
    · exact h.kinds e hmem
    · exact .inl (hsyncs e hmem)
  · intro hlt
    by_cases hold : s.deposits.m_depositCount < getDepositCount (some s.wallet)
    · obtain ⟨e, hmem, hsync⟩ := h.announced hold
      exact ⟨e, List.mem_append_left _ hmem, hsync⟩
    · -- All earlier deposits are listed, so this change registers one and tells of it.
      have hnew : (depositHashes s.wallet).length < (depositHashes w).length := by
        rw [length_depositHashes, length_depositHashes]
        exact (not_lt.mp hold).trans_lt hlt
      obtain ⟨e, hmem⟩ := List.exists_mem_of_ne_nil _ (htold hnew)
      exact ⟨e, List.mem_append_right _ hmem, hsyncs e hmem⟩

theorem handle_deliver {i : ℕ} {e : DepositModel.Event} (he : s.posted[i]? = some e) :
    handle env transactions s (.deliver i) =
      { s with
        deposits := (s.deposits.handle env (some s.wallet) transactions e).1
        posted := s.posted.eraseIdx i } := by
  unfold handle
  dsimp only
  rw [he]

/-- The delivered event is one of the posted, and the others stay. -/
theorem posted_perm {i : ℕ} {e : DepositModel.Event} (he : s.posted[i]? = some e) :
    (e :: s.posted.eraseIdx i).Perm s.posted := by
  obtain ⟨hi, rfl⟩ := List.getElem?_eq_some_iff.mp he
  exact List.getElem_cons_eraseIdx_perm hi

/-- A pending row that arrives was awaited already. -/
theorem inv_deliver_pending {i : ℕ} {id : TransactionId} {hashHex : StdString} {amount term : ℕ}
    (h : Inv s) (he : s.posted[i]? = some (.walletDepositPending id hashHex amount term))
    (hunlisted : some (QByteArray.toUpper hashHex) ∉ listed s) :
    Inv (handle env transactions s (.deliver i)) := by
  have hposted := posted_perm he
  have hpending : pendingHashes (handle env transactions s (.deliver i)) =
      pendingHashes s ++ [QByteArray.toUpper hashHex] := by
    rw [handle_deliver he]
    exact List.map_append
  have hlisted : listed (handle env transactions s (.deliver i)) = listed s := by
    rw [handle_deliver he]
    rfl
  have hawaited : (awaited (handle env transactions s (.deliver i))).Perm (awaited s) := by
    unfold awaited
    rw [hpending, handle_deliver he, List.append_assoc]
    exact (hposted.filterMap postedHash).append_left (pendingHashes s)
  constructor
  · exact hawaited.nodup_iff.mpr h.distinct
  · rw [handle_deliver he] at hawaited ⊢
    intro hash hmem
    exact h.known hash (hawaited.mem_iff.mp hmem)
  · rw [hpending, hlisted]
    intro hash hmem
    rcases List.mem_append.mp hmem with hmem | hmem
    · exact h.apart hash hmem
    · rw [List.mem_singleton.mp hmem]
      exact hunlisted
  · rw [handle_deliver he]
    exact h.once
  · rw [handle_deliver he]
    exact h.counted
  · rw [handle_deliver he]
    intro e hmem
    exact h.kinds e (List.mem_of_mem_eraseIdx hmem)
  · rw [handle_deliver he]
    intro hlt
    obtain ⟨e, hmem, hsync⟩ := h.announced hlt
    rcases List.mem_cons.mp (hposted.mem_iff.mpr hmem) with rfl | hrest
    · cases hsync
    · exact ⟨e, hrest, hsync⟩

/-- No row that an event leaves pending is among the deposits that it leaves listed. -/
theorem sync_apart {e : DepositModel.Event} (h : Inv s) (hsync : e.syncs = true)
    (hfree : NewestListable (some s.wallet) → ∀ hash ∈ pendingHashes s, some hash ∈ unlisted s →
      Brings s.wallet hash e)
    (hown : NumberKept s e) {hash : StdString}
    (hmem : hash ∈ (pendingAfter s.wallet s.deposits.m_pendingDeposits e).map (·.transactionHash)) :
    some hash ∉ (depositHashes s.wallet).take
      (syncedCount (some s.wallet) s.deposits.m_depositCount) := by
  intro hlisted
  have hbefore : hash ∈ pendingHashes s :=
    ((pendingAfter_sublist hsync s.wallet _).map _).subset hmem
  unfold syncedCount at hlisted
  split_ifs at hlisted with hnew
  · have hall : some hash ∈ listed s ++ unlisted s := by
      unfold listed unlisted
      rw [List.take_append_drop]
      exact List.mem_of_mem_take hlisted
    rcases List.mem_append.mp hall with hold | hunlisted
    · exact h.apart hash hbefore hold
    · exact not_mem_pendingAfter h.pending_nodup hown (hfree hnew.2 hash hbefore hunlisted) hmem
  · exact h.apart hash hbefore hlisted

/-- An event that syncs lists the new deposits, and takes away the pending row among them. -/
theorem inv_deliver_sync {i : ℕ} {e : DepositModel.Event} (h : Inv s)
    (he : s.posted[i]? = some e) (hsync : e.syncs = true)
    (hlater : s.deposits.m_depositCount = getDepositCount (some s.wallet) ∨
      NewestListable (some s.wallet) ∨ ∃ later ∈ s.posted.eraseIdx i, later.syncs = true)
    (hfree : NewestListable (some s.wallet) → ∀ hash ∈ pendingHashes s, some hash ∈ unlisted s →
      Brings s.wallet hash e)
    (hown : NumberKept s e) : Inv (handle env transactions s (.deliver i)) := by
  have hcount : (handle env transactions s (.deliver i)).deposits.m_depositCount =
      syncedCount (some s.wallet) s.deposits.m_depositCount := by
    rw [handle_deliver he]
    exact (handle_count env _ transactions s.deposits e).trans (countAfter_of_syncs hsync _ _)
  have hpending : pendingHashes (handle env transactions s (.deliver i)) =
      (pendingAfter s.wallet s.deposits.m_pendingDeposits e).map (·.transactionHash) := by
    rw [handle_deliver he]
    exact congrArg _ (handle_pending env transactions s.wallet s.deposits e)
  have hwallet : (handle env transactions s (.deliver i)).wallet = s.wallet := by
    rw [handle_deliver he]
  have hsub : (pendingHashes (handle env transactions s (.deliver i))).Sublist
      (pendingHashes s) := by
    rw [hpending]
    exact (pendingAfter_sublist hsync _ _).map _
  have hawaited : (awaited (handle env transactions s (.deliver i))).Sublist (awaited s) := by
    unfold awaited
    rw [handle_deliver he] at hsub ⊢
    exact hsub.append ((List.eraseIdx_sublist _ _).filterMap postedHash)
  constructor
  · exact hawaited.nodup h.distinct
  · rw [handle_deliver he] at hawaited ⊢
    intro hash hmem
    exact h.known hash (hawaited.subset hmem)
  · unfold listed
    rw [hcount, hwallet, hpending]
    intro hash hmem
    exact sync_apart h hsync hfree hown hmem
  · rw [handle_deliver he]
    exact h.once
  · rw [hcount, hwallet]
    exact syncedCount_le h.counted
  · rw [handle_deliver he]
    intro later hmem
    exact h.kinds later (List.mem_of_mem_eraseIdx hmem)
  · rw [hcount, hwallet]
    intro hlt
    have hnot := fun hdone => hlt.ne ((syncedCount_eq_iff h.counted).mpr hdone)
    rw [handle_deliver he]
    rcases hlater with hdone | hlistable | hlater
    · exact absurd (.inl hdone) hnot
    · exact absurd (.inr hlistable) hnot
    · exact hlater

theorem InOrder.of_syncs {e : DepositModel.Event} {rest : List DepositModel.Event}
    (h : InOrder s rest e) (hsync : e.syncs = true) :
    (s.deposits.m_depositCount = getDepositCount (some s.wallet) ∨
        NewestListable (some s.wallet) ∨ ∃ later ∈ rest, later.syncs = true) ∧
      (NewestListable (some s.wallet) → ∀ hash ∈ pendingHashes s, some hash ∈ unlisted s →
        Brings s.wallet hash e) ∧
      NumberKept s e := by
  cases e with
  | transactionCreated id => exact h
  | transactionUpdated id => exact h
  | depositsUpdated ids => exact h
  | reloadWalletDeposits => cases hsync
  | walletDepositPending id hashHex amount term => cases hsync
  | walletCloseCompleted => cases hsync

theorem inv_step (e : Event) (h : Inv s) (he : enabled s e) (horder : Orderly s e) :
    Inv (handle env transactions s e) := by
  cases e with
  | deposit hashHex amount term => exact inv_deposit hashHex amount term h he
  | wallet w notices => exact inv_wallet h he
  | deliver i =>
    have hi : s.posted[i]? = some s.posted[i] := List.getElem?_eq_getElem he
    have hin : InOrder s (s.posted.eraseIdx i) s.posted[i] := horder _ hi
    rcases h.kinds _ (List.getElem_mem he) with hsync | ⟨id, hashHex, amount, term, hposted⟩
    · obtain ⟨hlater, hfree, hown⟩ := hin.of_syncs hsync
      exact inv_deliver_sync h hi hsync hlater hfree hown
    · rw [hposted] at hi hin
      exact inv_deliver_pending h hi hin

/-- Only a delivery touches the pending rows, and one that appends a row removes none. -/
theorem removesOwn_step (env : Environment) (transactions : TransactionsModel) (e : Event)
    (h : Inv s) (he : enabled s e) (horder : Orderly s e) : RemovesOwn env transactions s e := by
  intro pending hbefore hafter
  cases e with
  | deposit hashHex amount term => exact absurd hbefore hafter
  | wallet w notices => exact absurd hbefore hafter
  | deliver i =>
    have hi : s.posted[i]? = some s.posted[i] := List.getElem?_eq_getElem he
    have hin : InOrder s (s.posted.eraseIdx i) s.posted[i] := horder _ hi
    rw [handle_deliver hi] at hafter
    have hgone : pending ∉ pendingAfter s.wallet s.deposits.m_pendingDeposits s.posted[i] := by
      rw [← handle_pending env transactions]
      exact hafter
    refine ⟨i, rfl, s.posted[i], hi, ?_⟩
    rcases h.kinds _ (List.getElem_mem he) with hsync | ⟨id, hashHex, amount, term, hposted⟩
    · exact brings_of_removed hsync (hin.of_syncs hsync).2.2 hbefore hgone
    · rw [hposted] at hgone
      exact absurd (List.mem_append_left _ hbefore) hgone

end Steps

/-- In every run whose events arrive in order, a deposit is shown by one row at most, a pending row
is removed by the confirmation of its own transaction only, and in the end the real row of every
registered deposit is the row that shows it. -/
theorem deposits_shownOnce (env : Environment) (transactions : TransactionsModel) (w : Wallet)
    (h : List Event) (hadmissible : (system env transactions w).Admissible h)
    (horder : (system env transactions w).Always Orderly h) :
    ShownOnce ((system env transactions w).after h) ∧
      (system env transactions w).Always (RemovesOwn env transactions) h ∧
      Settled ((system env transactions w).after h) := by
  have hinit : Inv (system env transactions w).init := inv_init w
  have hstep (s : State) (e : Event) (hs : Inv s) (he : enabled s e ∧ Orderly s e) :
      Inv (handle env transactions s e) := inv_step e hs he.1 he.2
  have hsteps := hadmissible.and horder
  have hinv := EventSystem.Always.invariant hinit hstep hsteps
  have hremoves := hsteps.of_invariant hinit hstep
    (fun s e hs he => removesOwn_step env transactions e hs he.1 he.2)
  exact ⟨hinv.shownOnce, hremoves, hinv.settled⟩

/-- A wallet whose transactions are given by their first hash byte and their height. -/
def walletWith (transactions : List (UInt8 × ℕ)) (deposits : List Deposit)
    (htransactions : transactions.length < 2 ^ 31) (hdeposits : deposits.length < 2 ^ 31) :
    Wallet :=
  ⟨transactions.map fun t =>
      ⟨.succeeded, 0, t.2, List.replicate 32 t.1, 0, 0, false, [], [], 0, 1, []⟩,
    deposits, by rwa [List.length_map], hdeposits⟩

/-- The deposit that transaction `id` has created. -/
def lockedBy (id : TransactionId) : Deposit := ⟨1, 21900, true, id, WALLET_INVALID_TRANSACTION_ID⟩

def hashHexOf (byte : UInt8) : StdString := QByteArray.toHex (List.replicate 32 byte)

/-- A deposit is submitted, registered by its confirmation and told of by the update alone. -/
theorem deposits_shownOnce_confirmed :
    let before := walletWith [] [] (by decide) (by decide)
    let after := walletWith [(0xab, 7)] [lockedBy 0] (by decide) (by decide)
    let M := system Environment.offline TransactionsModel.empty before
    let h : List Event := [.deliver 0, .wallet after [.transactionUpdated 0], .deliver 0,
      .deposit (hashHexOf 0xab) 1 21900]
    M.Admissible h ∧ rowsOf (M.after h) (QByteArray.toUpper (hashHexOf 0xab)) = 1 ∧
      ShownOnce (M.after h) := by
  intro before after M h
  have hadmissible : M.Admissible h := by decide
  have horder : M.Always Orderly h := by decide
  exact ⟨hadmissible, by decide, (deposits_shownOnce _ _ before h hadmissible horder).1⟩

/-- A created signal lists a deposit beside its pending row. A rescan gives the id of a pending row
to another transaction, and the update about that one removes the row. -/
theorem deposits_shownTwice_and_lost :
    let M := system Environment.offline TransactionsModel.empty
    let hash := QByteArray.toUpper (hashHexOf 0xab)
    let empty := walletWith [] [] (by decide) (by decide)
    let registered := walletWith [(0xab, WALLET_UNCONFIRMED_TRANSACTION_HEIGHT)] [lockedBy 0]
      (by decide) (by decide)
    let twice : List Event := [.deliver 0, .wallet registered [.transactionCreated 0], .deliver 0,
      .deposit (hashHexOf 0xab) 1 21900]
    let sent := walletWith [(0xab, WALLET_UNCONFIRMED_TRANSACTION_HEIGHT), (0xcd, 7)] []
      (by decide) (by decide)
    let rescanned := walletWith [(0xcd, 7), (0xab, WALLET_UNCONFIRMED_TRANSACTION_HEIGHT)] []
      (by decide) (by decide)
    let lost : List Event := [.deliver 0, .wallet rescanned [.transactionUpdated 0], .deliver 0,
      .deposit (hashHexOf 0xab) 1 21900]
    (M empty).Admissible twice ∧ rowsOf ((M empty).after twice) hash = 2 ∧
      ¬ ShownOnce ((M empty).after twice) ∧
      (M sent).Admissible lost ∧ pendingHashes ((M sent).after lost.tail) = [hash] ∧
      pendingHashes ((M sent).after lost) = [] ∧
      ¬ (M sent).Always (RemovesOwn Environment.offline TransactionsModel.empty) lost := by
  intro M hash empty registered twice sent rescanned lost
  have hrows : rowsOf ((M empty).after twice) hash = 2 := by decide
  have hsubmitted : hash ∈ ((M empty).after twice).submitted := by decide
  have htwice : ¬ ShownOnce ((M empty).after twice) := by
    intro hshown
    exact absurd (hshown hash hsubmitted) (by rw [hrows]; decide)
  have hlost : ¬ RemovesOwn Environment.offline TransactionsModel.empty
      ((M sent).after lost.tail) (.deliver 0) := by
    intro hremoves
    obtain ⟨i, hi, e, he, hbrings⟩ := hremoves ⟨0, hash, 1, 21900⟩ (by decide) (by decide)
    cases hi
    have hupdate : e = .transactionUpdated 0 := by
      have hposted : ((M sent).after lost.tail).posted[0]? = some (.transactionUpdated 0) := rfl
      rw [hposted] at he
      exact (Option.some.inj he).symm
    rw [hupdate] at hbrings
    exact absurd hbrings (by decide)
  exact ⟨by decide, hrows, htwice, by decide, by decide, by decide, fun halways => hlost halways.1⟩

end ConcealDesktop.PendingDeposits
