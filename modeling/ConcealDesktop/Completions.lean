import ConcealDesktop.Library.EventSystem
import ConcealDesktop.Wallet

/-! The completion of submitted operations in WalletAdapter. Each kind of operation keeps the id of
its transaction in one atomic slot, and the observer callback of the wallet core finds the kind
of a completed transaction by comparing its id with the slots. The callback comes from the
wallet thread, so it can arrive while the submitting call has not stored the id yet. -/
namespace ConcealDesktop.WalletAdapter
open EventDriven

inductive Operation where
  | sendTransaction
  | sendMessage
  | deposit
  | withdrawUnlockedDeposits
  | optimizeWallet
  deriving DecidableEq

structure Slots where
  m_sentTransactionId : TransactionId
  m_sentMessageId : TransactionId
  m_depositId : TransactionId
  m_depositWithdrawalId : TransactionId
  deriving DecidableEq

/-- The signals about submitted operations, each with its transaction id and error code. -/
inductive Signal where
  | walletSendTransactionCompleted (id : TransactionId) (error : ℤ)
  | walletSendMessageCompleted (id : TransactionId) (error : ℤ)
  | walletCreateDepositCompleted (id : TransactionId) (error : ℤ)
  | walletWithdrawDepositCompleted (id : TransactionId) (error : ℤ)
  | walletDepositPending (id : TransactionId)
  | updateBlockStatusTextWithDelay
  deriving DecidableEq

/-- WalletAdapter::sendTransactionCompleted, the observer callback. -/
def sendTransactionCompleted (s : Slots) (id : TransactionId) (error : ℤ) : Slots × List Signal :=
  let sent := Signal.walletSendTransactionCompleted id error
  if id = s.m_sentTransactionId then
    ({ s with m_sentTransactionId := WALLET_INVALID_TRANSACTION_ID },
      [sent, .updateBlockStatusTextWithDelay])
  else if id = s.m_sentMessageId then
    ({ s with m_sentMessageId := WALLET_INVALID_TRANSACTION_ID },
      [sent, .walletSendMessageCompleted id error, .updateBlockStatusTextWithDelay])
  else if id = s.m_depositId then
    ({ s with m_depositId := WALLET_INVALID_TRANSACTION_ID },
      [sent, .walletCreateDepositCompleted id error, .updateBlockStatusTextWithDelay])
  else if id = s.m_depositWithdrawalId then
    ({ s with m_depositWithdrawalId := WALLET_INVALID_TRANSACTION_ID },
      [sent, .walletWithdrawDepositCompleted id error, .updateBlockStatusTextWithDelay])
  else (s, [sent, .updateBlockStatusTextWithDelay])

/-- The end of a submitting call: the id is stored and the call's own signals are emitted.
deposit and withdrawUnlockedDeposits look the id up by the hash of the transaction, which may
not be found; deposit reports its success at once. -/
def storeId (s : Slots) (op : Operation) (id : TransactionId) (found : Bool) :
    Slots × List Signal :=
  let lookedUp := if found then id else WALLET_INVALID_TRANSACTION_ID
  match op with
  | .sendTransaction => ({ s with m_sentTransactionId := id }, [])
  | .optimizeWallet => ({ s with m_sentTransactionId := id }, [])
  | .sendMessage => ({ s with m_sentMessageId := id }, [])
  | .deposit => ({ s with m_depositId := lookedUp },
      [.walletDepositPending lookedUp, .walletCreateDepositCompleted lookedUp 0])
  | .withdrawUnlockedDeposits => ({ s with m_depositWithdrawalId := lookedUp }, [])

/-- The signals of a submitting call that throws. -/
def failureSignals (op : Operation) (error : ℤ) : List Signal :=
  match op with
  | .sendTransaction => [.walletSendTransactionCompleted WALLET_INVALID_TRANSACTION_ID error]
  | .deposit => [.walletCreateDepositCompleted WALLET_INVALID_TRANSACTION_ID error]
  | .sendMessage | .withdrawUnlockedDeposits | .optimizeWallet => []

/-- How a group of signals came about: a submitting call returned or threw, or its transaction
completed. -/
inductive Origin where
  | returned
  | threw
  | completed
  deriving DecidableEq

/-- The signals of one handler with the operation, wallet and transaction they are about. -/
structure Emission where
  origin : Origin
  operation : Operation
  wallet : ℕ
  id : TransactionId
  error : ℤ
  signals : List Signal
  deriving DecidableEq

/-- A walletCreateDepositCompletedSignal on its way to OverviewFrame, with what caused it. -/
structure Delivery where
  operation : Operation
  wallet : ℕ
  id : TransactionId
  error : ℤ
  deriving DecidableEq

/-- The adapter with the wallet core behind it and OverviewFrame before it. Wallets are numbered
as they are opened. `call` is a submitting call whose transaction the core has created;
`outstanding` lists the transactions of the open wallet whose callback has not come. -/
structure State where
  slots : Slots
  wallet : ℕ
  isOpen : Bool
  nextId : TransactionId
  call : Option (Operation × TransactionId)
  outstanding : List (TransactionId × Operation)
  emitted : List Emission
  queue : List Delivery
  /-- The deliveries for which createDepositCompleted submitted a remote node fee. -/
  payments : List Delivery

inductive Event where
  | submit (op : Operation)
  | submissionThrows (op : Operation) (error : ℤ)
  | submissionReturns (found : Bool)
  | completes (id : TransactionId) (error : ℤ)
  /-- The core registers a transaction that was not submitted here. -/
  | receive
  /-- The oldest signal reaches createDepositCompleted; whether a remote node fee is configured,
  and whether its submission is accepted. -/
  | deliver (remoteFee accepted : Bool)
  | closeWallet
  | openWallet (count : ℕ)
  deriving DecidableEq

def State.operationOf (s : State) (id : TransactionId) : Option Operation :=
  s.outstanding.lookup id

/-- Submitting calls, deliveries and the wallet menu share the GUI thread; callbacks do not. -/
def enabled (s : State) : Event → Prop
  | .submit _ => s.isOpen = true ∧ s.call = none ∧ s.nextId < WALLET_INVALID_TRANSACTION_ID
  | .submissionThrows _ error => s.call = none ∧ error ≠ 0
  | .submissionReturns _ => s.call.isSome
  | .completes id _ => (s.operationOf id).isSome
  | .receive => s.isOpen = true ∧ s.nextId < WALLET_INVALID_TRANSACTION_ID
  | .deliver _ _ => s.call = none ∧ s.queue ≠ [] ∧ s.nextId < WALLET_INVALID_TRANSACTION_ID
  | .closeWallet => s.isOpen = true ∧ s.call = none
  | .openWallet _ => s.isOpen = false ∧ s.call = none

instance (s : State) (e : Event) : Decidable (enabled s e) := by
  cases e <;> unfold enabled <;> infer_instance

/-- The deliveries that an emission posts to OverviewFrame. -/
def Emission.deliveries (e : Emission) : List Delivery :=
  e.signals.filterMap fun
    | .walletCreateDepositCompleted _ error => some ⟨e.operation, e.wallet, e.id, error⟩
    | _ => none

def State.emit (s : State) (e : Emission) : State :=
  { s with emitted := e :: s.emitted, queue := s.queue ++ e.deliveries }

def State.create (s : State) (op : Operation) : State :=
  { s with
    nextId := s.nextId + 1
    call := some (op, s.nextId)
    outstanding := (s.nextId, op) :: s.outstanding }

def State.throwing (s : State) (op : Operation) (error : ℤ) : State :=
  s.emit ⟨.threw, op, s.wallet, WALLET_INVALID_TRANSACTION_ID, error, failureSignals op error⟩

def State.returns (s : State) (op : Operation) (id : TransactionId) (found : Bool) : State :=
  let (slots, signals) := storeId s.slots op id found
  { s with slots := slots, call := none }.emit ⟨.returned, op, s.wallet, id, 0, signals⟩

def State.completes (s : State) (op : Operation) (id : TransactionId) (error : ℤ) : State :=
  let (slots, signals) := sendTransactionCompleted s.slots id error
  { s with slots := slots, outstanding := s.outstanding.filter (·.1 ≠ id) }.emit
    ⟨.completed, op, s.wallet, id, error, signals⟩

/-- OverviewFrame::createDepositCompleted. -/
def createDepositCompleted (s : State) (d : Delivery) (remoteFee accepted : Bool) : State :=
  if d.error ≠ 0 then s
  else if remoteFee = true ∧ s.isOpen = true then
    let s := { s with payments := d :: s.payments }
    if accepted then s.create .sendTransaction else s.throwing .sendTransaction (-1)
  else s

def handle (s : State) : Event → State
  | .submit op => s.create op
  | .submissionThrows op error => s.throwing op error
  | .submissionReturns found =>
    match s.call with
    | none => s
    | some (op, id) => s.returns op id found
  | .completes id error =>
    match s.operationOf id with
    | none => s
    | some op => s.completes op id error
  | .receive => { s with nextId := s.nextId + 1 }
  | .deliver remoteFee accepted =>
    match s.queue with
    | [] => s
    | d :: queue => createDepositCompleted { s with queue := queue } d remoteFee accepted
  | .closeWallet => { s with isOpen := false, outstanding := [] }
  | .openWallet count => { s with wallet := s.wallet + 1, isOpen := true, nextId := count }

/-- A new adapter: no wallet is open and the slots hold no id. -/
def system : EventSystem State Event where
  init :=
    { slots := ⟨WALLET_INVALID_TRANSACTION_ID, WALLET_INVALID_TRANSACTION_ID,
        WALLET_INVALID_TRANSACTION_ID, WALLET_INVALID_TRANSACTION_ID⟩
      wallet := 0
      isOpen := false
      nextId := 0
      call := none
      outstanding := []
      emitted := []
      queue := []
      payments := [] }
  enabled := enabled
  handle := handle

instance (s : State) (e : Event) : Decidable (system.enabled s e) :=
  inferInstanceAs (Decidable (enabled s e))

/-- What is required of the emission of a callback, read in the state that receives it. -/
def CompletionEmits (Q : Emission → Prop) (s : State) : Event → Prop
  | .completes id error => ∀ op ∈ s.operationOf id,
      Q ⟨.completed, op, s.wallet, id, error, (sendTransactionCompleted s.slots id error).2⟩
  | _ => True

/-- What one event adds to the emissions: nothing, or one group of signals. A property that the
submitting calls always satisfy is kept exactly by the callbacks that emit it. -/
theorem handle_emitted_iff {Q : Emission → Prop} (s : State) (e : Event)
    (hreturned : ∀ op id found, Q ⟨.returned, op, s.wallet, id, 0, (storeId s.slots op id found).2⟩)
    (hthrew : ∀ op error, (e = .submissionThrows op error ∨ error ≠ 0) →
      Q ⟨.threw, op, s.wallet, WALLET_INVALID_TRANSACTION_ID, error, failureSignals op error⟩) :
    (∀ x ∈ (handle s e).emitted, Q x) ↔ CompletionEmits Q s e ∧ ∀ x ∈ s.emitted, Q x := by
  cases e with
  | submit op => simp [handle, State.create, CompletionEmits]
  | submissionThrows op error =>
    simp [handle, State.throwing, State.emit, CompletionEmits, hthrew op error (.inl rfl)]
  | submissionReturns found =>
    cases hc : s.call with
    | none => simp [handle, hc, CompletionEmits]
    | some c => simp [handle, hc, State.returns, State.emit, CompletionEmits, hreturned]
  | completes id error =>
    cases ho : s.operationOf id with
    | none => simp [handle, ho, CompletionEmits]
    | some op => simp [handle, ho, State.completes, State.emit, CompletionEmits]
  | receive => simp [handle, CompletionEmits]
  | deliver remoteFee accepted =>
    cases hq : s.queue with
    | nil => simp [handle, hq, CompletionEmits]
    | cons d queue =>
      have hrefused := hthrew .sendTransaction (-1) (.inr (by decide))
      simp only [handle, hq, createDepositCompleted, CompletionEmits, true_and]
      split_ifs <;> simp [State.create, State.throwing, State.emit, hrefused]
  | closeWallet => simp [handle, CompletionEmits]
  | openWallet count => simp [handle, CompletionEmits]

/-! ### Attribution of completions -/

/-- The operation that a kind-specific signal announces. -/
def Signal.operation? : Signal → Option Operation
  | .walletSendMessageCompleted _ _ => some .sendMessage
  | .walletCreateDepositCompleted _ _ => some .deposit
  | .walletWithdrawDepositCompleted _ _ => some .withdrawUnlockedDeposits
  | .walletSendTransactionCompleted _ _ | .walletDepositPending _
  | .updateBlockStatusTextWithDelay => none

/-- The kind-specific signals owed to the completion of an operation. -/
def completionSignals (op : Operation) (id : TransactionId) (error : ℤ) : List Signal :=
  match op with
  | .sendMessage => [.walletSendMessageCompleted id error]
  | .deposit => [.walletCreateDepositCompleted id error]
  | .withdrawUnlockedDeposits => [.walletWithdrawDepositCompleted id error]
  | .sendTransaction | .optimizeWallet => []

/-- A completion emits exactly what its own operation is owed, and no handler emits a
kind-specific signal for an operation of another kind. -/
def Emission.Attributed (e : Emission) : Prop :=
  (e.origin = .completed →
    e.signals.filter (·.operation?.isSome) = completionSignals e.operation e.id e.error) ∧
  ∀ sig ∈ e.signals, ∀ op ∈ sig.operation?, op = e.operation

/-- The id stands in the slot of its own operation and in no slot that is compared before it.
Plain transactions have no signal of their own, so they may also stand in no slot at all. -/
def InOwnSlot (s : Slots) (op : Operation) (id : TransactionId) : Prop :=
  match op with
  | .sendTransaction | .optimizeWallet => id = s.m_sentTransactionId ∨
      (id ≠ s.m_sentMessageId ∧ id ≠ s.m_depositId ∧ id ≠ s.m_depositWithdrawalId)
  | .sendMessage => id ≠ s.m_sentTransactionId ∧ id = s.m_sentMessageId
  | .deposit => id ≠ s.m_sentTransactionId ∧ id ≠ s.m_sentMessageId ∧ id = s.m_depositId
  | .withdrawUnlockedDeposits => id ≠ s.m_sentTransactionId ∧ id ≠ s.m_sentMessageId ∧
      id ≠ s.m_depositId ∧ id = s.m_depositWithdrawalId

instance (s : Slots) (op : Operation) (id : TransactionId) : Decidable (InOwnSlot s op id) := by
  cases op <;> unfold InOwnSlot <;> infer_instance

/-- Every completion finds the id in the slot of the operation that submitted it. -/
def CompletesInOwnSlot (s : State) : Event → Prop
  | .completes id _ => ∀ op ∈ s.operationOf id, InOwnSlot s.slots op id
  | _ => True

theorem completionSignals_operation {op : Operation} {id : TransactionId} {error : ℤ}
    {sig : Signal} (h : sig ∈ completionSignals op id error) : sig.operation? = some op := by
  cases op <;> simp_all [completionSignals, Signal.operation?]

/-- The chain of comparisons emits what an operation is owed exactly when its id is in the slot
of that operation. -/
theorem sendTransactionCompleted_attributed_iff (s : Slots) (op : Operation) (id : TransactionId)
    (error : ℤ) :
    (sendTransactionCompleted s id error).2.filter (·.operation?.isSome) =
      completionSignals op id error ↔ InOwnSlot s op id := by
  unfold sendTransactionCompleted
  split_ifs <;> cases op <;>
    simp_all [completionSignals, InOwnSlot, Signal.operation?]

theorem attributed_completed_iff (s : State) (op : Operation) (id : TransactionId) (error : ℤ) :
    (Emission.mk .completed op s.wallet id error
      (sendTransactionCompleted s.slots id error).2).Attributed ↔ InOwnSlot s.slots op id := by
  rw [← sendTransactionCompleted_attributed_iff s.slots op id error]
  constructor
  · intro h
    exact h.1 rfl
  · intro h
    refine ⟨fun _ => h, ?_⟩
    intro sig hsig op' hop
    have hmem : sig ∈ completionSignals op id error := by
      rw [← h, List.mem_filter]
      exact ⟨hsig, by simp [Option.mem_def.mp hop]⟩
    exact Option.some.inj (hop.symm.trans (completionSignals_operation hmem))

theorem attributed_returned (s : Slots) (op : Operation) (wallet : ℕ) (id : TransactionId)
    (found : Bool) :
    (Emission.mk .returned op wallet id 0 (storeId s op id found).2).Attributed := by
  refine ⟨by simp, ?_⟩
  cases op <;> simp [storeId, Signal.operation?]

theorem attributed_threw (op : Operation) (wallet : ℕ) (id : TransactionId) (error : ℤ) :
    (Emission.mk .threw op wallet id error (failureSignals op error)).Attributed := by
  refine ⟨by simp, ?_⟩
  cases op <;> simp [failureSignals, Signal.operation?]

/-- In every run, all completions are attributed to the operation that produced them exactly when
each of them finds its id in the slot of that operation. -/
theorem attributed_iff_own_slot (h : List Event) :
    (∀ e ∈ (system.after h).emitted, e.Attributed) ↔ system.Always CompletesInOwnSlot h := by
  induction h with
  | nil => simp [system]
  | cons e h ih =>
    have hstep := handle_emitted_iff (Q := Emission.Attributed) (system.after h) e
      (fun op id found => attributed_returned _ op _ id found)
      (fun op error _ => attributed_threw op _ _ error)
    rw [EventSystem.always_cons, ← ih]
    apply hstep.trans
    apply and_congr_left
    intro _
    cases e <;> simp [CompletionEmits, CompletesInOwnSlot, attributed_completed_iff]

/-- Two messages are sent before the first completes; the completion of the first is reported
for no message. -/
theorem second_message_takes_the_slot :
    let h : List Event := [.completes 0 0, .submissionReturns true, .submit .sendMessage,
      .submissionReturns true, .submit .sendMessage, .openWallet 0]
    system.Admissible h ∧
      ∃ e ∈ (system.after h).emitted, e.origin = .completed ∧ e.operation = .sendMessage ∧
        e.id = 0 ∧ .walletSendMessageCompleted 0 0 ∉ e.signals ∧ ¬e.Attributed := by
  refine ⟨by decide, ⟨.completed, .sendMessage, 1, 0, 0,
    [.walletSendTransactionCompleted 0 0, .updateBlockStatusTextWithDelay]⟩, by decide, rfl, rfl,
    rfl, by decide, fun h => ?_⟩
  exact absurd (h.1 rfl) (by decide)

end ConcealDesktop.WalletAdapter
