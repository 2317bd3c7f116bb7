import ConcealDesktop.DepositModel
import ConcealDesktop.Library.EventSystem
import ConcealDesktop.MessagesModel

/-! The item models beside the wallet. The wallet thread changes the wallet between two handlers;
the signals reach each model through the event queue, in any order and at any time. -/
namespace ConcealDesktop.Models
open EventDriven WalletAdapter

/-- The timers are those of MessagesModel that have been started and have not expired. -/
structure State where
  wallet : Option Wallet
  transactions : TransactionsModel
  messages : MessagesModel
  timers : List ℕ
  deposits : DepositModel

inductive Event where
  /-- The wallet is opened, closed, or changed by the core. -/
  | wallet (wallet : Option Wallet)
  | transactions (e : TransactionsModel.Event)
  | messages (e : MessagesModel.Event)
  | deposits (e : DepositModel.Event)

/-- While a wallet stays open, its transactions and deposits are not taken away. -/
def Grows : Option Wallet → Option Wallet → Prop
  | some old, some new => old.transactions.length ≤ new.transactions.length ∧
      old.deposits.length ≤ new.deposits.length
  | _, _ => True

instance (old new : Option Wallet) : Decidable (Grows old new) := by
  cases old <;> cases new <;> unfold Grows <;> infer_instance

/-- A container of Qt has fewer than 2^31 elements, and no run restarts the 64-bit counter of
generations. The id that the catch-up loops would never pass is not announced. -/
def messagesEnabled (wallet : Option Wallet) (m : MessagesModel) (timers : List ℕ)
    (e : MessagesModel.Event) : Prop :=
  (m.handle wallet e).model.m_messages.length < 2 ^ 31 ∧
  match e with
  | .reloadWalletTransactions | .walletCloseCompleted => m.m_reloadGeneration + 1 < 2 ^ 64
  | .processNextChunk generation => generation ∈ timers
  | .transactionCreated id => id < WALLET_INVALID_TRANSACTION_ID
  | .transactionUpdated _ | .lastKnownHeightUpdated => True

instance (wallet : Option Wallet) (m : MessagesModel) (timers : List ℕ)
    (e : MessagesModel.Event) : Decidable (messagesEnabled wallet m timers e) := by
  cases e <;> unfold messagesEnabled <;> infer_instance

def enabled (s : State) : Event → Prop
  | .wallet wallet => Grows s.wallet wallet
  | .transactions (.transactionCreated id) => id < WALLET_INVALID_TRANSACTION_ID
  | .transactions _ => True
  | .messages e => messagesEnabled s.wallet s.messages s.timers e
  | .deposits _ => True

instance (s : State) (e : Event) : Decidable (enabled s e) := by
  unfold enabled
  split <;> infer_instance

/-- The timer that expires is used up, and the timers that the handler starts are added. -/
def timersAfter (timers started : List ℕ) : MessagesModel.Event → List ℕ
  | .processNextChunk generation => timers.erase generation ++ started
  | _ => timers ++ started

def handle (env : Environment) (s : State) : Event → State
  | .wallet wallet => { s with wallet := wallet }
  | .transactions e => { s with transactions := (s.transactions.handle s.wallet e).1 }
  | .messages e =>
    let outcome := s.messages.handle s.wallet e
    { s with
      messages := outcome.model
      timers := timersAfter s.timers outcome.timers e }
  | .deposits e => { s with deposits := (s.deposits.handle env s.wallet s.transactions e).1 }

/-- The models are constructed before a wallet is opened. -/
def system (env : Environment) : EventSystem State Event where
  init :=
    { wallet := none
      transactions := TransactionsModel.empty
      messages := MessagesModel.initial
      timers := []
      deposits := DepositModel.initial }
  enabled := enabled
  handle := handle env

instance (env : Environment) (s : State) (e : Event) : Decidable ((system env).enabled s e) :=
  inferInstanceAs (Decidable (enabled s e))

end ConcealDesktop.Models
