import ConcealDesktop.CellSources
import ConcealDesktop.Confirmations

/-! What some cells depend on besides the data of their own column. Two cases of the display
switches run on into the next column, and the interest of a deposit is computed at the height of
the chain. -/
namespace ConcealDesktop

namespace DepositModel
open WalletAdapter

/-- All that the cells of the deposit table are computed from. -/
structure View where
  env : Environment
  wallet : Option Wallet
  transactions : TransactionsModel
  model : DepositModel

/-- A row shows a deposit of the wallet or a pending one. -/
inductive Shown where
  | real (deposit : Deposit)
  | pending (row : PendingDepositRow)

def Shown.term : Shown → ℕ
  | .real deposit => deposit.term
  | .pending row => row.term

namespace View

variable (v : View)

def shown (row : ℕ) : Option Shown :=
  match v.model.access row with
  | .real depositId => (getDeposit v.wallet depositId).map .real
  | .pending pending => some (.pending pending)
  | .outOfBounds _ => none

def unlockHeight (deposit : Deposit) : ℕ :=
  let creatingHeight :=
    creatingHeight v.env v.wallet v.transactions deposit.creatingTransactionId
  if creatingHeight = WALLET_UNCONFIRMED_TRANSACTION_HEIGHT then
    WALLET_UNCONFIRMED_TRANSACTION_HEIGHT
  else (creatingHeight + deposit.term) % 2 ^ 64

/-- When a locked deposit is expected to unlock, if its height is known. -/
def unlockTime (deposit : Deposit) : Option (Option ℕ) :=
  if deposit.locked then
    some (if v.unlockHeight deposit = WALLET_UNCONFIRMED_TRANSACTION_HEIGHT then none
      else some (v.env.getExpectedTimeForHeight (v.unlockHeight deposit)))
  else none

end View

end DepositModel

namespace TransactionsModel

end TransactionsModel

section
open TransactionsModel

/-- A wallet with a transaction in block 50, which creates a deposit of an odd term. -/
def oddWallet (extra : StdString) (locked : Bool) : Wallet where
  transactions :=
    [⟨.succeeded, 0, 50, [], 0, 0, false, extra, [], WALLET_INVALID_DEPOSIT_ID, 0, []⟩]
  deposits := [⟨5, 1000, locked, 0, WALLET_INVALID_TRANSACTION_ID⟩]
  transactions_lt := Wallet.one_lt
  deposits_lt := Wallet.one_lt

def oddEnvironment : Environment :=
  { Environment.offline with
    paymentIdHash := fun extra => extra.head?.map (Vector.replicate 32)
    getLastKnownBlockHeight := 50 }

def oddView (locked : Bool) : DepositModel.View :=
  ⟨oddEnvironment, some (oddWallet [] locked), blockSevenTable, ⟨1, []⟩⟩

end

/-! ### Interest -/

namespace DepositModel
open WalletAdapter

/-- The third argument that CurrencyAdapter::calculateInterest computes, in 32 bits. -/
def heightArgument (lastHeight term : ℕ) : ℕ := (lastHeight + 2 ^ 32 - term) % 2 ^ 32

/-- The subtraction stays within the unsigned numbers. -/
def ArgumentFits (lastHeight term : ℕ) : Prop :=
  (heightArgument lastHeight term : ℤ) = (lastHeight % 2 ^ 32 : ℕ) - (term : ℤ)

namespace View

/-- The state with another interest function of the core and another last known height. -/
def withCore (v : View) (calculateInterest : ℕ → ℕ → ℕ → ℕ) (lastHeight : ℕ) : View :=
  { v with env := { v.env with
    calculateInterest := calculateInterest
    getLastKnownBlockHeight := lastHeight } }

def interestRole (v : View) (row : ℕ) : Option QVariant :=
  data v.env v.wallet v.transactions v.model (index row Column.interest.toInt) .depositInterest

/-- At both heights, and whatever the core computes, the interest is computed at the height of the
creating transaction, without a wrap around. -/
def InterestFixed (v : View) (row : ℕ) (deposit : Deposit) (creatingHeight : ℕ)
    (lastHeight lastHeight' : ℕ) : Prop :=
  (∀ calculateInterest : ℕ → ℕ → ℕ → ℕ, ∀ k ∈ [lastHeight, lastHeight'],
    (v.withCore calculateInterest k).interestRole row =
      some (.int (calculateInterest deposit.amount deposit.term creatingHeight))) ∧
  ∀ k ∈ [lastHeight, lastHeight'], ArgumentFits k deposit.term

end View

theorem interestRole_eq {v : View} {row : ℕ} {deposit : Deposit}
    (hs : v.shown row = some (.real deposit)) (calculateInterest : ℕ → ℕ → ℕ → ℕ) (k : ℕ) :
    (v.withCore calculateInterest k).interestRole row =
      some (.int (calculateInterest deposit.amount deposit.term
        (heightArgument k deposit.term))) := by
  have hdata : (v.withCore calculateInterest k).interestRole row =
      getUserRole (v.withCore calculateInterest k).env v.wallet v.transactions v.model
        (index row Column.interest.toInt) .depositInterest := by
    simp only [View.interestRole, data, isValid_index, Bool.true_eq_false, if_false]
    rfl
  unfold View.shown at hs
  rw [hdata, getUserRole, index_row]
  cases haccess : v.model.access row with
  | real depositId =>
    rw [haccess] at hs
    obtain ⟨d, hdeposit, hd⟩ := Option.map_eq_some_iff.mp hs
    cases hd
    simp only [realUserRole, hdeposit]
    rfl
  | pending pending =>
    rw [haccess] at hs
    cases hs
  | outOfBounds i =>
    rw [haccess] at hs
    cases hs

theorem argument_eq_iff {k term creatingHeight : ℕ} (_hterm : term < 2 ^ 32) :
    heightArgument k term = creatingHeight ∧ ArgumentFits k term ↔
      k % 2 ^ 32 = creatingHeight + term := by
  unfold ArgumentFits heightArgument
  omega

/-- The interest of a deposit is the one at its own height exactly at the moments when the last
known height is the height at which the deposit unlocks. -/
theorem interest_fixed_iff (v : View) (row : ℕ) {deposit : Deposit} {creating : WalletTransaction}
    (hs : v.shown row = some (.real deposit)) (hterm : deposit.term < 2 ^ 32)
    (_hcreating : getTransaction v.wallet deposit.creatingTransactionId = some creating)
    (_hconfirmed : creating.blockHeight ≠ WALLET_UNCONFIRMED_TRANSACTION_HEIGHT) (k k' : ℕ) :
    v.InterestFixed row deposit creating.blockHeight k k' ↔
      k % 2 ^ 32 = creating.blockHeight + deposit.term ∧
        k' % 2 ^ 32 = creating.blockHeight + deposit.term := by
  rw [← argument_eq_iff hterm, ← argument_eq_iff hterm]
  unfold View.InterestFixed
  simp only [interestRole_eq hs, List.forall_mem_cons, List.not_mem_nil, false_implies,
    implies_true, and_true]
  constructor
  · rintro ⟨hvalue, hfits, hfits'⟩
    -- a core that returns the height tells which one it was given
    obtain ⟨h, h'⟩ := hvalue fun _ _ height => height
    exact ⟨⟨by simpa using h, hfits⟩, by simpa using h', hfits'⟩
  · rintro ⟨⟨h, hfits⟩, h', hfits'⟩
    exact ⟨fun f => ⟨by rw [h], by rw [h']⟩, hfits, hfits'⟩

theorem interest_fixed_iff_unlocking :
    (oddView true).InterestFixed 0 ⟨5, 1000, true, 0, WALLET_INVALID_TRANSACTION_ID⟩ 50 1050 1050 :=
  (interest_fixed_iff (oddView true) 0 rfl (by decide)
    (rfl : getTransaction (some (oddWallet [] true)) 0 = some ⟨.succeeded, 0, 50, [], 0, 0, false,
      [], [], WALLET_INVALID_DEPOSIT_ID, 0, []⟩) (by decide) 1050 1050).mpr (by decide)

/-- At the block of its creating transaction a deposit is asked for near the end of the 32-bit
heights, so its interest is not fixed between there and its unlocking. -/
theorem interest_not_fixed :
    heightArgument 50 1000 = 2 ^ 32 - 950 ∧
      ¬ (oddView true).InterestFixed 0 ⟨5, 1000, true, 0, WALLET_INVALID_TRANSACTION_ID⟩ 50 50
        1050 := by
  refine ⟨by decide, fun h => ?_⟩
  exact absurd (h.2 50 (by simp)) (by unfold ArgumentFits; decide)

end DepositModel
end ConcealDesktop
