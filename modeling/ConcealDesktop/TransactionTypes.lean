import ConcealDesktop.TransactionsModel

/-! The two classifications of a transaction. ROLE_TYPE chooses the icon and the shown amount,
ROLE_TXTYPE is the text of the details; each is a decision tree of its own. -/
namespace ConcealDesktop.TransactionsModel
open WalletAdapter

/-- The two roles classify alike: the text names the type, and an optimization is a transaction of
the wallet to itself. -/
structure RolesAgree (role : Role → QVariant) (toItself : Prop) : Prop where
  mined : role .txtype = .text (qstr "New Block") ↔ role .type = .int TransactionType.mined.toInt
  deposit : role .txtype = .text (qstr "New Deposit") ↔
    role .type = .int TransactionType.deposit.toInt
  sent : role .txtype = .text (qstr "Sent CCX") ↔ role .type = .int TransactionType.output.toInt
  received : role .txtype = .text (qstr "Received CCX") ↔
    role .type = .int TransactionType.input.toInt
  optimization : role .txtype = .text (qstr "Optimization") → toItself ∧
    (role .type = .int TransactionType.inout.toInt ∨
      role .type = .int TransactionType.depositUnlock.toInt)

/-- The transaction is mined or creates a deposit; or it goes to the wallet itself, and pays the
minimum fee or is confirmed and costs 1000 in all; or it goes elsewhere and does not cost 1000. -/
def TypesSettled (env : Environment) (r : Reading) : Prop :=
  let t := r.transaction
  t.isBase = true ∨ t.firstDepositId ≠ WALLET_INVALID_DEPOSIT_ID ∨
    if r.transfer.address = env.getAddress then
      t.fee = env.minimumFee ∨
        t.totalAmount = -1000 ∧ t.blockHeight ≠ WALLET_UNCONFIRMED_TRANSACTION_HEIGHT
    else t.totalAmount ≠ -1000

/-- The pairs of a type and a text that agree. -/
inductive Matching : TransactionType → QString → Prop where
  | mined : Matching .mined (qstr "New Block")
  | deposit : Matching .deposit (qstr "New Deposit")
  | sent : Matching .output (qstr "Sent CCX")
  | received : Matching .input (qstr "Received CCX")
  | inout : Matching .inout (qstr "Optimization")
  | depositUnlock : Matching .depositUnlock (qstr "Optimization")

variable {role : Role → QVariant} {toItself : Prop} {type : TransactionType} {label : QString}

theorem TransactionType.toInt_injective : Function.Injective TransactionType.toInt := by
  intro a b h
  cases a <;> cases b <;> first | rfl | cases h

theorem rolesAgree_of_matching (htype : role .type = .int type.toInt)
    (hlabel : role .txtype = .text label) (h : Matching type label)
    (hself : label = qstr "Optimization" → toItself) : RolesAgree role toItself := by
  constructor
  all_goals rw [htype, hlabel]
  · cases h <;> decide
  · cases h <;> decide
  · cases h <;> decide
  · cases h <;> decide
  · intro hopt
    refine ⟨hself (QVariant.text.inj hopt), ?_⟩
    revert hopt
    cases h <;> decide

theorem matching_of_rolesAgree (htype : role .type = .int type.toInt)
    (hlabel : role .txtype = .text label) (h : RolesAgree role toItself)
    (hknown : label ∈ [qstr "New Block", qstr "New Deposit", qstr "Optimization",
      qstr "Sent CCX", qstr "Received CCX"]) : Matching type label := by
  have hint {n : TransactionType} (hn : role .type = .int n.toInt) : type = n :=
    TransactionType.toInt_injective (QVariant.int.inj (htype.symm.trans hn))
  simp only [List.mem_cons, List.not_mem_nil, or_false] at hknown
  rcases hknown with rfl | rfl | rfl | rfl | rfl
  · rw [hint (h.mined.mp hlabel)]
    exact .mined
  · rw [hint (h.deposit.mp hlabel)]
    exact .deposit
  · rcases (h.optimization hlabel).2 with hinout | hunlock
    · rw [hint hinout]
      exact .inout
    · rw [hint hunlock]
      exact .depositUnlock
  · rw [hint (h.sent.mp hlabel)]
    exact .sent
  · rw [hint (h.received.mp hlabel)]
    exact .received

theorem not_matching_optimization (h : type = .output ∨ type = .input) :
    ¬ Matching type (qstr "Optimization") := by
  rcases h with rfl | rfl
  · generalize hlabel : qstr "Optimization" = label
    rintro ⟨⟩
    exact absurd hlabel (by decide)
  · generalize hlabel : qstr "Optimization" = label
    rintro ⟨⟩
    exact absurd hlabel (by decide)

theorem not_matching_inout : ¬ Matching .inout (qstr "Sent CCX") := by
  generalize hlabel : qstr "Sent CCX" = label
  rintro ⟨⟩
  exact absurd hlabel (by decide)

section Trees

variable {env : Environment} {r : Reading}

theorem txtype_known (hstate : r.transaction.state ≠ .failed) :
    r.txtype env ∈ [qstr "New Block", qstr "New Deposit", qstr "Optimization",
      qstr "Sent CCX", qstr "Received CCX"] := by
  unfold Reading.txtype
  simp only [hstate, if_false]
  split_ifs <;> simp

theorem txtype_optimization (h : r.txtype env = qstr "Optimization") :
    r.transfer.address = env.getAddress := by
  by_contra hother
  revert h
  unfold Reading.txtype
  simp only [hother, if_false]
  split_ifs <;> decide

/-- The two trees give a matching pair exactly on the settled transactions. -/
theorem matching_iff (hstate : r.transaction.state ≠ .failed) :
    Matching (r.type env) (r.txtype env) ↔ TypesSettled env r := by
  unfold TypesSettled Reading.type Reading.txtype
  simp only [hstate, if_false]
  by_cases hbase : r.transaction.isBase = true
  · rw [if_pos hbase, if_pos hbase]
    exact iff_of_true .mined (Or.inl hbase)
  rw [if_neg hbase, if_neg hbase, or_iff_right hbase]
  by_cases hdeposit : r.transaction.firstDepositId ≠ WALLET_INVALID_DEPOSIT_ID
  · rw [if_pos hdeposit, if_pos hdeposit]
    exact iff_of_true .deposit (Or.inl hdeposit)
  rw [if_neg hdeposit, if_neg hdeposit, or_iff_right hdeposit]
  by_cases hself : r.transfer.address = env.getAddress
  · rw [if_pos hself, if_pos hself, if_pos hself]
    split_ifs with hfee hpending hthousand hnegative
    · exact iff_of_true .depositUnlock (Or.inl hfee)
    · exact iff_of_false (not_matching_optimization (Or.inl rfl))
        fun h => (h.resolve_left hfee).2 hpending.2
    · have hconfirmed : r.transaction.blockHeight ≠ WALLET_UNCONFIRMED_TRANSACTION_HEIGHT :=
        fun hun => hpending ⟨by omega, hun⟩
      exact iff_of_true .inout (Or.inr ⟨hthousand, hconfirmed⟩)
    · exact iff_of_false (not_matching_optimization (Or.inl rfl))
        fun h => hthousand (h.resolve_left hfee).1
    · exact iff_of_false (not_matching_optimization (Or.inr rfl))
        fun h => hthousand (h.resolve_left hfee).1
  · rw [if_neg hself, if_neg hself, if_neg hself]
    split_ifs with hthousand hnegative hnegative
    · exact iff_of_false not_matching_inout fun h => h hthousand
    · omega
    · exact iff_of_true .sent hthousand
    · exact iff_of_true .received hthousand

end Trees

/-- For every transaction that has not failed the two roles agree exactly when it is settled. -/
theorem types_agree_iff (env : Environment) {wallet : Option Wallet} {m : TransactionsModel}
    {index : QModelIndex} {r : Reading} (hr : m.read wallet index = some r)
    (hstate : r.transaction.state ≠ .failed) :
    RolesAgree (data env wallet m index) (r.transfer.address = env.getAddress) ↔
      TypesSettled env r := by
  have htype : data env wallet m index .type = .int (r.type env).toInt := by
    rw [data, hr]
    rfl
  have hlabel : data env wallet m index .txtype = .text (r.txtype env) := by
    rw [data, hr]
    rfl
  rw [← matching_iff hstate]
  constructor
  · exact fun h => matching_of_rolesAgree htype hlabel h (txtype_known hstate)
  · exact fun h => rolesAgree_of_matching htype hlabel h txtype_optimization

/-- A wallet with one transaction that goes to the address of one byte. -/
def payingWallet (totalAmount : ℤ) : Wallet where
  transactions := [⟨.succeeded, 0, 5, [], totalAmount, 10, false, [], [],
    WALLET_INVALID_DEPOSIT_ID, 0, [⟨[7]⟩]⟩]
  deposits := []
  transactions_lt := Wallet.one_lt
  deposits_lt := Wallet.none_lt

theorem types_agree_iff_sent :
    RolesAgree (data Environment.offline (some (payingWallet (-5000))) ⟨[(0, 0)], ∅⟩ (index 0 0))
      False := by
  have h := (types_agree_iff Environment.offline
    (rfl : read (some (payingWallet (-5000))) ⟨[(0, 0)], ∅⟩ (index 0 0) = some ⟨0,
      ⟨.succeeded, 0, 5, [], -5000, 10, false, [], [], WALLET_INVALID_DEPOSIT_ID, 0, [⟨[7]⟩]⟩, 0,
      ⟨[7]⟩, WALLET_INVALID_DEPOSIT_ID, Deposit.default⟩) (by decide)).mpr
    (Or.inr (Or.inr (by decide)))
  have hself : ([7] : StdString) ≠ Environment.offline.getAddress := by decide
  rwa [eq_false hself] at h

/-- A payment that costs 1000 with its fee is sent in the details and an optimization elsewhere. -/
theorem types_disagree :
    let role := data Environment.offline (some (payingWallet (-1000))) ⟨[(0, 0)], ∅⟩ (index 0 0)
    role .txtype = .text (qstr "Sent CCX") ∧ role .type = .int TransactionType.inout.toInt ∧
      ¬ RolesAgree role ([7] = Environment.offline.getAddress) := by
  refine ⟨by decide +kernel, by decide +kernel, fun h => ?_⟩
  have htype := h.sent.mp (by decide +kernel)
  revert htype
  decide +kernel

end ConcealDesktop.TransactionsModel
