import ConcealDesktop.SendFunds

/-! The Send button for messages and the Create button for deposits. Each compares the balance with
one sum before it submits; what it submits, or has submitted once the deposit is made, is put
together from more parts than the sum has. -/
namespace ConcealDesktop.OverviewFrame
open Checks

def MESSAGE_COST : UInt64 := 100

/-- Five minutes in seconds. -/
def MIN_TTL : ℕ := 5 * 60

/-- The form of a message; the address is kept as its UTF-8 bytes. -/
structure MessageForm where
  addressMessageEdit : StdString
  messageTextEdit : QString
  ttlCheck : Bool
  ttlSlider : ℕ

inductive MessageStop where
  | passwordRefused
  | walletClosed
  | trackingWallet
  | insufficientFunds
  | aliasNotChecked
  | messageTooLong
deriving DecidableEq

/-- The text shown for a message that is not sent. -/
def MessageStop.text : MessageStop → Option StdString
  | .passwordRefused | .walletClosed => none
  | .trackingWallet => some (bytes "This is a tracking wallet.\nThis action is not available.")
  | .insufficientFunds => some (bytes "You don't have enough balance to send a message!")
  | .aliasNotChecked => some (bytes "Could not check Conceal ID")
  | .messageTooLong => some (bytes
      "Message too long. Please ensure that the message is less than 260 characters.")

/-- The arguments of the call of WalletAdapter::sendMessage. -/
structure MessageSubmission where
  transfers : List WalletOrder
  fee : UInt64
  messages : List WalletMessage
  ttl : ℕ
deriving DecidableEq

/-- The loop over the records of an alias in sendMessageClicked: the address that is left. -/
def readMessageRecords (core : ConcealCore) : List StdString → StdString → StdString → StdString
  | [], _, address => address
  | record :: records, realAddress, address =>
    match CurrencyAdapter.processServerAliasResponse record realAddress with
    | (true, realAddress) =>
      readMessageRecords core records realAddress (core.fromStdString realAddress)
    | (false, realAddress) => readMessageRecords core records realAddress address

def resolveMessageAlias (core : ConcealCore) (address : StdString) :
    Except MessageStop StdString :=
  if CurrencyAdapter.isValidOpenAliasAddress address then
    match core.fetch_dns_txt address with
    | none => .error .aliasNotChecked
    | some (_, records) => .ok (readMessageRecords core records [] address)
  else .ok address

/-- A self-destructive message has no fee. -/
def messageFee (form : MessageForm) : UInt64 := if form.ttlCheck then 0 else BASE_FEE

/-- When a self-destructive message expires, in the 32-bit arithmetic of toTime_t. -/
def messageTtl (form : MessageForm) (now : ℕ) : ℕ :=
  if form.ttlCheck then (now + form.ttlSlider * MIN_TTL) % 2 ^ 32 else 0

def messageFeeOrders (f : FrameState) (form : MessageForm) : List WalletOrder :=
  if form.ttlCheck then [] else remoteFeeOrders f

def messageSize (messageText : QString) : ℕ := messageText.length - 1

/-- OverviewFrame::sendMessageClicked, with the balance that WalletAdapter reports after the wait. -/
def sendMessageClicked (toStdString : QString → StdString) (core : ConcealCore) (f : FrameState)
    (balance : UInt64) (now : ℕ) (form : MessageForm) :
    Except MessageStop (Option MessageSubmission) := do
  stopIf (!f.checkWalletPassword) .passwordRefused
  stopIf (!f.isOpen) .walletClosed
  stopIf f.trackingMode .trackingWallet
  stopIf (decide (balance < MESSAGE_COST)) .insufficientFunds
  let address ← resolveMessageAlias core form.addressMessageEdit
  stopIf (decide (260 < messageSize form.messageTextEdit)) .messageTooLong
  .ok (if f.isOpen then
    some ⟨⟨address, MESSAGE_COST⟩ :: messageFeeOrders f form, messageFee form,
      [⟨address, toStdString form.messageTextEdit⟩], messageTtl form now⟩
  else none)

/-- The form of a deposit: the text of the amount and the months. -/
structure DepositForm where
  amountSpin : QString
  timeSpin : ℕ

inductive DepositStop where
  | trackingWallet
  | insufficientFunds
  | passwordRefused
  | notConfirmed
deriving DecidableEq

/-- The text shown for a deposit that is not made. -/
def DepositStop.text : DepositStop → Option StdString
  | .trackingWallet => some (bytes "This is a tracking wallet.\nThis action is not available.")
  | .insufficientFunds => some (bytes "You don't have enough balance in your account!")
  | .passwordRefused | .notConfirmed => none

/-- The arguments of the call of WalletAdapter::deposit. -/
structure DepositSubmission where
  term : ℕ
  amount : UInt64
  fee : UInt64
deriving DecidableEq

/-- What the deposit form asks of the currency. -/
structure DepositCurrency where
  places : ℕ
  getMinimumFeeBanking : UInt64
  depositMinTermV3 : ℕ

/-- OverviewFrame::newDepositClicked; the user may cancel the warning. -/
def newDepositClicked (currency : DepositCurrency) (f : FrameState) (balance : UInt64)
    (confirmed : Bool) (form : DepositForm) : Except DepositStop DepositSubmission := do
  stopIf f.trackingMode .trackingWallet
  let amount := CurrencyAdapter.parseAmount currency.places form.amountSpin
  stopIf (decide (amount = 0 ∨ balance < amount + currency.getMinimumFeeBanking))
    .insufficientFunds
  stopIf (!f.checkWalletPassword) .passwordRefused
  stopIf (!confirmed) .notConfirmed
  .ok ⟨form.timeSpin * currency.depositMinTermV3 % 2 ^ 32, amount, BASE_FEE⟩

/-- OverviewFrame::createDepositCompleted: the text of a failed deposit, or the remote fee that is
paid after a successful one. The frame is the one that the completion finds. -/
def createDepositCompleted (f : FrameState) (error : ℤ) (errorText : StdString) :
    Except StdString (Option Submission) :=
  if error ≠ 0 then
    .error (if errorText = [] then bytes "Deposit failed."
      else bytes "Deposit failed: " ++ errorText)
  else if payRemoteFee f && f.isOpen then
    .ok (some ⟨[⟨f.remote_node_fee_address, REMOTE_FEE⟩], BASE_FEE, [], [], none⟩)
  else .ok none

/-! ### What is submitted and what is checked -/

/-- The sum of all the orders and the fee of a message. -/
def MessageSubmission.total (s : MessageSubmission) : ℕ :=
  (s.transfers.map fun o => o.amount.toNat).sum + s.fee.toNat

/-- What a completed deposit goes on to submit. -/
def completionTotal (f : FrameState) : ℕ :=
  match createDepositCompleted f 0 [] with
  | .ok (some s) => orderedTotal s + s.fee.toNat
  | _ => 0

/-- Nothing but the balance stands between the form of a message and its submission. -/
def MessageChecksPass (core : ConcealCore) (f : FrameState) (form : MessageForm) : Prop :=
  f.checkWalletPassword = true ∧ f.isOpen = true ∧ f.trackingMode = false ∧
    (CurrencyAdapter.isValidOpenAliasAddress form.addressMessageEdit = true →
      (core.fetch_dns_txt form.addressMessageEdit).isSome) ∧
    messageSize form.messageTextEdit ≤ 260

/-- The message is self-destructive, the balance is below the message cost, or it is enough for
the message cost and all the fees. -/
def MessageAffordable (f : FrameState) (balance : UInt64) (form : MessageForm) : Prop :=
  form.ttlCheck = true ∨ balance.toNat < MESSAGE_COST.toNat ∨
    MESSAGE_COST.toNat + (totalFee f).toNat ≤ balance.toNat

/-- Nothing but the balance stands between the form of a deposit and its submission. -/
def DepositChecksPass (currency : DepositCurrency) (f : FrameState) (confirmed : Bool)
    (form : DepositForm) : Prop :=
  f.trackingMode = false ∧ f.checkWalletPassword = true ∧ confirmed = true ∧
    CurrencyAdapter.parseAmount currency.places form.amountSpin ≠ 0

/-- The remote fee and its base fee that are due when the deposit is completed. -/
def remoteDue (completed : FrameState) : ℕ :=
  if payRemoteFee completed && completed.isOpen then REMOTE_FEE.toNat + BASE_FEE.toNat else 0

/-- The amount with the banking fee is above the balance, or leaves enough for the remote fee; if
the two wrap around, even the wrapped sum is above the balance. -/
def DepositAffordable (currency : DepositCurrency) (completed : FrameState) (balance : UInt64)
    (form : DepositForm) : Prop :=
  let amount := (CurrencyAdapter.parseAmount currency.places form.amountSpin).toNat
  let needed := amount + currency.getMinimumFeeBanking.toNat
  (needed < 2 ^ 64 → balance.toNat < needed ∨ needed + remoteDue completed ≤ balance.toNat) ∧
    (2 ^ 64 ≤ needed → balance.toNat + 2 ^ 64 < needed)

section Covered

variable {toStdString : QString → StdString} {core : ConcealCore} {f completed : FrameState}
  {balance : UInt64} {now : ℕ}

theorem resolveMessageAlias_isOk_iff {address : StdString} :
    (∃ a, resolveMessageAlias core address = .ok a) ↔
      (CurrencyAdapter.isValidOpenAliasAddress address = true →
        (core.fetch_dns_txt address).isSome) := by
  unfold resolveMessageAlias
  split_ifs with halias
  · cases core.fetch_dns_txt address with
    | none => simp [halias]
    | some answer => simp
  · simp [halias]

/-- A message is submitted when every check passes, to the address that the text resolves to. -/
theorem sendMessageClicked_submits_iff {form : MessageForm} {s : MessageSubmission} :
    sendMessageClicked toStdString core f balance now form = .ok (some s) ↔
      f.checkWalletPassword = true ∧ f.isOpen = true ∧ f.trackingMode = false ∧
        MESSAGE_COST ≤ balance ∧ ∃ address,
          resolveMessageAlias core form.addressMessageEdit = .ok address ∧
          messageSize form.messageTextEdit ≤ 260 ∧
          s = ⟨⟨address, MESSAGE_COST⟩ :: messageFeeOrders f form, messageFee form,
            [⟨address, toStdString form.messageTextEdit⟩], messageTtl form now⟩ := by
  unfold sendMessageClicked
  simp only [bind_eq_ok_iff, stopIf_eq_ok_iff, exists_const, Bool.not_eq_false',
    decide_eq_false_iff_not, UInt64.not_lt, Nat.not_lt, Except.ok.injEq]
  constructor
  · rintro ⟨hpassword, hopen, htracking, hbalance, address, haddress, hsize, hs⟩
    rw [if_pos hopen] at hs
    exact ⟨hpassword, hopen, htracking, hbalance, address, haddress, hsize,
      (Option.some.inj hs).symm⟩
  · rintro ⟨hpassword, hopen, htracking, hbalance, address, haddress, hsize, rfl⟩
    exact ⟨hpassword, hopen, htracking, hbalance, address, haddress, hsize, if_pos hopen⟩

/-- The orders and the fee of a message come to its cost and, unless it is self-destructive, the
fees of the network and of the remote node. -/
theorem total_message {form : MessageForm} {address : StdString} {messages : List WalletMessage}
    {ttl : ℕ} :
    (MessageSubmission.mk (⟨address, MESSAGE_COST⟩ :: messageFeeOrders f form) (messageFee form)
      messages ttl).total =
      MESSAGE_COST.toNat + if form.ttlCheck then 0 else (totalFee f).toNat := by
  unfold MessageSubmission.total messageFeeOrders messageFee remoteFeeOrders totalFee
  cases form.ttlCheck <;> cases payRemoteFee f <;> simp [MESSAGE_COST, BASE_FEE, REMOTE_FEE]

theorem sendMessageClicked_covered_iff (form : MessageForm) :
    (∀ s, sendMessageClicked toStdString core f balance now form = .ok (some s) →
        s.total ≤ balance.toNat) ↔
      (MessageChecksPass core f form → MessageAffordable f balance form) := by
  constructor
  · rintro hcovered ⟨hpassword, hopen, htracking, halias, hsize⟩
    obtain ⟨address, haddress⟩ := resolveMessageAlias_isOk_iff.mpr halias
    unfold MessageAffordable
    by_cases hbalance : MESSAGE_COST ≤ balance
    · have htotal := hcovered _ (sendMessageClicked_submits_iff.mpr
        ⟨hpassword, hopen, htracking, hbalance, address, haddress, hsize, rfl⟩)
      rw [total_message] at htotal
      cases httl : form.ttlCheck with
      | true => exact .inl rfl
      | false =>
        rw [httl, if_neg Bool.false_ne_true] at htotal
        exact .inr (.inr htotal)
    · rw [UInt64.not_le, UInt64.lt_iff_toNat_lt] at hbalance
      exact .inr (.inl hbalance)
  · intro haffordable s hs
    obtain ⟨hpassword, hopen, htracking, hbalance, address, haddress, hsize, rfl⟩ :=
      sendMessageClicked_submits_iff.mp hs
    rw [UInt64.le_iff_toNat_le] at hbalance
    rw [total_message]
    rcases haffordable ⟨hpassword, hopen, htracking,
      resolveMessageAlias_isOk_iff.mp ⟨address, haddress⟩, hsize⟩ with httl | hlow | henough
    · rw [if_pos httl]
      exact hbalance
    · omega
    · split_ifs <;> omega

theorem newDepositClicked_submits_iff {currency : DepositCurrency} {confirmed : Bool}
    {form : DepositForm} {s : DepositSubmission} :
    newDepositClicked currency f balance confirmed form = .ok s ↔
      DepositChecksPass currency f confirmed form ∧
        CurrencyAdapter.parseAmount currency.places form.amountSpin +
          currency.getMinimumFeeBanking ≤ balance ∧
        s = ⟨form.timeSpin * currency.depositMinTermV3 % 2 ^ 32,
          CurrencyAdapter.parseAmount currency.places form.amountSpin, BASE_FEE⟩ := by
  unfold newDepositClicked DepositChecksPass
  simp only [bind_eq_ok_iff, stopIf_eq_ok_iff, exists_const, Bool.not_eq_false',
    decide_eq_false_iff_not, not_or, UInt64.not_lt, Except.ok.injEq]
  constructor
  · rintro ⟨htracking, ⟨hamount, hbalance⟩, hpassword, hconfirmed, rfl⟩
    exact ⟨⟨htracking, hpassword, hconfirmed, hamount⟩, hbalance, rfl⟩
  · rintro ⟨⟨htracking, hpassword, hconfirmed, hamount⟩, hbalance, rfl⟩
    exact ⟨htracking, ⟨hamount, hbalance⟩, hpassword, hconfirmed, rfl⟩

theorem completionTotal_eq (completed : FrameState) :
    completionTotal completed = remoteDue completed := by
  unfold completionTotal createDepositCompleted remoteDue
  rw [if_neg (by decide)]
  split_ifs <;> rfl

/-- A wrapped sum that passes a comparison covers an extra cost exactly when the true sum is refused
or leaves enough for it. -/
theorem wrapped_le_imp_add_le_iff (amount fee balance : UInt64) (extra : ℕ) :
    (amount + fee ≤ balance → amount.toNat + fee.toNat + extra ≤ balance.toNat) ↔
      (amount.toNat + fee.toNat < 2 ^ 64 → balance.toNat < amount.toNat + fee.toNat ∨
        amount.toNat + fee.toNat + extra ≤ balance.toNat) ∧
      (2 ^ 64 ≤ amount.toNat + fee.toNat →
        balance.toNat + 2 ^ 64 < amount.toNat + fee.toNat) := by
  have ha := amount.toNat_lt
  have hf := fee.toNat_lt
  have hb := balance.toNat_lt
  rw [UInt64.le_iff_toNat_le, UInt64.toNat_add]
  by_cases hw : 2 ^ 64 ≤ amount.toNat + fee.toNat
  · have hmod : (amount.toNat + fee.toNat) % 2 ^ 64 = amount.toNat + fee.toNat - 2 ^ 64 := by
      omega
    omega
  · rw [Nat.mod_eq_of_lt (by omega)]
    omega

theorem newDepositClicked_covered_iff (currency : DepositCurrency) (confirmed : Bool)
    (form : DepositForm) :
    (∀ s, newDepositClicked currency f balance confirmed form = .ok s →
        s.amount.toNat + currency.getMinimumFeeBanking.toNat + completionTotal completed ≤
          balance.toNat) ↔
      (DepositChecksPass currency f confirmed form →
        DepositAffordable currency completed balance form) := by
  have key := wrapped_le_imp_add_le_iff
    (CurrencyAdapter.parseAmount currency.places form.amountSpin) currency.getMinimumFeeBanking
    balance (remoteDue completed)
  rw [completionTotal_eq]
  constructor
  · intro hcovered hchecks
    apply key.mp
    intro hle
    have hcost := hcovered _ (newDepositClicked_submits_iff.mpr ⟨hchecks, hle, rfl⟩)
    exact hcost
  · intro haffordable s hs
    obtain ⟨hchecks, hle, rfl⟩ := newDepositClicked_submits_iff.mp hs
    exact key.mpr (haffordable hchecks) hle

end Covered

/-- The balance covers whatever a message or a deposit goes on to submit exactly when a form that
passes every other check is affordable. -/
theorem submissions_covered_iff (toStdString : QString → StdString) (core : ConcealCore)
    (f completed : FrameState) (balance : UInt64) (now : ℕ) (message : MessageForm)
    (currency : DepositCurrency) (confirmed : Bool) (form : DepositForm) :
    ((∀ s, sendMessageClicked toStdString core f balance now message = .ok (some s) →
        s.total ≤ balance.toNat) ↔
      (MessageChecksPass core f message → MessageAffordable f balance message)) ∧
    ((∀ s, newDepositClicked currency f balance confirmed form = .ok s →
        s.amount.toNat + currency.getMinimumFeeBanking.toNat + completionTotal completed ≤
          balance.toNat) ↔
      (DepositChecksPass currency f confirmed form →
        DepositAffordable currency completed balance form)) :=
  ⟨sendMessageClicked_covered_iff message, newDepositClicked_covered_iff currency confirmed form⟩

/-- A plain message to the address of the base point. -/
def plainMessage : MessageForm := ⟨basePointAddress, qstr "hi", false, 1⟩

/-- A remote node that asks for a fee. -/
def remoteFrame (balance : UInt64) : FrameState :=
  { embeddedFrame balance with
    connection := bytes "remote"
    remote_node_fee_address := basePointAddress }

/-- A balance of the message cost sends a message with a fee that it does not cover, and a balance
of the amount and the banking fee makes a deposit whose completion submits a remote fee. -/
theorem submissions_not_covered :
    (∃ s, sendMessageClicked (List.map UInt16.toUInt8) basePointCore (embeddedFrame 100) 100 0
        plainMessage = .ok (some s) ∧ ¬ s.total ≤ 100) ∧
    (∃ s, newDepositClicked ⟨6, 1000, 21900⟩ (remoteFrame 2001000) 2001000 true
        ⟨qstr "2.000000", 1⟩ = .ok s ∧
      ¬ s.amount.toNat + 1000 + completionTotal (remoteFrame 1000) ≤ 2001000) := by
  refine ⟨⟨⟨[⟨basePointAddress, 100⟩], 1000, [⟨basePointAddress, bytes "hi"⟩], 0⟩, ?_, ?_⟩,
    ⟨⟨21900, 2000000, 1000⟩, ?_, ?_⟩⟩
  · decide +kernel
  · decide
  · decide +kernel
  · decide +kernel

end ConcealDesktop.OverviewFrame
