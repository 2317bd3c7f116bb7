import ConcealDesktop.CurrencyAdapter
import ConcealDesktop.Library.Checks

/-! The Send button of OverviewFrame: from the texts of the form to the orders that are handed
to WalletAdapter::sendTransaction. The wait between the checks and the submission is one test
here, whether the wallet is open when it ends; its event loop is the subject of SendWait. -/
namespace ConcealDesktop.OverviewFrame
open Checks

def BASE_FEE : UInt64 := 1000
def REMOTE_FEE : UInt64 := 10000

structure WalletOrder where
  address : StdString
  amount : UInt64
  deriving DecidableEq

structure WalletMessage where
  address : StdString
  message : StdString
  deriving DecidableEq

structure AccountPublicAddress where
  spendPublicKey : StdString
  viewPublicKey : StdString
  deriving DecidableEq

/-- What the handler asks of the wallet core and of the network, and how it reads their bytes. -/
structure ConcealCore where
  decode_addr : StdString → Option (UInt64 × StdString)
  fromBinaryArray : StdString → Option AccountPublicAddress
  /-- The value an uninitialised address happens to have. -/
  indeterminate : AccountPublicAddress
  CRYPTONOTE_PUBLIC_ADDRESS_BASE58_PREFIX : UInt64
  getAccountAddressAsStr : UInt64 → AccountPublicAddress → StdString
  parseAccountAddressString : StdString → Bool
  /-- The result and the records of a look-up, or nothing when it throws. -/
  fetch_dns_txt : StdString → Option (Bool × List StdString)
  /-- QString::fromStdString of the address in a record, as the UTF-8 bytes of the text. -/
  fromStdString : StdString → StdString
  /-- What stands for bytes that are no UTF-8 is left open. -/
  fromStdString_of_utf8 : ∀ s, s.Utf8 → fromStdString s = s

/-- The balances of the open wallet. -/
structure WalletBalances where
  actual : UInt64
  dust : UInt64

def getWalletMaximum (w : WalletBalances) : UInt64 :=
  if w.dust < w.actual then w.actual - w.dust else 0

structure FrameState where
  trackingMode : Bool
  connection : StdString
  remote_node_fee_address : StdString
  exchangeName : StdString
  m_actualBalance : UInt64
  /-- The answer of the password prompt. -/
  checkWalletPassword : Bool
  /-- Whether the wallet is still open when the wait ends. -/
  isOpen : Bool

/-- The texts of the form. Addresses are kept as their UTF-8 bytes, which is how every use of
them reads the field. -/
structure SendForm where
  addressEdit : StdString
  paymentIdEdit : StdString
  amountEdit : QString
  messageEdit : StdString
  addressLabel : StdString
  saveAddress : Bool

inductive SendStop where
  | trackingWallet
  | outOfRange
  | aliasNotChecked
  | invalidAddress
  | invalidPaymentId
  | paymentIdRequired (exchange : StdString)
  | insufficientFunds
  | passwordRefused
  deriving DecidableEq

/-- The text shown for a refused form. An exception that leaves the handler and a cancelled
password prompt show nothing. -/
def SendStop.text : SendStop → Option StdString
  | .trackingWallet => some (bytes "This is a tracking wallet.\nThis action is not available.")
  | .outOfRange => none
  | .aliasNotChecked => some (bytes "Could not check Conceal ID")
  | .invalidAddress => some (bytes "Invalid recipient address")
  | .invalidPaymentId => some (bytes "Invalid payment ID")
  | .paymentIdRequired exchange => some (bytes "This address belongs to " ++ exchange ++
      bytes " and requires a Payment ID.\nPlease enter the Payment ID provided by the exchange to proceed.")
  | .insufficientFunds => some (bytes
      "Insufficient funds. Please ensure that you have enough funds for the amount plus fees.")
  | .passwordRefused => none

/-- A contact to be stored after the submission. -/
structure Contact where
  label : StdString
  address : StdString
  paymentId : StdString
  deriving DecidableEq

/-- The arguments of the call of WalletAdapter::sendTransaction, and the contact saved after. -/
structure Submission where
  transfers : List WalletOrder
  fee : UInt64
  paymentId : StdString
  messages : List WalletMessage
  contact : Option Contact
  deriving DecidableEq

def isRemoteConnection (f : FrameState) : Bool :=
  f.connection == bytes "remote" || f.connection == bytes "autoremote"

def payRemoteFee (f : FrameState) : Bool :=
  isRemoteConnection f && f.remote_node_fee_address != []

/-- The value that OverviewFrame::calculateFee stores in m_actualFee. -/
def calculateFee (f : FrameState) : UInt64 :=
  if payRemoteFee f then BASE_FEE + REMOTE_FEE else BASE_FEE

/-- The text that OverviewFrame::setPercentage100 writes into the amount field. -/
def setPercentage100 (places : ℕ) (w : WalletBalances) (f : FrameState) : QString :=
  CurrencyAdapter.formatAmount places (getWalletMaximum w - calculateFee f)

/-- WalletAdapter::isValidPaymentId; a hash has 32 bytes. -/
def isValidPaymentId (paymentIdString : StdString) : Bool :=
  if paymentIdString = [] then true
  else
    let paymentId := QByteArray.fromHex paymentIdString
    paymentId.length == 32 &&
      QByteArray.toUpper paymentIdString == QByteArray.toUpper (QByteArray.toHex paymentId)

/-- What the address part of the handler leaves behind: the address to pay, the two fields it
may rewrite, and the exchange name, which any change of the address field clears. -/
structure Recipient where
  address : StdString
  addressEdit : StdString
  isIntegrated : Bool
  paymentIdEdit : StdString
  exchangeName : StdString

/-- The branch for an integrated address. The prefix and the result of the deserialisation are
not looked at, and substr throws when the payload is shorter than a payment id. The payment id is
kept as its bytes: without UTF-8 it is none, whatever stands for it in the field. -/
def integratedRecipient (core : ConcealCore) (f : FrameState) (address : StdString) :
    Except SendStop Recipient :=
  let (paymentID, decoded) := match core.decode_addr address with
    | some (_, decoded) => (decoded.take 64, decoded)
    | none => ([], [])
  match decoded.substr 64 decoded.length with
  | none => .error .outOfRange
  | some keys =>
    let addr := (core.fromBinaryArray keys).getD core.indeterminate
    .ok ⟨core.getAccountAddressAsStr core.CRYPTONOTE_PUBLIC_ADDRESS_BASE58_PREFIX addr, address,
      true, paymentID, f.exchangeName⟩

/-- Pays to the address of an alias record and writes it into the address field. -/
def setAliasAddress (r : Recipient) (address : StdString) : Recipient :=
  { r with
    address := address
    addressEdit := address
    exchangeName := if r.addressEdit = address then r.exchangeName else [] }

/-- The loop over the records of an alias; the output variable is shared by all records. -/
def readRecords (core : ConcealCore) : List StdString → StdString → Recipient → Recipient
  | [], _, r => r
  | record :: records, realAddress, r =>
    match CurrencyAdapter.processServerAliasResponse record realAddress with
    | (true, realAddress) =>
      readRecords core records realAddress (setAliasAddress r (core.fromStdString realAddress))
    | (false, realAddress) => readRecords core records realAddress r

def resolveAlias (core : ConcealCore) (r : Recipient) : Except SendStop Recipient :=
  if CurrencyAdapter.isValidOpenAliasAddress r.address then
    match core.fetch_dns_txt r.address with
    | none => .error .aliasNotChecked
    | some (_, records) => .ok (readRecords core records [] r)
  else .ok r

def findRecipient (core : ConcealCore) (f : FrameState) (form : SendForm) :
    Except SendStop Recipient := do
  let r ← if form.addressEdit.length = 186 then integratedRecipient core f form.addressEdit
    else .ok ⟨form.addressEdit, form.addressEdit, false, form.paymentIdEdit, f.exchangeName⟩
  let r ← resolveAlias core r
  if core.parseAccountAddressString r.address then .ok r else .error .invalidAddress

/-- The checks of sendFundsClicked that come before the balance is looked at. -/
def checkForm (core : ConcealCore) (f : FrameState) (form : SendForm) :
    Except SendStop Recipient := do
  if f.trackingMode then .error .trackingWallet
  let r ← findRecipient core f form
  if !isValidPaymentId r.paymentIdEdit then .error .invalidPaymentId
  if r.paymentIdEdit.length < 64 && r.exchangeName != [] then
    .error (.paymentIdRequired r.exchangeName)
  .ok r

def remoteFeeOrders (f : FrameState) : List WalletOrder :=
  if payRemoteFee f then [⟨f.remote_node_fee_address, REMOTE_FEE⟩] else []

/-- The totalFee of the handler; the fee of the network alone is what it passes on. -/
def totalFee (f : FrameState) : UInt64 :=
  if payRemoteFee f then BASE_FEE + REMOTE_FEE else BASE_FEE

def contactToSave (form : SendForm) (r : Recipient) : Option Contact :=
  if form.addressLabel ≠ [] ∧ form.saveAddress then
    if r.isIntegrated then some ⟨form.addressLabel, form.addressEdit, []⟩
    else some ⟨form.addressLabel, r.address, r.paymentIdEdit⟩
  else none

/-- OverviewFrame::sendFundsClicked. The result is the submission it makes, nothing when the
wallet is closed by the end of the wait, or the check that stopped it. -/
def sendFundsClicked (places : ℕ) (core : ConcealCore) (f : FrameState) (form : SendForm) :
    Except SendStop (Option Submission) := do
  let r ← checkForm core f form
  let amount := CurrencyAdapter.parseAmount places form.amountEdit
  if f.m_actualBalance < amount + totalFee f then .error .insufficientFunds
  if !f.checkWalletPassword then .error .passwordRefused
  let messages := if form.messageEdit = [] then [] else [⟨r.address, form.messageEdit⟩]
  if f.isOpen then
    .ok (some ⟨⟨r.address, amount⟩ :: remoteFeeOrders f, BASE_FEE, r.paymentIdEdit, messages,
      contactToSave form r⟩)
  else .ok none

/-- The sum of the amounts of the orders, over the unbounded naturals. -/
def orderedTotal (s : Submission) : ℕ := (s.transfers.map fun o => o.amount.toNat).sum

/-- The wallet can pay the submission: the recipient gets something, and the orders with the
network fee stay within the balance. -/
def CoveredBy (balance : UInt64) (s : Submission) : Prop :=
  (∃ o ∈ s.transfers.head?, 0 < o.amount.toNat) ∧
    orderedTotal s + BASE_FEE.toNat ≤ balance.toNat

/-- Nothing but the balance stands between the form and the submission. -/
def OtherChecksPass (core : ConcealCore) (f : FrameState) (form : SendForm) : Prop :=
  (∃ r, checkForm core f form = .ok r) ∧ f.checkWalletPassword = true ∧ f.isOpen = true

/-- The amount is no reason to refuse or to fear the submission: it is not zero and does not
wrap around with the fees, or the balance is below what the check then compares it with. -/
def AmountSafe (places : ℕ) (f : FrameState) (form : SendForm) : Prop :=
  let amount := (CurrencyAdapter.parseAmount places form.amountEdit).toNat
  let fee := (totalFee f).toNat
  (amount = 0 → f.m_actualBalance.toNat < fee) ∧
    (2 ^ 64 ≤ amount + fee → f.m_actualBalance.toNat + 2 ^ 64 < amount + fee)

section Recipient
variable {core : ConcealCore} {f : FrameState} {form : SendForm} {r : Recipient} {e : SendStop}

/-- The recipient before an alias is resolved. -/
def fieldRecipient (core : ConcealCore) (f : FrameState) (form : SendForm) :
    Except SendStop Recipient :=
  if form.addressEdit.length = 186 then integratedRecipient core f form.addressEdit
  else .ok ⟨form.addressEdit, form.addressEdit, false, form.paymentIdEdit, f.exchangeName⟩

theorem fieldRecipient_error (h : fieldRecipient core f form = .error e) :
    e = .outOfRange := by
  unfold fieldRecipient integratedRecipient at h
  dsimp only at h
  split_ifs at h
  split at h
  · exact (Except.error.inj h).symm
  · cases h

theorem resolveAlias_error (h : resolveAlias core r = .error e) :
    e = .aliasNotChecked := by
  unfold resolveAlias at h
  split_ifs at h
  cases hanswer : core.fetch_dns_txt r.address with
  | none =>
    rw [hanswer] at h
    exact (Except.error.inj h).symm
  | some answer =>
    rw [hanswer] at h
    cases h

theorem findRecipient_eq : findRecipient core f form =
    ((fieldRecipient core f form >>= resolveAlias core) >>=
      require (fun r => core.parseAccountAddressString r.address) .invalidAddress) := by
  unfold findRecipient fieldRecipient
  split_ifs
  · cases integratedRecipient core f form.addressEdit <;> rfl
  · rfl

theorem findRecipient_eq_ok_iff : findRecipient core f form = .ok r ↔
    ∃ r₀, fieldRecipient core f form = .ok r₀ ∧ resolveAlias core r₀ = .ok r ∧
      core.parseAccountAddressString r.address = true := by
  simp only [findRecipient_eq, bind_eq_ok_iff, require_eq_ok_iff]
  constructor
  · rintro ⟨r', ⟨r₀, hfield, halias⟩, hvalid, rfl⟩
    exact ⟨r₀, hfield, halias, hvalid⟩
  · rintro ⟨r₀, hfield, halias, hvalid⟩
    exact ⟨r, ⟨r₀, hfield, halias⟩, hvalid, rfl⟩

/-- The address part of the handler stops for three reasons. -/
theorem findRecipient_eq_error_iff : findRecipient core f form = .error e ↔
    fieldRecipient core f form = .error e ∨ ∃ r₀, fieldRecipient core f form = .ok r₀ ∧
      (resolveAlias core r₀ = .error e ∨ ∃ r, resolveAlias core r₀ = .ok r ∧
        core.parseAccountAddressString r.address = false ∧ .invalidAddress = e) := by
  simp only [findRecipient_eq, bind_eq_ok_iff, bind_eq_error_iff, require_eq_error_iff]
  constructor
  · rintro ((hfield | ⟨r₀, hfield, halias⟩) | ⟨r, ⟨r₀, hfield, halias⟩, hinvalid⟩)
    · exact .inl hfield
    · exact .inr ⟨r₀, hfield, .inl halias⟩
    · exact .inr ⟨r₀, hfield, .inr ⟨r, halias, hinvalid⟩⟩
  · rintro (hfield | ⟨r₀, hfield, halias | ⟨r, halias, hinvalid⟩⟩)
    · exact .inl (.inl hfield)
    · exact .inl (.inr ⟨r₀, hfield, halias⟩)
    · exact .inr ⟨r, ⟨r₀, hfield, halias⟩, hinvalid⟩

theorem checkForm_eq : checkForm core f form =
    (stopIf f.trackingMode .trackingWallet >>= fun _ => findRecipient core f form >>= fun r =>
      stopIf (!isValidPaymentId r.paymentIdEdit) .invalidPaymentId >>= fun _ =>
        stopIf (decide (r.paymentIdEdit.length < 64) && r.exchangeName != [])
          (.paymentIdRequired r.exchangeName) >>= fun _ => .ok r) := by
  unfold checkForm stopIf
  cases f.trackingMode with
  | true => rfl
  | false =>
    cases findRecipient core f form with
    | error e => rfl
    | ok r =>
      simp only [bind, Except.bind]
      split_ifs <;> rfl

theorem checkForm_eq_error_iff : checkForm core f form = .error e ↔
    f.trackingMode = true ∧ .trackingWallet = e ∨ f.trackingMode = false ∧
      (findRecipient core f form = .error e ∨ ∃ r, findRecipient core f form = .ok r ∧
        (isValidPaymentId r.paymentIdEdit = false ∧ .invalidPaymentId = e ∨
          isValidPaymentId r.paymentIdEdit = true ∧ r.paymentIdEdit.length < 64 ∧
            r.exchangeName ≠ [] ∧ .paymentIdRequired r.exchangeName = e)) := by
  simp only [checkForm_eq, bind_eq_error_iff, stopIf_eq_error_iff, stopIf_eq_ok_iff, reduceCtorEq,
    and_false, exists_const, or_false, Bool.not_eq_true', Bool.not_eq_false', Bool.and_eq_true,
    decide_eq_true_eq, bne_iff_ne, ne_eq, and_assoc]

theorem checkForm_eq_ok_iff : checkForm core f form = .ok r ↔
    f.trackingMode = false ∧ findRecipient core f form = .ok r ∧
      isValidPaymentId r.paymentIdEdit = true ∧
        (r.paymentIdEdit.length < 64 → r.exchangeName = []) := by
  simp only [checkForm_eq, bind_eq_ok_iff, stopIf_eq_ok_iff, exists_const, Bool.not_eq_false',
    Bool.and_eq_false_imp, decide_eq_true_eq, bne_eq_false_iff_eq, Except.ok.injEq]
  constructor
  · rintro ⟨htracking, r', hfind, hvalid, hexchange, rfl⟩
    exact ⟨htracking, hfind, hvalid, hexchange⟩
  · rintro ⟨htracking, hfind, hvalid, hexchange⟩
    exact ⟨htracking, r, hfind, hvalid, hexchange, rfl⟩

/-- After the form is checked the balance and the password can stop the handler. -/
theorem sendFundsClicked_eq_error {places : ℕ}
    (h : sendFundsClicked places core f form = .error e) :
    checkForm core f form = .error e ∨ e = .insufficientFunds ∨ e = .passwordRefused := by
  unfold sendFundsClicked at h
  dsimp only at h
  generalize CurrencyAdapter.parseAmount places form.amountEdit + totalFee f = needed at h
  cases hform : checkForm core f form with
  | error e' =>
    rw [hform] at h
    have hsame : e' = e := Except.error.inj h
    rw [hsame]
    exact .inl rfl
  | ok r =>
    rw [hform] at h
    simp only [bind, Except.bind] at h
    split_ifs at h
    · exact .inr (.inl (Except.error.inj h).symm)
    · exact .inr (.inr (Except.error.inj h).symm)

/-- The exception that leaves the handler is the one of the integrated address. -/
theorem sendFundsClicked_outOfRange_iff {places : ℕ} :
    sendFundsClicked places core f form = .error .outOfRange ↔
      f.trackingMode = false ∧ fieldRecipient core f form = .error .outOfRange := by
  constructor
  · intro h
    rcases sendFundsClicked_eq_error h with hform | hbalance | hpassword
    · rcases checkForm_eq_error_iff.mp hform with ⟨-, hstop⟩ | ⟨htracking, hfind | ⟨r, -, hlate⟩⟩
      · cases hstop
      · rcases findRecipient_eq_error_iff.mp hfind with
          hfield | ⟨r₀, -, halias | ⟨r, -, -, hstop⟩⟩
        · exact ⟨htracking, hfield⟩
        · cases resolveAlias_error halias
        · cases hstop
      · rcases hlate with ⟨-, hstop⟩ | ⟨-, -, -, hstop⟩
        · cases hstop
        · cases hstop
    · cases hbalance
    · cases hpassword
  · rintro ⟨htracking, hfield⟩
    have hform : checkForm core f form = .error .outOfRange :=
      checkForm_eq_error_iff.mpr
        (.inr ⟨htracking, .inl (findRecipient_eq_error_iff.mpr (.inl hfield))⟩)
    unfold sendFundsClicked
    rw [hform]
    rfl

/-- Every other stop but a refused password prompt is shown. -/
theorem SendStop.text_eq_none_iff (e : SendStop) :
    e.text = none ↔ e = .outOfRange ∨ e = .passwordRefused := by
  cases e <;> simp [SendStop.text]

end Recipient

section Submission
variable {places : ℕ} {core : ConcealCore} {f : FrameState} {form : SendForm}

/-- The submission made from a checked form. -/
def submissionOf (places : ℕ) (f : FrameState) (form : SendForm) (r : Recipient) : Submission :=
  ⟨⟨r.address, CurrencyAdapter.parseAmount places form.amountEdit⟩ :: remoteFeeOrders f, BASE_FEE,
    r.paymentIdEdit, if form.messageEdit = [] then [] else [⟨r.address, form.messageEdit⟩],
    contactToSave form r⟩

theorem sendFundsClicked_submits_iff {s : Submission} :
    sendFundsClicked places core f form = .ok (some s) ↔
      ∃ r, checkForm core f form = .ok r ∧ f.checkWalletPassword = true ∧ f.isOpen = true ∧
        CurrencyAdapter.parseAmount places form.amountEdit + totalFee f ≤ f.m_actualBalance ∧
        s = submissionOf places f form r := by
  unfold sendFundsClicked submissionOf
  dsimp only
  generalize CurrencyAdapter.parseAmount places form.amountEdit + totalFee f = needed
  cases checkForm core f form with
  | error e => simp [bind, Except.bind]
  | ok r =>
    simp only [bind, Except.bind, Except.ok.injEq, exists_eq_left', ← UInt64.not_lt]
    by_cases hb : f.m_actualBalance < needed
    · simp [hb]
    · cases f.checkWalletPassword <;> cases f.isOpen <;> simp [hb, eq_comm]

/-- The orders of a submission are the amount and the remote fee, so with the network fee they
come to the amount and the total fee. -/
theorem orderedTotal_submissionOf (r : Recipient) :
    orderedTotal (submissionOf places f form r) + BASE_FEE.toNat =
      (CurrencyAdapter.parseAmount places form.amountEdit).toNat + (totalFee f).toNat := by
  unfold orderedTotal submissionOf remoteFeeOrders totalFee
  cases payRemoteFee f <;> simp [BASE_FEE, REMOTE_FEE]

theorem coveredBy_submissionOf_iff (balance : UInt64) (r : Recipient) :
    CoveredBy balance (submissionOf places f form r) ↔
      0 < (CurrencyAdapter.parseAmount places form.amountEdit).toNat ∧
      (CurrencyAdapter.parseAmount places form.amountEdit).toNat + (totalFee f).toNat ≤
        balance.toNat := by
  unfold CoveredBy
  rw [orderedTotal_submissionOf]
  simp [submissionOf]

/-- A wrapped sum passes a comparison that the true sum passes exactly when it did not wrap, or
when even the wrapped sum is refused. -/
theorem wrapped_le_imp_iff (amount fee balance : UInt64) (hfee : 0 < fee.toNat) :
    (amount + fee ≤ balance → 0 < amount.toNat ∧ amount.toNat + fee.toNat ≤ balance.toNat) ↔
      (amount.toNat = 0 → balance.toNat < fee.toNat) ∧
      (2 ^ 64 ≤ amount.toNat + fee.toNat →
        balance.toNat + 2 ^ 64 < amount.toNat + fee.toNat) := by
  have ha := amount.toNat_lt
  have hf := fee.toNat_lt
  have hb := balance.toNat_lt
  rw [UInt64.le_iff_toNat_le, UInt64.toNat_add]
  by_cases hw : 2 ^ 64 ≤ amount.toNat + fee.toNat
  · have hmod : (amount.toNat + fee.toNat) % 2 ^ 64 = amount.toNat + fee.toNat - 2 ^ 64 := by
      omega
    omega
  · rw [Nat.mod_eq_of_lt (by omega)]
    omega

theorem totalFee_pos (f : FrameState) : 0 < (totalFee f).toNat := by
  unfold totalFee
  split <;> decide

/-- The submission is covered by the balance exactly when a form that passes every other check
has a safe amount. -/
theorem sendFundsClicked_covered_iff (places : ℕ) (core : ConcealCore) (f : FrameState)
    (form : SendForm) :
    (∀ s, sendFundsClicked places core f form = .ok (some s) → CoveredBy f.m_actualBalance s) ↔
      (OtherChecksPass core f form → AmountSafe places f form) := by
  have key := wrapped_le_imp_iff (CurrencyAdapter.parseAmount places form.amountEdit) (totalFee f)
    f.m_actualBalance (totalFee_pos f)
  constructor
  · rintro hcov ⟨⟨r, hr⟩, hp, ho⟩
    apply key.mp
    intro hle
    have hs := hcov _ (sendFundsClicked_submits_iff.mpr ⟨r, hr, hp, ho, hle, rfl⟩)
    exact (coveredBy_submissionOf_iff _ r).mp hs
  · intro hsafe s hs
    obtain ⟨r, hr, hp, ho, hle, rfl⟩ := sendFundsClicked_submits_iff.mp hs
    exact (coveredBy_submissionOf_iff _ r).mpr (key.mpr (hsafe ⟨⟨r, hr⟩, hp, ho⟩) hle)

end Submission

/-- The address whose two public keys are the base point of the curve. -/
def basePointAddress : StdString := bytes
  "ccx7MDme73KJ8QgRfFWTzmJ8QgRfFWTzmJ8QgRfFWTzmJ8QgQ5e4qzuJ8QgRfFWTzmJ8QgRfFWTzmJ8QgRfFWTzm4t51JSvU5N"

/-- A core asked about that one address, which is neither integrated nor an alias. -/
def basePointCore : ConcealCore where
  decode_addr _ := none
  fromBinaryArray _ := none
  indeterminate := ⟨[], []⟩
  CRYPTONOTE_PUBLIC_ADDRESS_BASE58_PREFIX := 0x7ad4
  getAccountAddressAsStr _ _ := []
  parseAccountAddressString address := address == basePointAddress
  fetch_dns_txt _ := some (false, [])
  fromStdString s := s
  fromStdString_of_utf8 _ _ := rfl

/-- An embedded node and an unencrypted wallet with the given balance. -/
def embeddedFrame (balance : UInt64) : FrameState where
  trackingMode := false
  connection := bytes "embedded"
  remote_node_fee_address := []
  exchangeName := []
  m_actualBalance := balance
  checkWalletPassword := true
  isOpen := true

def plainForm (amountEdit : QString) : SendForm where
  addressEdit := basePointAddress
  paymentIdEdit := []
  amountEdit := amountEdit
  messageEdit := []
  addressLabel := []
  saveAddress := false

/-- The amount that the 100% button writes for a balance below the fee is ordered in full, and an
empty amount field orders nothing for the recipient. -/
theorem sendFundsClicked_not_covered :
    (∃ s, sendFundsClicked 6 basePointCore (embeddedFrame 500)
        (plainForm (setPercentage100 6 ⟨500, 0⟩ (embeddedFrame 500))) = .ok (some s) ∧
      ¬ CoveredBy 500 s) ∧
    (∃ s, sendFundsClicked 6 basePointCore (embeddedFrame 1000) (plainForm []) = .ok (some s) ∧
      ¬ CoveredBy 1000 s) := by
  refine ⟨⟨⟨[⟨basePointAddress, 18446744073709551116⟩], BASE_FEE, [], [], none⟩, ?_, ?_⟩,
    ⟨⟨[⟨basePointAddress, 0⟩], BASE_FEE, [], [], none⟩, ?_, ?_⟩⟩
  · decide +kernel
  · simp [CoveredBy, orderedTotal, BASE_FEE]
  · decide +kernel
  · simp [CoveredBy]

end ConcealDesktop.OverviewFrame
