import ConcealDesktop.Library.EventSystem
import ConcealDesktop.SendFunds

/-! The exchange look-ups of the send form. Each change of the address field sends a request to
ExchangeProvider; whichever reply names an exchange sets exchangeName, and sendFundsClicked then
asks for a payment id. -/
namespace ConcealDesktop.ExchangeLookup
open EventDriven OverviewFrame

/-- What a read from a reply gives: no JSON, or the names in the array that it holds. -/
abbrev Reply := Option (List StdString)

/-- The name that ExchangeProvider::readyRead emits; other arrays emit nothing. -/
def exchangeFound : Reply → Option StdString
  | some [name] => some name
  | _ => none

structure State where
  /-- The text of m_addressEdit. -/
  addressEdit : StdString
  exchangeName : StdString
  /-- The addresses of the requests whose replies have not finished. -/
  outstanding : List StdString
  /-- The names that look-ups have returned so far, each with the address looked up. -/
  answers : List (StdString × StdString)
deriving DecidableEq

namespace State

/-- ExchangeProvider::getExchange; a request is made if its URL is valid. -/
def getExchange (isValid : StdString → Bool) (s : State) (address : StdString) : State :=
  if isValid address then { s with outstanding := s.outstanding ++ [address] } else s

def addressChanged (isValid : StdString → Bool) (s : State) (address : StdString) : State :=
  { s with addressEdit := address, exchangeName := [] }.getExchange isValid address

def onExchangeFound (s : State) (name : StdString) : State := { s with exchangeName := name }

def readyRead (s : State) (i : ℕ) (reply : Reply) : State :=
  match s.outstanding[i]?, exchangeFound reply with
  | some address, some name =>
    { s with answers := (address, name) :: s.answers }.onExchangeFound name
  | _, _ => s

end State

inductive Event where
  /-- The text of the field changes, by the user or by the program. -/
  | addressChanged (address : StdString)
  /-- A part of the reply to an outstanding request arrives. -/
  | readyRead (i : ℕ) (reply : Reply)
  /-- The reply is complete or lost. -/
  | finished (i : ℕ)
deriving DecidableEq

def enabled (s : State) : Event → Prop
  | .addressChanged _ => True
  | .readyRead i _ | .finished i => i < s.outstanding.length

instance decidableEnabled (s : State) : (e : Event) → Decidable (enabled s e)
  | .addressChanged _ => inferInstanceAs (Decidable True)
  | .readyRead i _ | .finished i => inferInstanceAs (Decidable (i < s.outstanding.length))

def handle (isValid : StdString → Bool) (s : State) : Event → State
  | .addressChanged address => s.addressChanged isValid address
  | .readyRead i reply => s.readyRead i reply
  | .finished i => { s with outstanding := s.outstanding.eraseIdx i }

def system (isValid : StdString → Bool) : EventSystem State Event where
  init := ⟨[], [], [], []⟩
  enabled := enabled
  handle := handle isValid

instance (isValid : StdString → Bool) (s : State) (e : Event) :
    Decidable ((system isValid).enabled s e) := decidableEnabled s e

/-- A look-up of the address in the field has returned the exchange name. -/
def State.NameCurrent (s : State) : Prop :=
  s.exchangeName ≠ [] → (s.addressEdit, s.exchangeName) ∈ s.answers

instance (s : State) : Decidable s.NameCurrent :=
  inferInstanceAs (Decidable (s.exchangeName ≠ [] → _ ∈ s.answers))

/-- A Send that is stopped for want of a payment id is stopped because a look-up of the address
in the field has returned the exchange that it names. -/
def State.BlockJustified (s : State) : Prop :=
  ∀ places core f form exchange, f.exchangeName = s.exchangeName →
    form.addressEdit = s.addressEdit →
    sendFundsClicked places core f form = .error (.paymentIdRequired exchange) →
    (s.addressEdit, exchange) ∈ s.answers

/-- A reply that names an exchange is one to a request for the address in the field, or repeats
what such a look-up has returned already. -/
def AnswersField (s : State) : Event → Prop
  | .readyRead i reply => ∀ address ∈ s.outstanding[i]?, ∀ name ∈ exchangeFound reply,
      name = [] ∨ address = s.addressEdit ∨ (s.addressEdit, name) ∈ s.answers
  | .addressChanged _ | .finished _ => True

section SendFunds

variable {places : ℕ} {core : ConcealCore} {f : FrameState} {form : SendForm}

theorem readRecords_exchangeName {records : List StdString} {realAddress : StdString}
    {r : Recipient} : (readRecords core records realAddress r).exchangeName = r.exchangeName ∨
      (readRecords core records realAddress r).exchangeName = [] := by
  induction records generalizing realAddress r with
  | nil => exact .inl rfl
  | cons record records ih =>
    unfold readRecords
    rcases CurrencyAdapter.processServerAliasResponse record realAddress with ⟨_ | _, found⟩
    · exact ih
    · rcases @ih found (setAliasAddress r (core.fromStdString found)) with hkept | hcleared
      · unfold setAliasAddress at hkept
        by_cases hsame : r.addressEdit = core.fromStdString found
        · exact .inl (hkept.trans (if_pos hsame))
        · exact .inr (hkept.trans (if_neg hsame))
      · exact .inr hcleared

theorem fieldRecipient_exchangeName {r : Recipient} (h : fieldRecipient core f form = .ok r) :
    r.exchangeName = f.exchangeName := by
  unfold fieldRecipient integratedRecipient at h
  dsimp only at h
  split_ifs at h
  · split at h
    · cases h
    · rw [← Except.ok.inj h]
  · rw [← Except.ok.inj h]

theorem resolveAlias_exchangeName {r r' : Recipient} (h : resolveAlias core r = .ok r') :
    r'.exchangeName = r.exchangeName ∨ r'.exchangeName = [] := by
  unfold resolveAlias at h
  split_ifs at h
  · cases hanswer : core.fetch_dns_txt r.address with
    | none =>
      rw [hanswer] at h
      cases h
    | some answer =>
      rw [hanswer] at h
      rw [← Except.ok.inj h]
      exact readRecords_exchangeName
  · rw [← Except.ok.inj h]
    exact .inl rfl

/-- The address part of the handler does not ask for a payment id. -/
theorem findRecipient_ne_paymentIdRequired {exchange : StdString} :
    findRecipient core f form ≠ .error (.paymentIdRequired exchange) := by
  intro h
  rcases findRecipient_eq_error_iff.mp h with hfield | ⟨r₀, -, halias | ⟨r, -, -, hinvalid⟩⟩
  · cases fieldRecipient_error hfield
  · cases resolveAlias_error halias
  · cases hinvalid

/-- The handler asks for a payment id only for the exchange that it has found in exchangeName. -/
theorem paymentIdRequired_exchange {exchange : StdString}
    (h : sendFundsClicked places core f form = .error (.paymentIdRequired exchange)) :
    exchange ≠ [] ∧ exchange = f.exchangeName := by
  rcases sendFundsClicked_eq_error h with hform | hbalance | hpassword
  · obtain ⟨-, hstop⟩ | ⟨-, hfind | ⟨r, hr, ⟨-, hstop⟩ | ⟨-, -, hne, hstop⟩⟩⟩ :=
      checkForm_eq_error_iff.mp hform
    · cases hstop
    · exact absurd hfind findRecipient_ne_paymentIdRequired
    · cases hstop
    · have hexchange : r.exchangeName = exchange := SendStop.paymentIdRequired.inj hstop
      obtain ⟨r₀, hfield, halias, -⟩ := findRecipient_eq_ok_iff.mp hr
      rw [← fieldRecipient_exchangeName hfield, ← hexchange]
      rcases resolveAlias_exchangeName halias with hkept | hcleared
      · exact ⟨hne, hkept⟩
      · exact absurd hcleared hne
  · cases hbalance
  · cases hpassword

end SendFunds

variable {isValid : StdString → Bool} {s : State}

theorem State.NameCurrent.blockJustified (h : s.NameCurrent) : s.BlockJustified := by
  intro places core f form exchange hname hfield hstop
  obtain ⟨hne, hexchange⟩ := paymentIdRequired_exchange hstop
  rw [hexchange, hname] at hne ⊢
  exact h hne

theorem nameCurrent_addressChanged (address : StdString) :
    (s.addressChanged isValid address).NameCurrent := by
  intro hne
  unfold State.addressChanged State.getExchange at hne
  split_ifs at hne <;> exact absurd rfl hne

/-- From a state in which the name is current, a reply leaves it current exactly when it answers
for the address in the field. -/
theorem nameCurrent_readyRead_iff (h : s.NameCurrent) (i : ℕ) (reply : Reply) :
    (s.readyRead i reply).NameCurrent ↔ AnswersField s (.readyRead i reply) := by
  unfold State.readyRead
  cases hrequest : s.outstanding[i]? with
  | none => simpa [AnswersField, hrequest] using h
  | some address =>
    cases hfound : exchangeFound reply with
    | none => simpa [AnswersField, hfound] using h
    | some name =>
      simp only [AnswersField, hrequest, hfound, State.NameCurrent, State.onExchangeFound,
        List.mem_cons, Prod.mk.injEq, Option.mem_def, Option.some.injEq, forall_eq', and_true]
      constructor
      · intro hcurrent
        by_cases hname : name = []
        · exact .inl hname
        · rcases hcurrent hname with hsame | hbefore
          · exact .inr (.inl hsame.symm)
          · exact .inr (.inr hbefore)
      · rintro (hname | hsame | hbefore) hne
        · exact absurd hname hne
        · exact .inl hsame.symm
        · exact .inr hbefore

theorem nameCurrent_handle_iff (h : s.NameCurrent) (e : Event) :
    (handle isValid s e).NameCurrent ↔ AnswersField s e := by
  cases e with
  | addressChanged address => exact iff_of_true (nameCurrent_addressChanged address) trivial
  | readyRead i reply => exact nameCurrent_readyRead_iff h i reply
  | finished i => exact iff_of_true h trivial

/-- Along a history the name and the block always belong to the address in the field, exactly when
every reply that names an exchange answers for that address. -/
theorem exchangeName_current_iff (isValid : StdString → Bool) (h : List Event) :
    (system isValid).Always (fun s e => (handle isValid s e).NameCurrent ∧
        (handle isValid s e).BlockJustified) h ↔
      (system isValid).Always AnswersField h := by
  have hcurrent : State.NameCurrent (system isValid).init := fun hne => absurd rfl hne
  apply EventSystem.always_iff_of_invariant (I := State.NameCurrent)
    (P := fun _ _ => True) hcurrent
  · intro s e hs _ hanswers
    exact (nameCurrent_handle_iff hs e).mpr hanswers
  · intro s e hs _
    have hiff : (handle isValid s e).NameCurrent ↔ AnswersField s e := nameCurrent_handle_iff hs e
    rw [← hiff]
    exact ⟨And.left, fun hname => ⟨hname, hname.blockJustified⟩⟩
  · exact EventSystem.Always.of_forall (fun _ _ => trivial) h

/-- The address of an exchange is replaced by another one before its reply arrives. -/
def replyAfterEdit : List Event :=
  [.readyRead 0 (some [bytes "TradeOgre"]), .addressChanged basePointAddress,
    .addressChanged (bytes "ccx7TradeOgre")]

/-- The late reply names an exchange for an address that no look-up has answered for, and the
Send of that address is stopped. -/
theorem exchangeName_stale :
    (system fun _ => true).Admissible replyAfterEdit ∧
      ¬ ((system fun _ => true).after replyAfterEdit).NameCurrent ∧
      ¬ (system fun _ => true).Always (fun s e => (handle (fun _ => true) s e).NameCurrent ∧
        (handle (fun _ => true) s e).BlockJustified) replyAfterEdit ∧
      sendFundsClicked 6 basePointCore { embeddedFrame 5000 with
          exchangeName := ((system fun _ => true).after replyAfterEdit).exchangeName }
        (plainForm (qstr "0.001")) = .error (.paymentIdRequired (bytes "TradeOgre")) := by
  have hstale : ¬ ((system fun _ => true).after replyAfterEdit).NameCurrent := by decide
  exact ⟨by decide, hstale, fun h => hstale h.1.1, by decide +kernel⟩

end ConcealDesktop.ExchangeLookup
