import ConcealDesktop.AliasRecords

/-! The address that a Send pays. An integrated address is decoded before anything is checked: a
text that does not decode, or to less than a payment id, ends the handler with an exception, and a
foreign prefix or keys that do not deserialise go unnoticed. -/
namespace ConcealDesktop.IntegratedAddress
open OverviewFrame AliasRecords CurrencyAdapter

/-- What is promised of the addresses of the core: an empty text is none, none has a point, and
none is read out of bytes other than its own. -/
structure AddressLaws (core : ConcealCore) : Prop where
  parse_nil : core.parseAccountAddressString [] = false
  parse_fromStdString : ∀ s, core.parseAccountAddressString (core.fromStdString s) = true →
    core.fromStdString s = s
  not_alias : ∀ addressPrefix keys,
    isValidOpenAliasAddress (core.getAccountAddressAsStr addressPrefix keys) = false

/-- The address that a text stands for. -/
inductive Denotes (core : ConcealCore) (text : StdString) : StdString → Prop
  | plain : text.length ≠ 186 → core.parseAccountAddressString text = true → Denotes core text text
  | openAlias {found : Bool} {records : List StdString} {address : StdString} : text.length ≠ 186 →
      isValidOpenAliasAddress text = true → core.fetch_dns_txt text = some (found, records) →
      NamedIn records address → Denotes core text address
  | integrated {payload : StdString} {keys : AccountPublicAddress} : text.length = 186 →
      core.decode_addr text = some (core.CRYPTONOTE_PUBLIC_ADDRESS_BASE58_PREFIX, payload) →
      64 ≤ payload.length → core.fromBinaryArray (payload.drop 64) = some keys →
      Denotes core text
        (core.getAccountAddressAsStr core.CRYPTONOTE_PUBLIC_ADDRESS_BASE58_PREFIX keys)

/-- A Send ends without an exception, says why it has stopped unless the user has refused the
password prompt, and pays the address that the text stands for. -/
structure SendsDenoted (core : ConcealCore) (text : StdString)
    (result : Except SendStop (Option Submission)) : Prop where
  no_exception : result ≠ .error .outOfRange
  reported : ∀ stop, result = .error stop → stop = .passwordRefused ∨ stop.text ≠ none
  pays : ∀ s, result = .ok (some s) →
    ∃ order ∈ s.transfers.head?, Denotes core text order.address

/-- The keys that the handler reads out of a payload, or what the variable held before. -/
def keysOfPayload (core : ConcealCore) (payload : StdString) : AccountPublicAddress :=
  (core.fromBinaryArray (payload.drop 64)).getD core.indeterminate

/-- Every check passes that the handler makes after it has decoded the payload. -/
def PassesOn (places : ℕ) (core : ConcealCore) (f : FrameState) (form : SendForm)
    (payload : StdString) : Prop :=
  core.parseAccountAddressString (core.getAccountAddressAsStr
      core.CRYPTONOTE_PUBLIC_ADDRESS_BASE58_PREFIX (keysOfPayload core payload)) = true ∧
    isValidPaymentId (payload.take 64) = true ∧
    f.checkWalletPassword = true ∧ f.isOpen = true ∧
    parseAmount places form.amountEdit + totalFee f ≤ f.m_actualBalance

/-- The text is no integrated address, or one that decodes to a payment id and more; and if the
other checks pass, the prefix is that of the currency and the rest deserialises. -/
def DecodesSoundly (places : ℕ) (core : ConcealCore) (f : FrameState) (form : SendForm) : Prop :=
  form.addressEdit.length = 186 → f.trackingMode = false →
    ∃ addressPrefix payload, core.decode_addr form.addressEdit = some (addressPrefix, payload) ∧
      64 ≤ payload.length ∧
      (PassesOn places core f form payload →
        addressPrefix = core.CRYPTONOTE_PUBLIC_ADDRESS_BASE58_PREFIX ∧
          (core.fromBinaryArray (payload.drop 64)).isSome = true)

section Field

variable {places : ℕ} {core : ConcealCore} {f : FrameState} {form : SendForm} {r : Recipient}
  {addressPrefix : UInt64} {payload : StdString}

/-- The recipient of an integrated address that decodes to a payment id and more. -/
def integratedOf (core : ConcealCore) (f : FrameState) (form : SendForm) (payload : StdString) :
    Recipient :=
  ⟨core.getAccountAddressAsStr core.CRYPTONOTE_PUBLIC_ADDRESS_BASE58_PREFIX
    (keysOfPayload core payload), form.addressEdit, true, payload.take 64, f.exchangeName⟩

theorem fieldRecipient_decoded (h186 : form.addressEdit.length = 186)
    (hdecode : core.decode_addr form.addressEdit = some (addressPrefix, payload))
    (hlength : 64 ≤ payload.length) :
    fieldRecipient core f form = .ok (integratedOf core f form payload) := by
  have hkeys : payload.substr 64 payload.length = some (payload.drop 64) := by
    unfold StdString.substr
    rw [if_pos hlength, List.take_of_length_le (by rw [List.length_drop]; omega)]
  unfold fieldRecipient integratedRecipient
  rw [if_pos h186]
  simp only [hdecode, hkeys, integratedOf, keysOfPayload]

/-- The exception: nothing was decoded, or too little. -/
theorem fieldRecipient_outOfRange_iff : fieldRecipient core f form = .error .outOfRange ↔
    form.addressEdit.length = 186 ∧ ∀ addressPrefix payload,
      core.decode_addr form.addressEdit = some (addressPrefix, payload) → payload.length < 64 := by
  by_cases h186 : form.addressEdit.length = 186
  · simp only [h186, true_and]
    cases hdecode : core.decode_addr form.addressEdit with
    | none =>
      refine iff_of_true ?_ fun _ _ h => by cases h
      unfold fieldRecipient integratedRecipient
      rw [if_pos h186]
      simp [hdecode, StdString.substr]
    | some decoded =>
      obtain ⟨addressPrefix, payload⟩ := decoded
      simp only [Option.some.injEq, Prod.mk.injEq, and_imp, forall_apply_eq_imp_iff,
        forall_eq']
      by_cases hlength : payload.length < 64
      · refine iff_of_true ?_ hlength
        unfold fieldRecipient integratedRecipient
        rw [if_pos h186]
        simp [hdecode, StdString.substr, Nat.not_le.mpr hlength]
      · rw [fieldRecipient_decoded h186 hdecode (Nat.not_lt.mp hlength)]
        exact iff_of_false (fun h => by cases h) hlength
  · refine iff_of_false ?_ fun h => h186 h.1
    unfold fieldRecipient
    rw [if_neg h186]
    intro h
    cases h

/-- A checked plain text or alias pays the address that it stands for. -/
theorem denotes_of_plain (laws : AddressLaws core) (h186 : form.addressEdit.length ≠ 186)
    (h : findRecipient core f form = .ok r) : Denotes core form.addressEdit r.address := by
  obtain ⟨r₀, hfield, halias, hvalid⟩ := findRecipient_eq_ok_iff.mp h
  have hr₀ : r₀.address = form.addressEdit := by
    unfold fieldRecipient at hfield
    rw [if_neg h186] at hfield
    rw [← Except.ok.inj hfield]
  have hplain (hsame : r.address = r₀.address) : Denotes core form.addressEdit r.address := by
    rw [hsame, hr₀] at hvalid ⊢
    exact .plain h186 hvalid
  unfold resolveAlias at halias
  split_ifs at halias with hpoint
  · cases hanswer : core.fetch_dns_txt r₀.address with
    | none =>
      rw [hanswer] at halias
      cases halias
    | some answer =>
      obtain ⟨found, records⟩ := answer
      rw [hanswer] at halias
      obtain rfl := Except.ok.inj halias
      rcases readRecords_address_cases core records r₀ with
        hsame | hempty | ⟨found, hnamed, hread⟩
      · exact hplain hsame
      · rw [hempty, laws.parse_nil] at hvalid
        cases hvalid
      · rw [hr₀] at hpoint hanswer
        rw [hread] at hvalid ⊢
        rw [laws.parse_fromStdString found hvalid]
        exact .openAlias h186 hpoint hanswer hnamed
  · obtain rfl := Except.ok.inj halias
    exact hplain rfl

theorem checkForm_decoded_iff (laws : AddressLaws core) (h186 : form.addressEdit.length = 186)
    (hdecode : core.decode_addr form.addressEdit = some (addressPrefix, payload))
    (hlength : 64 ≤ payload.length) : checkForm core f form = .ok r ↔
      f.trackingMode = false ∧ r = integratedOf core f form payload ∧
        core.parseAccountAddressString (integratedOf core f form payload).address = true ∧
        isValidPaymentId (payload.take 64) = true := by
  have hfield := fieldRecipient_decoded (f := f) h186 hdecode hlength
  have halias : resolveAlias core (integratedOf core f form payload) =
      .ok (integratedOf core f form payload) := by
    unfold resolveAlias
    rw [if_neg]
    simp [integratedOf, laws.not_alias]
  have hfind : findRecipient core f form = .ok r ↔ r = integratedOf core f form payload ∧
      core.parseAccountAddressString (integratedOf core f form payload).address = true := by
    rw [findRecipient_eq_ok_iff, hfield]
    simp only [Except.ok.injEq, exists_eq_left', halias]
    constructor
    · rintro ⟨rfl, hvalid⟩
      exact ⟨rfl, hvalid⟩
    · rintro ⟨rfl, hvalid⟩
      exact ⟨rfl, hvalid⟩
  have hid : ¬ (payload.take 64).length < 64 := by
    rw [List.length_take]
    omega
  rw [checkForm_eq_ok_iff, hfind]
  constructor
  · rintro ⟨htracking, ⟨rfl, hvalid⟩, hpayment, -⟩
    exact ⟨htracking, rfl, hvalid, hpayment⟩
  · rintro ⟨htracking, rfl, hvalid, hpayment⟩
    exact ⟨htracking, ⟨rfl, hvalid⟩, hpayment, fun hshort => absurd hshort hid⟩

/-- With a decoded payload the handler submits exactly when the other checks pass. -/
theorem submits_decoded_iff (laws : AddressLaws core) (h186 : form.addressEdit.length = 186)
    (htracking : f.trackingMode = false)
    (hdecode : core.decode_addr form.addressEdit = some (addressPrefix, payload))
    (hlength : 64 ≤ payload.length) {s : Submission} :
    sendFundsClicked places core f form = .ok (some s) ↔
      PassesOn places core f form payload ∧
        s = submissionOf places f form (integratedOf core f form payload) := by
  rw [sendFundsClicked_submits_iff]
  simp only [checkForm_decoded_iff laws h186 hdecode hlength]
  constructor
  · rintro ⟨r, ⟨-, rfl, hvalid, hpayment⟩, hpassword, hopen, hbalance, rfl⟩
    exact ⟨⟨hvalid, hpayment, hpassword, hopen, hbalance⟩, rfl⟩
  · rintro ⟨⟨hvalid, hpayment, hpassword, hopen, hbalance⟩, rfl⟩
    exact ⟨_, ⟨htracking, rfl, hvalid, hpayment⟩, hpassword, hopen, hbalance, rfl⟩

end Field

section Property

variable {places : ℕ} {core : ConcealCore} {f : FrameState} {form : SendForm}

theorem Denotes.integrated_of_length {text address : StdString} (h : Denotes core text address)
    (h186 : text.length = 186) : ∃ payload keys,
      core.decode_addr text = some (core.CRYPTONOTE_PUBLIC_ADDRESS_BASE58_PREFIX, payload) ∧
        core.fromBinaryArray (payload.drop 64) = some keys := by
  cases h with
  | plain hne => exact absurd h186 hne
  | openAlias hne => exact absurd h186 hne
  | integrated _ hdecode _ hkeys => exact ⟨_, _, hdecode, hkeys⟩

/-- Without an exception an integrated address has been decoded far enough. -/
theorem decoded_of_no_exception (h186 : form.addressEdit.length = 186)
    (htracking : f.trackingMode = false)
    (h : sendFundsClicked places core f form ≠ .error .outOfRange) :
    ∃ addressPrefix payload, core.decode_addr form.addressEdit = some (addressPrefix, payload) ∧
      64 ≤ payload.length := by
  by_contra hnone
  refine h (sendFundsClicked_outOfRange_iff.mpr ⟨htracking, fieldRecipient_outOfRange_iff.mpr ?_⟩)
  refine ⟨h186, fun addressPrefix payload hdecode => ?_⟩
  by_contra hlength
  exact hnone ⟨addressPrefix, payload, hdecode, Nat.not_lt.mp hlength⟩

theorem decodesSoundly_of_sendsDenoted (laws : AddressLaws core)
    (h : SendsDenoted core form.addressEdit (sendFundsClicked places core f form)) :
    DecodesSoundly places core f form := by
  intro h186 htracking
  obtain ⟨addressPrefix, payload, hdecode, hlength⟩ :=
    decoded_of_no_exception h186 htracking h.no_exception
  refine ⟨addressPrefix, payload, hdecode, hlength, ?_⟩
  intro hpass
  have hsubmits := (submits_decoded_iff laws h186 htracking hdecode hlength).mpr ⟨hpass, rfl⟩
  obtain ⟨order, -, hdenotes⟩ := h.pays _ hsubmits
  obtain ⟨payload', keys, hdecode', hkeys⟩ := hdenotes.integrated_of_length h186
  rw [hdecode, Option.some.injEq, Prod.mk.injEq] at hdecode'
  obtain ⟨rfl, rfl⟩ := hdecode'
  exact ⟨rfl, Option.isSome_of_eq_some hkeys⟩

theorem pays_of_decodesSoundly (laws : AddressLaws core) (h : DecodesSoundly places core f form)
    {s : Submission} (hs : sendFundsClicked places core f form = .ok (some s)) :
    ∃ order ∈ s.transfers.head?, Denotes core form.addressEdit order.address := by
  obtain ⟨r, hform, -, -, -, rfl⟩ := sendFundsClicked_submits_iff.mp hs
  obtain ⟨htracking, hfind, -⟩ := checkForm_eq_ok_iff.mp hform
  by_cases h186 : form.addressEdit.length = 186
  · obtain ⟨addressPrefix, payload, hdecode, hlength, hsound⟩ := h h186 htracking
    obtain ⟨hpass, hs⟩ := (submits_decoded_iff laws h186 htracking hdecode hlength).mp hs
    obtain ⟨rfl, hkeys⟩ := hsound hpass
    obtain ⟨keys, hkeys⟩ := Option.isSome_iff_exists.mp hkeys
    refine ⟨_, (congrArg (fun s => s.transfers.head?) hs).trans rfl, ?_⟩
    have hpaid : (integratedOf core f form payload).address =
        core.getAccountAddressAsStr core.CRYPTONOTE_PUBLIC_ADDRESS_BASE58_PREFIX keys := by
      unfold integratedOf keysOfPayload
      rw [hkeys]
      rfl
    rw [hpaid]
    exact .integrated h186 hdecode hlength hkeys
  · exact ⟨_, rfl, denotes_of_plain laws h186 hfind⟩

/-- The Send keeps its promise about the address exactly when the text is no integrated address
or decodes soundly. -/
theorem sendsDenoted_iff_decodesSoundly (laws : AddressLaws core) (places : ℕ) (f : FrameState)
    (form : SendForm) :
    SendsDenoted core form.addressEdit (sendFundsClicked places core f form) ↔
      DecodesSoundly places core f form := by
  constructor
  · exact decodesSoundly_of_sendsDenoted laws
  · intro h
    have hno : sendFundsClicked places core f form ≠ .error .outOfRange := by
      intro hthrown
      obtain ⟨htracking, hfield⟩ := sendFundsClicked_outOfRange_iff.mp hthrown
      obtain ⟨h186, hshort⟩ := fieldRecipient_outOfRange_iff.mp hfield
      obtain ⟨addressPrefix, payload, hdecode, hlength, -⟩ := h h186 htracking
      exact absurd (hshort addressPrefix payload hdecode) (Nat.not_lt.mpr hlength)
    refine ⟨hno, ?_, fun s hs => pays_of_decodesSoundly laws h hs⟩
    intro stop hstop
    by_cases htext : stop.text = none
    · rcases (SendStop.text_eq_none_iff stop).mp htext with rfl | hrefused
      · exact absurd hstop hno
      · exact .inl hrefused
    · exact .inr htext

end Property

section Runs

theorem basePointCore_laws : AddressLaws basePointCore where
  parse_nil := by decide
  parse_fromStdString _ _ := rfl
  not_alias _ _ := rfl

/-- A text as long as an integrated address. -/
def longText : StdString := List.replicate 186 0x63

def longForm : SendForm := { plainForm (qstr "0.001") with addressEdit := longText }

/-- A core for which that text has the prefix of another currency. -/
def otherPrefixCore : ConcealCore :=
  { basePointCore with
    decode_addr := fun text =>
      if text = longText then some (1, List.replicate 128 0x61) else none
    fromBinaryArray := fun _ => some ⟨[], []⟩
    getAccountAddressAsStr := fun _ _ => basePointAddress }

/-- A core for which it has the prefix of the currency. -/
def samePrefixCore : ConcealCore :=
  { otherPrefixCore with
    decode_addr := fun text =>
      if text = longText then
        some (otherPrefixCore.CRYPTONOTE_PUBLIC_ADDRESS_BASE58_PREFIX, List.replicate 128 0x61)
      else none }

theorem samePrefixCore_laws : AddressLaws samePrefixCore where
  parse_nil := by decide
  parse_fromStdString _ _ := rfl
  not_alias _ _ := rfl

/-- A plain address, and an integrated one that decodes soundly and is paid. -/
theorem plainForm_sendsDenoted :
    SendsDenoted basePointCore (plainForm (qstr "0.001")).addressEdit
        (sendFundsClicked 6 basePointCore (embeddedFrame 5000) (plainForm (qstr "0.001"))) ∧
      SendsDenoted samePrefixCore longForm.addressEdit
        (sendFundsClicked 6 samePrefixCore (embeddedFrame 5000) longForm) ∧
      ∃ s, sendFundsClicked 6 samePrefixCore (embeddedFrame 5000) longForm = .ok (some s) := by
  have hsent : sendFundsClicked 6 samePrefixCore (embeddedFrame 5000) longForm =
      .ok (some ⟨[⟨basePointAddress, 1000⟩], 1000, List.replicate 64 0x61, [], none⟩) := by
    decide +kernel
  have hdecode : samePrefixCore.decode_addr longForm.addressEdit =
      some (samePrefixCore.CRYPTONOTE_PUBLIC_ADDRESS_BASE58_PREFIX, List.replicate 128 0x61) := by
    simp only [samePrefixCore, longForm, ↓reduceIte]
  have hlength : 64 ≤ (List.replicate 128 (0x61 : UInt8)).length := by
    rw [List.length_replicate]
    decide
  refine ⟨?_, ?_, _, hsent⟩
  · exact (sendsDenoted_iff_decodesSoundly basePointCore_laws 6 (embeddedFrame 5000)
      (plainForm (qstr "0.001"))).mpr fun h186 => absurd h186 (by decide +kernel)
  · exact (sendsDenoted_iff_decodesSoundly samePrefixCore_laws 6 (embeddedFrame 5000) longForm).mpr
      fun _ _ => ⟨_, _, hdecode, hlength, fun _ => ⟨rfl, rfl⟩⟩

/-- A text that does not decode ends the handler with an exception, and one with the prefix of
another currency is paid. -/
theorem longText_not_sendsDenoted :
    sendFundsClicked 6 basePointCore (embeddedFrame 5000) longForm = .error .outOfRange ∧
      ¬ SendsDenoted basePointCore longText
        (sendFundsClicked 6 basePointCore (embeddedFrame 5000) longForm) ∧
      (∃ s, sendFundsClicked 6 otherPrefixCore (embeddedFrame 5000) longForm = .ok (some s)) ∧
      ¬ SendsDenoted otherPrefixCore longText
        (sendFundsClicked 6 otherPrefixCore (embeddedFrame 5000) longForm) := by
  have hthrown : sendFundsClicked 6 basePointCore (embeddedFrame 5000) longForm =
      .error .outOfRange := by decide +kernel
  have hsent : sendFundsClicked 6 otherPrefixCore (embeddedFrame 5000) longForm =
      .ok (some ⟨[⟨basePointAddress, 1000⟩], 1000, List.replicate 64 0x61, [], none⟩) := by
    decide +kernel
  refine ⟨hthrown, fun h => h.no_exception hthrown, ⟨_, hsent⟩, ?_⟩
  intro h
  obtain ⟨order, -, hdenotes⟩ := h.pays _ hsent
  obtain ⟨payload, keys, hdecode, -⟩ := hdenotes.integrated_of_length List.length_replicate
  have hforeign : otherPrefixCore.decode_addr longText = some (1, List.replicate 128 0x61) := by
    simp only [otherPrefixCore, ↓reduceIte]
  rw [hforeign, Option.some.injEq, Prod.mk.injEq] at hdecode
  exact absurd hdecode.1 (by decide)

end Runs
end ConcealDesktop.IntegratedAddress
