import ConcealDesktop.ImportKeys

/-! The tracking key. ReceiveFrame shows the bytes of an AccountKeys without its spend secret key
as hexadecimal digits, and ImportTrackingDialog cuts such a text into four keys again. The two
directions fit for every content of the keys and in either letter case, and the wallet that is
created for the imported keys gets its address from the spend public key. -/
namespace ConcealDesktop.TrackingKey
open Programs Program WalletFiles ImportKeys

structure KeyPair where
  publicKey : Key
  secretKey : Key

/-- What the open wallet answers; `none` stands for std::system_error. -/
structure IWallet where
  getViewKey : Option KeyPair
  getAddressSpendKey : Option KeyPair

structure Encoders where
  podToHex : StdString → StdString
  fromStdString : StdString → QString
  /-- AccountBase::generateViewFromSpend, of which only the secret key is used. -/
  generateViewFromSpend : Key → Key
  privateKeyToMnemonic : Key → StdString
  /-- A variable for keys that getAccountKeys has failed to fill. -/
  unfilledKeys : AccountKeys

/-- The texts of ReceiveFrame. -/
structure KeyLabels where
  m_guiKey : QString
  m_spendKey : QString
  m_viewKey : QString
  m_seed : QString

/-- WalletAdapter::getAccountKeys: its result, and the keys after it. -/
def getAccountKeys (m_wallet : Option IWallet) (_keys : AccountKeys) : Bool × AccountKeys :=
  match m_wallet with
  | none => (false, _keys)
  | some wallet =>
    match wallet.getViewKey, wallet.getAddressSpendKey with
    | some viewKey, some spendKey =>
      (true, ⟨spendKey.publicKey, viewKey.publicKey, spendKey.secretKey, viewKey.secretKey⟩)
    | _, _ => (false, _keys)

/-- The bytes of an AccountKeys. -/
def podOf (keys : AccountKeys) : StdString :=
  keys.spendPublicKey ++ (keys.viewPublicKey ++ (keys.spendSecretKey ++ keys.viewSecretKey))

section Source

variable (e : Encoders) (m_wallet : Option IWallet)

/-- WalletAdapter::getMnemonicSeed: its result, and the seed after it. -/
def getMnemonicSeed : Bool × StdString :=
  let keys := (getAccountKeys m_wallet e.unfilledKeys).2
  let deterministic_private_view_key := e.generateViewFromSpend keys.spendSecretKey
  if deterministic_private_view_key = keys.viewSecretKey then
    (true, e.privateKeyToMnemonic keys.spendSecretKey)
  else
    (false, bytes
      "Your wallet does not support the use of a mnemonic seed. Please create a new wallet.")

/-- ReceiveFrame::walletOpened. -/
def walletOpened (error : ℤ) (labels : KeyLabels) : KeyLabels :=
  if error ≠ 0 then labels
  else
    let keys := (getAccountKeys m_wallet e.unfilledKeys).2
    let trkeys := (getAccountKeys m_wallet e.unfilledKeys).2
    let trkeys := { trkeys with spendSecretKey := NULL_SECRET_KEY }
    { m_guiKey := e.fromStdString (e.podToHex (podOf trkeys))
      m_spendKey := e.fromStdString (e.podToHex keys.spendSecretKey)
      m_viewKey := e.fromStdString (e.podToHex keys.viewSecretKey)
      m_seed := e.fromStdString (getMnemonicSeed e m_wallet).2 }

/-- ReceiveFrame::walletClosed. -/
def walletClosed (labels : KeyLabels) : KeyLabels := { labels with m_guiKey := [] }

end Source

/-- The keys of a wallet, in their sizes. -/
structure KeySet extends AccountKeys where
  spendPublicKey_length : spendPublicKey.length = 32
  viewPublicKey_length : viewPublicKey.length = 32
  spendSecretKey_length : spendSecretKey.length = 32
  viewSecretKey_length : viewSecretKey.length = 32

namespace KeySet

def wallet (keys : KeySet) : IWallet where
  getViewKey := some ⟨keys.viewPublicKey, keys.viewSecretKey⟩
  getAddressSpendKey := some ⟨keys.spendPublicKey, keys.spendSecretKey⟩

/-- The keys without the spend secret key. -/
def tracking (keys : KeySet) : AccountKeys :=
  { keys.toAccountKeys with spendSecretKey := NULL_SECRET_KEY }

end KeySet

/-- The letters a to z in upper case. -/
def upperCase (c : QChar) : QChar := if 0x61 ≤ c ∧ c ≤ 0x7a then c - 0x20 else c

/-- Two texts that differ in the case of letters at most. -/
def SameLetters (s t : QString) : Prop := s.map upperCase = t.map upperCase

/-- What the export and the import rely on: podToHex writes two digits for a byte, fromHex reads
those of a key in either letter case, and conversions keep ASCII text. -/
structure HexCodec (e : Encoders) (d : Decoders) : Prop where
  podToHex_append : ∀ a b, e.podToHex (a ++ b) = e.podToHex a ++ e.podToHex b
  podToHex_length : ∀ a, (e.podToHex a).length = 2 * a.length
  podToHex_digits : ∀ a, ∀ c ∈ e.podToHex a, (QByteArray.fromHexDigit c).isSome = true
  fromHex_eq : ∀ key : Key, key.length = 32 → ∀ text,
    QByteArray.toUpper text = QByteArray.toUpper (e.podToHex key) → d.fromHex text = some key
  fromStdString_ascii : ∀ s : StdString, (∀ c ∈ s, c < 0x80) →
    e.fromStdString s = s.map UInt8.toUInt16
  toStdString_ascii : ∀ s : QString, (∀ c ∈ s, c < 0x80) → d.toStdString s = s.map UInt16.toUInt8

section Letters

theorem upperCase_eq_self {c : QChar} (hc : 0x80 ≤ c) : upperCase c = c := by
  apply if_neg
  rintro ⟨_, hle⟩
  have h := UInt16.le_trans hc hle
  revert h
  decide

theorem ascii_cases {P : QChar → Prop} (h : ∀ n < 128, P (UInt16.ofNat n)) {c : QChar}
    (hc : c < 0x80) : P c := by
  have hn := h c.toNat (UInt16.lt_iff_toNat_lt.mp hc)
  rwa [UInt16.ofNat_toNat] at hn

theorem upperCase_ascii {c : QChar} (hc : c < 0x80) :
    QByteArray.toUpper [c.toUInt8] = [(upperCase c).toUInt8] ∧
      (c.isSpace = true → (upperCase c).isSpace = true) :=
  ascii_cases (P := fun c => QByteArray.toUpper [c.toUInt8] = [(upperCase c).toUInt8] ∧
    (c.isSpace = true → (upperCase c).isSpace = true)) (by decide +kernel) hc

/-- A hexadecimal digit, as a byte and as a character. -/
theorem digit_facts (b : UInt8) : (QByteArray.fromHexDigit b).isSome = true →
    b < 0x80 ∧ upperCase b.toUInt16 < 0x80 ∧ (upperCase b.toUInt16).isSpace = false ∧
      b.toUInt16.toUInt8 = b :=
  QByteArray.forall_byte (P := fun b => (QByteArray.fromHexDigit b).isSome = true →
    b < 0x80 ∧ upperCase b.toUInt16 < 0x80 ∧ (upperCase b.toUInt16).isSpace = false ∧
      b.toUInt16.toUInt8 = b) (by decide +kernel) b

theorem sameLetters_digit {b : UInt8} (hb : (QByteArray.fromHexDigit b).isSome = true) {c : QChar}
    (h : upperCase c = upperCase b.toUInt16) :
    c < 0x80 ∧ c.isSpace = false ∧ QByteArray.toUpper [c.toUInt8] = QByteArray.toUpper [b] := by
  obtain ⟨hascii, hupper, hblank, hback⟩ := digit_facts b hb
  have hc : c < 0x80 := by
    by_contra hc
    rw [← h, upperCase_eq_self (UInt16.not_lt.mp hc)] at hupper
    exact hc hupper
  have hb16 : b.toUInt16 < 0x80 := by
    rw [UInt16.lt_iff_toNat_lt, UInt8.toNat_toUInt16]
    exact UInt8.lt_iff_toNat_lt.mp hascii
  refine ⟨hc, ?_, ?_⟩
  · by_contra hspace
    rw [Bool.not_eq_false] at hspace
    have hup := (upperCase_ascii hc).2 hspace
    rw [h, hblank] at hup
    cases hup
  · have hbyte := (upperCase_ascii hb16).1
    rw [hback] at hbyte
    rw [(upperCase_ascii hc).1, hbyte, h]

theorem sameLetters_cons_iff {c d : QChar} {s t : QString} :
    SameLetters (c :: s) (d :: t) ↔ upperCase c = upperCase d ∧ SameLetters s t := by
  unfold SameLetters
  rw [List.map_cons, List.map_cons, List.cons.injEq]

theorem SameLetters.length_eq {s t : QString} (h : SameLetters s t) : s.length = t.length := by
  have hlength := congrArg List.length h
  rwa [List.length_map, List.length_map] at hlength

/-- A text splits where the text with the same letters does. -/
theorem SameLetters.split {t x y : QString} (h : SameLetters t (x ++ y)) :
    SameLetters (t.take x.length) x ∧ SameLetters (t.drop x.length) y := by
  unfold SameLetters at *
  rw [List.map_take, List.map_drop, h, List.map_append]
  constructor
  · exact List.take_left' (List.length_map _)
  · exact List.drop_left' (List.length_map _)

/-- What a text with the letters of hexadecimal digits is for QString and for fromHex. -/
theorem sameLetters_digits {digits : StdString}
    (hdigits : ∀ c ∈ digits, (QByteArray.fromHexDigit c).isSome = true) {t : QString}
    (h : SameLetters t (digits.map UInt8.toUInt16)) :
    (∀ c ∈ t, c < 0x80 ∧ c.isSpace = false) ∧
      QByteArray.toUpper (t.map UInt16.toUInt8) = QByteArray.toUpper digits := by
  induction digits generalizing t with
  | nil =>
    have ht : t = [] := List.map_eq_nil_iff.mp h
    subst ht
    exact ⟨fun c hc => absurd hc List.not_mem_nil, rfl⟩
  | cons b digits ih =>
    cases t with
    | nil => cases h
    | cons c t =>
      obtain ⟨hhead, htail⟩ := sameLetters_cons_iff.mp h
      obtain ⟨hascii, hblank, hbyte⟩ := sameLetters_digit (hdigits b List.mem_cons_self) hhead
      obtain ⟨hrest, hbytes⟩ := ih (fun d hd => hdigits d (List.mem_cons_of_mem b hd)) htail
      constructor
      · rintro d (_ | ⟨_, hd⟩)
        · exact ⟨hascii, hblank⟩
        · exact hrest d hd
      · rw [List.map_cons, QByteArray.toUpper_cons, QByteArray.toUpper_cons b, hbyte, hbytes]

theorem trimmed_of_not_space {t : QString} (h : ∀ c ∈ t, c.isSpace = false) : t.trimmed = t :=
  QString.trimmed_eq_self (fun _ hc => h _ (List.mem_of_head? hc))
    (fun _ hc => h _ (List.mem_of_getLast? hc))

end Letters

section RoundTrip

variable {e : Encoders} {d : Decoders} (hex : HexCodec e d)
include hex

/-- Text with the letters of exported bytes. -/
theorem hexKey_of_sameLetters {key : Key} (hkey : key.length = 32) {t : QString}
    (h : SameLetters t ((e.podToHex key).map UInt8.toUInt16)) : hexKey d t = some key := by
  obtain ⟨hchars, hupper⟩ := sameLetters_digits (hex.podToHex_digits key) h
  have hascii := hex.toStdString_ascii t fun c hc => (hchars c hc).1
  unfold hexKey
  simp only [hascii, hex.fromHex_eq key hkey _ hupper, if_pos hkey]

theorem length_podToHex {key : Key} (hkey : key.length = 32) :
    ((e.podToHex key).map UInt8.toUInt16).length = 64 := by
  rw [List.length_map, hex.podToHex_length, hkey]

/-- The text that walletOpened shows. -/
theorem walletOpened_guiKey (keys : KeySet) (labels : KeyLabels) :
    (walletOpened e (some keys.wallet) 0 labels).m_guiKey =
      (e.podToHex (podOf keys.tracking)).map UInt8.toUInt16 := by
  apply hex.fromStdString_ascii
  intro c hc
  exact (digit_facts c (hex.podToHex_digits _ c hc)).1

/-- The import reads the exported keys, whatever their bytes are. -/
theorem checkTrackingKey_exported (keys : KeySet) {text filePath : QString} {s : State}
    (hnew : s.files filePath = none)
    (h : SameLetters text ((e.podToHex (podOf keys.tracking)).map UInt8.toUInt16)) :
    checkTrackingKey d s text filePath = .ok keys.tracking := by
  have hnull : NULL_SECRET_KEY.length = 32 := by decide
  have h₁ := length_podToHex hex keys.spendPublicKey_length
  have h₂ := length_podToHex hex keys.viewPublicKey_length
  have h₃ := length_podToHex hex hnull
  have h₄ := length_podToHex hex keys.viewSecretKey_length
  have hlength := h.length_eq
  simp only [podOf, KeySet.tracking, hex.podToHex_append, List.map_append] at h hlength
  simp only [List.length_append, h₁, h₂, h₃, h₄] at hlength
  -- One cut for each of the four keys, at the offsets of the import.
  obtain ⟨hspend, hrest⟩ := h.split
  rw [h₁] at hspend hrest
  obtain ⟨hview, hrest⟩ := hrest.split
  rw [h₂] at hview hrest
  obtain ⟨hsecret, hlast⟩ := hrest.split
  rw [h₃, List.drop_drop] at hsecret hlast
  rw [List.drop_drop] at hlast
  have hlast : SameLetters ((text.drop 192).take 64)
      ((e.podToHex keys.viewSecretKey).map UInt8.toUInt16) := by
    rwa [List.take_of_length_le (by rw [List.length_drop]; omega)]
  unfold checkTrackingKey
  rw [if_neg (not_not_intro hlength), if_neg (by rw [hnew]; decide)]
  simp only [hexKey_of_sameLetters hex keys.spendPublicKey_length hspend,
    hexKey_of_sameLetters hex keys.viewPublicKey_length hview,
    hexKey_of_sameLetters hex hnull hsecret,
    hexKey_of_sameLetters hex keys.viewSecretKey_length hlast, KeySet.tracking]

/-- The exported text has nothing to trim, in either letter case. -/
theorem trimmed_exported (keys : KeySet) {text : QString}
    (h : SameLetters text ((e.podToHex (podOf keys.tracking)).map UInt8.toUInt16)) :
    text.trimmed = text :=
  trimmed_of_not_space fun c hc =>
    ((sameLetters_digits (hex.podToHex_digits _) h).1 c hc).2

end RoundTrip

section Creation

variable {appFile : QString} {core : Core} {s : State}

/-- A core that may only differ in what it makes of a spend secret key. -/
structure SameButSpendSecret (core core' : Core) : Prop where
  initializeWithViewKey : core'.initializeWithViewKey = core.initializeWithViewKey
  createTrackingAddress : core'.createTrackingAddress = core.createTrackingAddress
  saves : core'.saves = core.saves
  resets : core'.resets = core.resets

theorem storedSpendKey_tracking (core : Core) (keys : KeySet) :
    storedSpendKey core keys.tracking = core.createTrackingAddress keys.spendPublicKey :=
  if_neg (not_not_intro rfl)

theorem createWithKeys_tracking_congr {core' : Core} (h : SameButSpendSecret core core')
    (appFile : QString) (keys : KeySet) :
    createWithKeys appFile core' keys.tracking = createWithKeys appFile core keys.tracking := by
  unfold createWithKeys initializeWithViewKey
  rw [storedSpendKey_tracking, storedSpendKey_tracking, h.initializeWithViewKey,
    h.createTrackingAddress, h.resets]

theorem close_congr {core' : Core} (h : SameButSpendSecret core core') :
    close core' = close core := by
  unfold close save
  rw [h.saves]

/-- The calls that end the import leave the wallet file of accepted keys behind. -/
theorem wp_installWallet {s₀ : State} {keys : AccountKeys} {path : QString}
    (hs : s.created = s₀.created) (h : Accepts core (Settings.storedPath path) keys) :
    wp (installWallet appFile core path keys)
      (fun _ t => Created core s₀ (Settings.storedPath path) (some keys) t)
      (Created core s₀ (Settings.storedPath path) (some keys)) s := by
  obtain ⟨settings, hpath, hset⟩ := wp_setWalletFile appFile path s
  obtain ⟨hview, hspend⟩ := h
  obtain ⟨view, hview⟩ := Option.isSome_iff_exists.mp hview
  obtain ⟨spend, hspend⟩ := Option.isSome_iff_exists.mp hspend
  unfold installWallet
  rw [wp_bind, hset, wp_bind, wp_createWithKeys]
  have htarget : State.getWalletFile appFile { s with settings := settings } =
      Settings.storedPath path := hpath
  rw [htarget, hview, hspend]
  simp only [reduceCtorEq, false_implies, true_and, Option.some.injEq, forall_eq']
  generalize ht : State.withKeys _ (Settings.storedPath path) view spend = t
  have hnew : Created core s₀ (Settings.storedPath path) (some keys) t := by
    rw [← ht]
    exact created_of_stored hview hspend (congrArg _ hs) (State.withKeys_files _ _ _ _) rfl rfl
  refine ⟨fun _ => ?_, fun _ => hnew⟩
  apply wp_mono (wp_openWalletFile_files appFile [] t)
  · exact fun _ u hu => hnew.congr hu.1 hu.2
  · exact fun _ hu => hu.elim

end Creation

section Property

variable (appFile : QString) (core : Core) (d : Decoders) (text filePath : QString) (s : State)

/-- What ImportTrackingDialog::importButtonClicked does with keys that pass its checks. -/
def installTracking (keys : AccountKeys) : Code (Option String) := do
  closeIfOpen core
  modify fun s => { s with settings := s.settings.setTrackingMode true }
  installWallet appFile core filePath.trimmed keys
  pure none

/-- The text is imported as the keys without their spend secret key. -/
structure ImportsTracking (keys : KeySet) : Prop where
  accepted : checkTrackingKey d s text.trimmed filePath.trimmed = .ok keys.tracking
  installs : importTrackingKey appFile core d text filePath s =
    installTracking appFile core filePath keys.tracking s
  from_public : storedSpendKey core keys.tracking = core.createTrackingAddress keys.spendPublicKey
  /-- What the core makes of spend secret keys plays no part. -/
  never_from_secret : ∀ core', SameButSpendSecret core core' →
    importTrackingKey appFile core' d text filePath s =
      importTrackingKey appFile core d text filePath s
  creates : Accepts core (Settings.storedPath filePath.trimmed) keys.tracking →
    wp (importTrackingKey appFile core d text filePath)
      (fun message t => message = none ∧
        Created core s (Settings.storedPath filePath.trimmed) (some keys.tracking) t)
      (Created core s (Settings.storedPath filePath.trimmed) (some keys.tracking)) s

variable {appFile core d text filePath s}

theorem importTrackingKey_eq {keys : AccountKeys}
    (h : checkTrackingKey d s text.trimmed filePath.trimmed = .ok keys) (core : Core) :
    importTrackingKey appFile core d text filePath s =
      installTracking appFile core filePath keys s := by
  unfold importTrackingKey
  rw [get_bind, h]
  rfl

theorem installTracking_congr {core' : Core} (h : SameButSpendSecret core core') (keys : KeySet) :
    installTracking appFile core' filePath keys.tracking =
      installTracking appFile core filePath keys.tracking := by
  unfold installTracking closeIfOpen installWallet
  rw [close_congr h, createWithKeys_tracking_congr h]

theorem wp_installTracking {keys : AccountKeys}
    (h : Accepts core (Settings.storedPath filePath.trimmed) keys) :
    wp (installTracking appFile core filePath keys)
      (fun message t => message = none ∧
        Created core s (Settings.storedPath filePath.trimmed) (some keys) t)
      (Created core s (Settings.storedPath filePath.trimmed) (some keys)) s := by
  unfold installTracking
  rw [wp_bind, wp_closeIfOpen, wp_bind, wp_modify, wp_bind]
  apply wp_mono (wp_installWallet rfl h)
  · exact fun _ t ht => ⟨rfl, ht⟩
  · exact fun t ht => ht

/-- The tracking key that the wallet shows, in any letter case, is imported at a path without a
file as the keys of the wallet without the spend secret key. -/
theorem exported_imports {e : Encoders} (hex : HexCodec e d) (keys : KeySet) (labels : KeyLabels)
    (htext : SameLetters text (walletOpened e (some keys.wallet) 0 labels).m_guiKey)
    (hnew : s.files filePath.trimmed = none) :
    ImportsTracking appFile core d text filePath s keys := by
  rw [walletOpened_guiKey hex] at htext
  have haccepted : checkTrackingKey d s text.trimmed filePath.trimmed = .ok keys.tracking := by
    rw [trimmed_exported hex keys htext]
    exact checkTrackingKey_exported hex keys hnew htext
  constructor
  · exact haccepted
  · exact importTrackingKey_eq haccepted core
  · exact storedSpendKey_tracking core keys
  · intro core' hcore
    rw [importTrackingKey_eq haccepted, importTrackingKey_eq haccepted,
      installTracking_congr hcore]
  · intro haccepts
    unfold wp
    rw [importTrackingKey_eq haccepted]
    exact wp_installTracking haccepts

end Property

section Runs

def hexEncoders : Encoders where
  podToHex := QByteArray.toHex
  fromStdString := List.map UInt8.toUInt16
  generateViewFromSpend key := key
  privateKeyToMnemonic key := key
  unfilledKeys := ⟨[], [], [], []⟩

/-- Decoders that refuse a text with anything but pairs of digits. -/
def hexDecoders : Decoders :=
  { asciiDecoders with
    fromHex := fun text =>
      if text.length % 2 = 0 ∧ (text.map QByteArray.fromHexDigit).all Option.isSome then
        some (QByteArray.fromHex text)
      else none }

/-- Digits have their values in either letter case. -/
theorem map_fromHexDigit_toUpper (s : StdString) :
    (QByteArray.toUpper s).map QByteArray.fromHexDigit = s.map QByteArray.fromHexDigit := by
  induction s with
  | nil => rfl
  | cons c s ih =>
    have hbyte := QByteArray.forall_byte
      (P := fun c => (QByteArray.toUpper [c]).map QByteArray.fromHexDigit =
        [QByteArray.fromHexDigit c]) (by decide +kernel) c
    rw [QByteArray.toUpper_cons, List.map_append, hbyte, ih]
    rfl

theorem toHexDigit_isSome : ∀ n < 16,
    (QByteArray.fromHexDigit (QByteArray.toHexDigit n)).isSome = true := by
  decide

theorem toHex_digits {s : StdString} {c : UInt8} (hc : c ∈ QByteArray.toHex s) :
    (QByteArray.fromHexDigit c).isSome = true := by
  obtain ⟨b, -, hb⟩ := List.mem_flatMap.mp hc
  have hlt := b.toNat_lt
  rcases hb with _ | ⟨_, _ | ⟨_, hb⟩⟩
  · exact toHexDigit_isSome _ (by omega)
  · exact toHexDigit_isSome _ (by omega)
  · cases hb

theorem fromHex_congr {s t : StdString}
    (h : s.map QByteArray.fromHexDigit = t.map QByteArray.fromHexDigit) :
    QByteArray.fromHex s = QByteArray.fromHex t := by
  have hread (s : StdString) : s.filterMap QByteArray.fromHexDigit =
      (s.map QByteArray.fromHexDigit).filterMap id := by
    rw [List.filterMap_map]
    rfl
  unfold QByteArray.fromHex
  rw [List.filterMap_reverse, List.filterMap_reverse, hread, hread, h]

theorem hexCodec : HexCodec hexEncoders hexDecoders where
  podToHex_append _ _ := List.flatMap_append
  podToHex_length := QByteArray.length_toHex
  podToHex_digits _ _ hc := toHex_digits hc
  fromHex_eq a _ text h := by
    have hdigits : text.map QByteArray.fromHexDigit =
        (QByteArray.toHex a).map QByteArray.fromHexDigit := by
      rw [← map_fromHexDigit_toUpper text, h]
      exact map_fromHexDigit_toUpper _
    have hlength := congrArg List.length hdigits
    rw [List.length_map, List.length_map, QByteArray.length_toHex] at hlength
    have hupper := fromHex_congr (map_fromHexDigit_toUpper (QByteArray.toHex a))
    rw [QByteArray.fromHex_toUpper_toHex] at hupper
    have hall : ((QByteArray.toHex a).map QByteArray.fromHexDigit).all Option.isSome = true := by
      rw [List.all_map, List.all_eq_true]
      exact fun c hc => toHex_digits hc
    show (if _ then _ else _) = some a
    rw [hdigits, if_pos ⟨by omega, hall⟩, fromHex_congr hdigits, ← hupper]
  fromStdString_ascii _ _ := rfl
  toStdString_ascii _ _ := rfl

/-- A wallet whose two key pairs are the secret key 1 and its public key. -/
def oneKeys : KeySet where
  spendPublicKey := basePoint
  viewPublicKey := basePoint
  spendSecretKey := oneKey
  viewSecretKey := oneKey
  spendPublicKey_length := rfl
  viewPublicKey_length := rfl
  spendSecretKey_length := rfl
  viewSecretKey_length := rfl

def noLabels : KeyLabels := ⟨[], [], [], []⟩

/-- The tracking key of the wallet with its letters in upper case. -/
def oneTrackingKey : QString :=
  (walletOpened hexEncoders (some oneKeys.wallet) 0 noLabels).m_guiKey.map upperCase

theorem some_keeps (key stored : Key) (h : some key = some stored) : stored = key :=
  (Option.some.inj h).symm

/-- A core that also creates the addresses of tracking wallets. -/
def trackingCore : Core where
  secret_key_to_public_key := onePairCore.secret_key_to_public_key
  initializeWithViewKey := onePairCore.initializeWithViewKey
  createAddress := onePairCore.createAddress
  createTrackingAddress := some
  saves := true
  resets := true
  generated := onePairCore.generated
  initialize_derives := onePairCore.initialize_derives
  createAddress_derives := onePairCore.createAddress_derives
  tracking_keeps := some_keeps

theorem oneTrackingKey_imports : ImportsTracking (qstr "d/app") trackingCore hexDecoders
      oneTrackingKey (qstr "b.wallet") openState oneKeys ∧
    Accepts trackingCore (qstr "b.wallet") oneKeys.tracking :=
  ⟨exported_imports hexCodec oneKeys noLabels (by unfold SameLetters; decide +kernel) rfl,
    rfl, rfl⟩

end Runs
end ConcealDesktop.TrackingKey
