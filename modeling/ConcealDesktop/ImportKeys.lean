import ConcealDesktop.WalletFiles

/-! The imports of private keys, of a tracking key and of a GUI key. Each of them closes the open
wallet and changes the settings before the wallet core has seen the keys, and two of them ignore
whether the decoding of the keys has succeeded. The decoders outside the program are parameters,
and so is what an output variable holds when its function has failed. -/
namespace ConcealDesktop.ImportKeys
open Programs Program WalletFiles

structure Decoders where
  toStdString : QString → StdString
  fromHex : StdString → Option StdString
  decode_addr : StdString → Option (ℕ × StdString)
  addressPrefix : ℕ
  sizeofAccountKeys : ℕ
  /-- The keys that the bytes of an AccountKeys stand for. -/
  accountKeysOf : StdString → AccountKeys
  /-- The spend and the view key of a serialised address. -/
  fromBinaryArray : StdString → Option (Key × Key)
  /-- The spend and the view key of a variable that fromBinaryArray has failed to fill. -/
  unfilledKeys : Key × Key
  /-- The public keys of variables that secret_key_to_public_key has failed to fill. -/
  unfilledPublicKeys : Key × Key

section Source

variable (appFile : QString) (core : Core) (d : Decoders)

/-- common::fromHex into a key, with the check of the size. -/
def hexKey (text : QString) : Option Key :=
  match d.fromHex (d.toStdString text) with
  | some key => if key.length = 32 then some key else none
  | none => none

/-- The public keys that follow secret_key_to_public_key, whose results are ignored. -/
def keysOfSecrets (spendSecretKey viewSecretKey : Key) : AccountKeys where
  spendPublicKey := (core.secret_key_to_public_key spendSecretKey).getD d.unfilledPublicKeys.1
  viewPublicKey := (core.secret_key_to_public_key viewSecretKey).getD d.unfilledPublicKeys.2
  spendSecretKey := spendSecretKey
  viewSecretKey := viewSecretKey

def closeIfOpen : Code Unit := do
  if ← isOpen then close core else pure ()

/-- The calls that end every import. -/
def installWallet (filePath : QString) (keys : AccountKeys) : Code Unit := do
  setWalletFile appFile filePath
  createWithKeys appFile core keys
  openWalletFile appFile []

/-- The checks of ImportSecretKeysDialog::importButtonClicked and the secret keys that they
leave. -/
def checkSecretKeys (s : State) (spendKey viewKey filePath : QString) : Except String (Key × Key) :=
  if spendKey.length ≠ 64 then
    .error "Private Spend Key is not valid. The private spend key you entered is not valid."
  else if viewKey.length ≠ 64 then
    .error "Private View Key is not valid. The private view key you entered is not valid."
  else if (s.files filePath).isSome then
    .error "The wallet file already exists. Please change the wallet path and try again."
  else
    match hexKey d spendKey, hexKey d viewKey with
    | none, _ => .error "Key is not valid. The private spend key you entered is not valid."
    | some _, none => .error "Key is not valid. The private view key you entered is not valid."
    | some spendSecretKey, some viewSecretKey => .ok (spendSecretKey, viewSecretKey)

/-- ImportSecretKeysDialog::importButtonClicked; the error message that it shows, if any. -/
def importSecretKeys (spendKey viewKey filePath : QString) : Code (Option String) := do
  let s ← get
  match checkSecretKeys d s spendKey.trimmed viewKey.trimmed filePath.trimmed with
  | .error message => pure (some message)
  | .ok (spendSecretKey, viewSecretKey) =>
    closeIfOpen core
    installWallet appFile core filePath.trimmed (keysOfSecrets core d spendSecretKey viewSecretKey)
    pure none

/-- The checks of ImportTrackingDialog::importButtonClicked and the keys that they leave. -/
def checkTrackingKey (s : State) (keyString filePath : QString) : Except String AccountKeys :=
  if keyString.length ≠ 256 then
    .error "Tracking key is not valid. The tracking key you entered is not valid."
  else if (s.files filePath).isSome then
    .error "The wallet file already exists. Please change the wallet path and try again."
  else
    match hexKey d (keyString.take 64), hexKey d ((keyString.drop 64).take 64),
      hexKey d ((keyString.drop 128).take 64), hexKey d ((keyString.drop 192).take 64) with
    | none, _, _, _ => .error "Key is not valid. The public spend key you entered is not valid."
    | some _, none, _, _ => .error "Key is not valid. The public view key you entered is not valid."
    | some _, some _, none, _ =>
      .error "Key is not valid. The private spend key you entered is not valid."
    | some _, some _, some _, none =>
      .error "Key is not valid. The private view key you entered is not valid."
    | some spendPublicKey, some viewPublicKey, some spendSecretKey, some viewSecretKey =>
      .ok ⟨spendPublicKey, viewPublicKey, spendSecretKey, viewSecretKey⟩

/-- ImportTrackingDialog::importButtonClicked. -/
def importTrackingKey (keyString filePath : QString) : Code (Option String) := do
  let s ← get
  match checkTrackingKey d s keyString.trimmed filePath.trimmed with
  | .error message => pure (some message)
  | .ok keys =>
    closeIfOpen core
    modify fun s => { s with settings := s.settings.setTrackingMode true }
    installWallet appFile core filePath.trimmed keys
    pure none

/-- The extension that MainWindow::importKey appends. -/
def withExtension (filePath : QString) : QString :=
  if filePath.endsWithText (qstr ".wallet") then filePath else filePath ++ qstr ".wallet"

/-- The data of a GUI key with the prefix of the currency. -/
def guiKeyData (keyString : QString) : Option StdString :=
  match d.decode_addr (d.toStdString keyString) with
  | some (addressPrefix, data) => if addressPrefix = d.addressPrefix then some data else none
  | none => none

/-- The keys that MainWindow::importKey goes on with; the result of fromBinaryArray is ignored. -/
def guiKeys (data : StdString) : AccountKeys :=
  if data.length = d.sizeofAccountKeys then d.accountKeysOf data
  else
    let decodedKeys := (d.fromBinaryArray data).getD d.unfilledKeys
    keysOfSecrets core d decodedKeys.1 decodedKeys.2

/-- MainWindow::importKey once its dialog is accepted; it shows no message. -/
def importKey (keyString filePath : QString) : Code (Option String) :=
  if keyString.trimmed.isEmpty || filePath.trimmed.isEmpty then pure none
  else
    match guiKeyData d keyString.trimmed with
    | none => pure none
    | some data => do
      closeIfOpen core
      installWallet appFile core (withExtension filePath.trimmed) (guiKeys core d data)
      pure none

end Source

/-- The three imports with what the user has entered. -/
inductive Import where
  | secretKeys (spendKey viewKey filePath : QString)
  | trackingKey (keyString filePath : QString)
  | guiKey (keyString filePath : QString)

section Property

variable (appFile : QString) (core : Core) (d : Decoders)

def Import.run : Import → Code (Option String)
  | .secretKeys spendKey viewKey filePath => importSecretKeys appFile core d spendKey viewKey filePath
  | .trackingKey keyString filePath => importTrackingKey appFile core d keyString filePath
  | .guiKey keyString filePath => importKey appFile core d keyString filePath

/-- The path of the new wallet file. -/
def Import.target : Import → QString
  | .secretKeys _ _ filePath | .trackingKey _ filePath => Settings.storedPath filePath.trimmed
  | .guiKey _ filePath => Settings.storedPath (withExtension filePath.trimmed)

/-- The key pairs of two secret keys, if both are valid. -/
def validKeys (spendSecretKey viewSecretKey : Key) : Option AccountKeys :=
  match core.secret_key_to_public_key spendSecretKey,
    core.secret_key_to_public_key viewSecretKey with
  | some spendPublicKey, some viewPublicKey =>
    some ⟨spendPublicKey, viewPublicKey, spendSecretKey, viewSecretKey⟩
  | _, _ => none

/-- The keys that the data of a GUI key stands for, if every decoding step succeeds. -/
def decodedKeys (data : StdString) : Option AccountKeys :=
  if data.length = d.sizeofAccountKeys then some (d.accountKeysOf data)
  else
    match d.fromBinaryArray data with
    | none => none
    | some (spendSecretKey, viewSecretKey) => validKeys core spendSecretKey viewSecretKey

/-- The keys that the text stands for: `none` for a text that the import refuses, and `some none`
for one that it goes on with although a decoding step fails. -/
def Import.keys (s : State) : Import → Option (Option AccountKeys)
  | .secretKeys spendKey viewKey filePath =>
    match checkSecretKeys d s spendKey.trimmed viewKey.trimmed filePath.trimmed with
    | .error _ => none
    | .ok (spendSecretKey, viewSecretKey) => some (validKeys core spendSecretKey viewSecretKey)
  | .trackingKey keyString filePath =>
    match checkTrackingKey d s keyString.trimmed filePath.trimmed with
    | .error _ => none
    | .ok keys => some (some keys)
  | .guiKey keyString filePath =>
    if keyString.trimmed.isEmpty || filePath.trimmed.isEmpty then none
    else
      match guiKeyData d keyString.trimmed with
      | none => none
      | some data => some (decodedKeys core d data)

/-- A wallet file has been created at `target` since `s`. Its view public key belongs to the view
secret key, and its spend public key to the spend secret key if there is one. -/
def Created (s : State) (target : QString) (accepted : Option AccountKeys) (t : State) : Prop :=
  ∃ keys, accepted = some keys ∧ t.created = target :: s.created ∧
    ∃ file view spend, t.files target = some file ∧
      file.viewPublicKey = some view ∧
      core.secret_key_to_public_key keys.viewSecretKey = some view ∧
      file.spendPublicKey = some spend ∧
      if keys.spendSecretKey ≠ NULL_SECRET_KEY then
        core.secret_key_to_public_key keys.spendSecretKey = some spend
      else keys.spendPublicKey = spend

/-- A run creates the wallet or changes nothing; one that ends with an exception closes the
program and has to have created the wallet. -/
def AllOrNothing {α : Type} (code : Code α) (created : State → Prop) (s : State) : Prop :=
  wp code (fun _ t => created t ∨ t = s) created s

/-- The core creates a wallet file with the keys. -/
def Accepts (target : QString) (keys : AccountKeys) : Prop :=
  (core.initializeWithViewKey target keys.viewSecretKey).isSome = true ∧
    (storedSpendKey core keys).isSome = true

variable {appFile core d} {target : QString} {accepted : Option AccountKeys} {keys : AccountKeys}
  {s t : State}

theorem not_created_of_created_eq (h : t.created = s.created) :
    ¬ Created core s target accepted t := by
  rintro ⟨_, _, hcreated, _⟩
  rw [h] at hcreated
  exact List.cons_ne_self _ _ hcreated.symm

theorem not_created_of_unspendable {file : WalletFile} (hf : t.files target = some file)
    (hspend : file.spendPublicKey = none) : ¬ Created core s target accepted t := by
  rintro ⟨_, _, _, file', _, _, hf', _, _, hspend', _⟩
  rw [hf] at hf'
  cases hf'
  rw [hspend] at hspend'
  cases hspend'

/-- What the core stores for accepted keys belongs to them. -/
theorem created_of_stored {view spend : Key} {file : WalletFile}
    (hview : core.initializeWithViewKey target keys.viewSecretKey = some view)
    (hspend : storedSpendKey core keys = some spend) (hcreated : t.created = target :: s.created)
    (hf : t.files target = some file) (hfview : file.viewPublicKey = some view)
    (hfspend : file.spendPublicKey = some spend) : Created core s target (some keys) t := by
  refine ⟨keys, rfl, hcreated, file, view, spend, hf, hfview,
    core.initialize_derives _ _ _ hview, hfspend, ?_⟩
  unfold storedSpendKey at hspend
  split_ifs at hspend ⊢ with hnull
  · exact core.createAddress_derives _ _ hspend
  · exact (core.tracking_keeps _ _ hspend).symm

/-- The wallet file of the given keys is the one of the text exactly when the text gave them. -/
theorem created_newFile_iff {s₀ : State} {view spend : Key}
    (haccepted : accepted = some keys ∨ accepted = none)
    (hview : core.initializeWithViewKey target keys.viewSecretKey = some view)
    (hspend : storedSpendKey core keys = some spend) (hcreated : t.created = target :: s₀.created)
    (hf : t.files target = some ⟨some [], some view, some spend⟩) :
    Created core s₀ target accepted t ↔ accepted = some keys := by
  constructor
  · rintro ⟨keys', hkeys, -⟩
    rcases haccepted with hsome | hnone
    · exact hsome
    · rw [hnone] at hkeys
      cases hkeys
  · rintro rfl
    exact created_of_stored hview hspend hcreated hf rfl rfl

theorem Created.congr {u : State} (h : Created core s target accepted t)
    (hf : u.files = t.files) (hc : u.created = t.created) : Created core s target accepted u := by
  obtain ⟨keys, hkeys, hcreated, hfile⟩ := h
  rw [← hf] at hfile
  exact ⟨keys, hkeys, hc.trans hcreated, hfile⟩

/-- Opening at the end of an import neither makes nor undoes a new wallet file. -/
theorem open_created_iff {s₀ : State} (hs : s.created ≠ s₀.created) :
    wp (openWalletFile appFile []) (fun _ t => Created core s₀ target accepted t ∨ t = s₀)
      (Created core s₀ target accepted) s ↔ Created core s₀ target accepted s := by
  have hfiles := wp_openWalletFile_files appFile [] s
  constructor
  · intro h
    apply wp_elim (wp_and h hfiles)
    · rintro _ t ⟨hc | rfl, hf, hcreated⟩
      · exact hc.congr hf.symm hcreated.symm
      · exact absurd hcreated.symm hs
    · exact fun _ h => h.2.elim
  · intro h
    apply wp_mono hfiles
    · exact fun _ t ht => Or.inl (h.congr ht.1 ht.2)
    · exact fun _ h => h.elim

/-- A new wallet has the keys of the text exactly when the core accepts them. -/
theorem createWithKeys_created_iff {s₀ : State} (hs : s.created = s₀.created)
    (haccepted : accepted = some keys ∨ accepted = none) :
    wp (createWithKeys appFile core keys >>= fun _ => openWalletFile appFile [])
      (fun _ t => Created core s₀ (s.getWalletFile appFile) accepted t ∨ t = s₀)
      (Created core s₀ (s.getWalletFile appFile) accepted) s ↔
      accepted = some keys ∧ Accepts core (s.getWalletFile appFile) keys := by
  unfold Accepts
  rw [wp_bind, wp_createWithKeys]
  generalize s.getWalletFile appFile = target
  cases hview : core.initializeWithViewKey target keys.viewSecretKey with
  | none =>
    simp only [forall_const, reduceCtorEq, false_implies, and_true, Option.isSome_none,
      Bool.false_eq_true, false_and, and_false, iff_false]
    exact not_created_of_created_eq hs
  | some view =>
    simp only [reduceCtorEq, false_implies, true_and, Option.some.injEq, forall_eq',
      Option.isSome_some]
    cases hspend : storedSpendKey core keys with
    | none =>
      simp only [forall_const, reduceCtorEq, false_implies, and_true, Option.isSome_none,
        Bool.false_eq_true, and_false, iff_false]
      exact not_created_of_unspendable (if_pos rfl) rfl
    | some spend =>
      simp only [reduceCtorEq, false_implies, true_and, Option.some.injEq, forall_eq',
        Option.isSome_some, and_true]
      have hnew : target :: s.created ≠ s₀.created :=
        fun h => List.cons_ne_self target s.created (h.trans hs.symm)
      have hcreated : target :: s.created = target :: s₀.created := congrArg _ hs
      rw [open_created_iff hnew, created_newFile_iff haccepted hview hspend hcreated
        (State.withKeys_files s.withNewWallet target view spend)]
      -- Whether the core resets the wallet makes no difference to the file.
      cases core.resets <;> simp

/-- The last calls of an import do what they should exactly when the keys are those of the text
and the core accepts them. -/
theorem allOrNothing_installWallet {s₀ s : State} {path : QString} (hs : s.created = s₀.created)
    (haccepted : accepted = some keys ∨ accepted = none) :
    wp (installWallet appFile core path keys)
      (fun _ t => Created core s₀ (Settings.storedPath path) accepted t ∨ t = s₀)
      (Created core s₀ (Settings.storedPath path) accepted) s ↔
      accepted = some keys ∧ Accepts core (Settings.storedPath path) keys := by
  obtain ⟨settings, hpath, hset⟩ := wp_setWalletFile appFile path s
  unfold installWallet
  rw [wp_bind, hset, ← hpath]
  exact createWithKeys_created_iff (s := { s with settings := settings }) hs haccepted

@[simp] theorem wp_closeIfOpen {Q : Unit → State → Prop} {E : State → Prop} :
    wp (closeIfOpen core) Q E s ↔ Q () { s with m_wallet := none } := by
  obtain ⟨settings, m_wallet, files, created⟩ := s
  unfold closeIfOpen
  cases m_wallet <;> simp

/-- A refused import changes nothing. -/
theorem allOrNothing_refused (message : Option String) (created : State → Prop) (s : State) :
    AllOrNothing (pure message : Code (Option String)) created s :=
  Or.inr rfl

/-- An import that is not refused closes the wallet and goes on with some keys, which have to be
those of the text and acceptable to the core. -/
theorem allOrNothing_closed {path : QString} (haccepted : accepted = some keys ∨ accepted = none) :
    AllOrNothing (do
      closeIfOpen core
      installWallet appFile core path keys
      pure (none : Option String)) (Created core s (Settings.storedPath path) accepted) s ↔
      accepted = some keys ∧ Accepts core (Settings.storedPath path) keys := by
  unfold AllOrNothing
  rw [wp_bind, wp_closeIfOpen, wp_bind]
  exact allOrNothing_installWallet rfl haccepted

/-- The tracking mode is set before the core has seen the keys. -/
theorem allOrNothing_tracking {path : QString} (haccepted : accepted = some keys ∨ accepted = none) :
    AllOrNothing (do
      closeIfOpen core
      modify fun s => { s with settings := s.settings.setTrackingMode true }
      installWallet appFile core path keys
      pure (none : Option String)) (Created core s (Settings.storedPath path) accepted) s ↔
      accepted = some keys ∧ Accepts core (Settings.storedPath path) keys := by
  unfold AllOrNothing
  rw [wp_bind, wp_closeIfOpen, wp_bind, wp_modify, wp_bind]
  exact allOrNothing_installWallet rfl haccepted

theorem validKeys_or_none (core : Core) (d : Decoders) (spendSecretKey viewSecretKey : Key) :
    validKeys core spendSecretKey viewSecretKey =
        some (keysOfSecrets core d spendSecretKey viewSecretKey) ∨
      validKeys core spendSecretKey viewSecretKey = none := by
  unfold validKeys keysOfSecrets
  cases core.secret_key_to_public_key spendSecretKey with
  | none => exact Or.inr rfl
  | some spendPublicKey =>
    cases core.secret_key_to_public_key viewSecretKey with
    | none => exact Or.inr rfl
    | some viewPublicKey => exact Or.inl rfl

theorem decodedKeys_or_none (core : Core) (d : Decoders) (data : StdString) :
    decodedKeys core d data = some (guiKeys core d data) ∨ decodedKeys core d data = none := by
  unfold decodedKeys guiKeys
  split_ifs with hsize
  · exact Or.inl rfl
  · cases d.fromBinaryArray data with
    | none => exact Or.inr rfl
    | some secrets => exact validKeys_or_none core d secrets.1 secrets.2

/-- What an import is to do, from the keys that its text stands for. -/
def Expected (core : Core) (target : QString) (keys : Option (Option AccountKeys)) : Prop :=
  keys = none ∨ ∃ accepted, keys = some (some accepted) ∧ Accepts core target accepted

theorem expected_iff (haccepted : accepted = some keys ∨ accepted = none) :
    Expected core target (some accepted) ↔ accepted = some keys ∧ Accepts core target keys := by
  constructor
  · rintro (h | ⟨keys', h, hacc⟩)
    · cases h
    · rcases haccepted with rfl | rfl
      · cases h
        exact ⟨rfl, hacc⟩
      · cases h
  · rintro ⟨rfl, hacc⟩
    exact Or.inr ⟨keys, rfl, hacc⟩

theorem importSecretKeys_iff (spendKey viewKey filePath : QString) :
    let i := Import.secretKeys spendKey viewKey filePath
    AllOrNothing (i.run appFile core d) (Created core s i.target (i.keys core d s).join) s ↔
      Expected core i.target (i.keys core d s) := by
  show wp (importSecretKeys appFile core d spendKey viewKey filePath) _ _ s ↔ _
  unfold importSecretKeys
  rw [wp_bind, wp_get]
  simp only [Import.keys]
  cases hcheck : checkSecretKeys d s spendKey.trimmed viewKey.trimmed filePath.trimmed with
  | error message => exact iff_of_true (allOrNothing_refused _ _ s) (Or.inl rfl)
  | ok secrets =>
    have hkeys := validKeys_or_none core d secrets.1 secrets.2
    exact (allOrNothing_closed hkeys).trans (expected_iff hkeys).symm

theorem importTrackingKey_iff (keyString filePath : QString) :
    let i := Import.trackingKey keyString filePath
    AllOrNothing (i.run appFile core d) (Created core s i.target (i.keys core d s).join) s ↔
      Expected core i.target (i.keys core d s) := by
  show wp (importTrackingKey appFile core d keyString filePath) _ _ s ↔ _
  unfold importTrackingKey
  rw [wp_bind, wp_get]
  simp only [Import.keys]
  cases hcheck : checkTrackingKey d s keyString.trimmed filePath.trimmed with
  | error message => exact iff_of_true (allOrNothing_refused _ _ s) (Or.inl rfl)
  | ok keys => exact (allOrNothing_tracking (Or.inl rfl)).trans (expected_iff (Or.inl rfl)).symm

theorem importKey_iff (keyString filePath : QString) :
    let i := Import.guiKey keyString filePath
    AllOrNothing (i.run appFile core d) (Created core s i.target (i.keys core d s).join) s ↔
      Expected core i.target (i.keys core d s) := by
  show AllOrNothing (importKey appFile core d keyString filePath) _ s ↔ _
  unfold importKey
  simp only [Import.keys]
  split_ifs with hempty
  · exact iff_of_true (allOrNothing_refused _ _ s) (Or.inl rfl)
  · cases hdata : guiKeyData d keyString.trimmed with
    | none => exact iff_of_true (allOrNothing_refused _ _ s) (Or.inl rfl)
    | some data =>
      have hkeys := decodedKeys_or_none core d data
      exact (allOrNothing_closed hkeys).trans (expected_iff hkeys).symm

/-- An import is all or nothing exactly when it refuses its input, or the input stands for keys
with which the core creates a wallet at the chosen path. -/
theorem import_allOrNothing_iff (appFile : QString) (core : Core) (d : Decoders) (i : Import)
    (s : State) :
    AllOrNothing (i.run appFile core d) (Created core s i.target (i.keys core d s).join) s ↔
      i.keys core d s = none ∨
        ∃ accepted, i.keys core d s = some (some accepted) ∧ Accepts core i.target accepted := by
  cases i with
  | secretKeys spendKey viewKey filePath => exact importSecretKeys_iff spendKey viewKey filePath
  | trackingKey keyString filePath => exact importTrackingKey_iff keyString filePath
  | guiKey keyString filePath => exact importKey_iff keyString filePath

end Property

section Runs

/-- The secret key 1, whose public key is the base point. -/
def oneKey : Key := 1 :: List.replicate 31 0

def basePoint : Key := 0x58 :: List.replicate 31 0x66

/-- A core that knows one key pair and finds every other secret key invalid. -/
def onePairCore : Core where
  secret_key_to_public_key secret := if secret = oneKey then some basePoint else none
  initializeWithViewKey _ secret := if secret = oneKey then some basePoint else none
  createAddress secret := if secret = oneKey then some basePoint else none
  createTrackingAddress _ := none
  saves := true
  resets := true
  generated := (oneKey, oneKey)
  initialize_derives _ _ _ h := h
  createAddress_derives _ _ h := h
  tracking_keeps _ _ h := by cases h

/-- A key text of the largest bytes, which is no reduced scalar. -/
def largestText : QString := List.replicate 64 (qchar 'f')

def asciiDecoders : Decoders where
  toStdString := List.map UInt16.toUInt8
  fromHex text := if text = List.replicate 64 0x66 then some (List.replicate 32 255) else none
  decode_addr _ := none
  addressPrefix := 0
  sizeofAccountKeys := 128
  accountKeysOf _ := ⟨[], [], [], []⟩
  fromBinaryArray _ := none
  unfilledKeys := ([], [])
  unfilledPublicKeys := ([], [])

/-- A wallet is open. -/
def openState : State where
  settings := ⟨some (qstr "a.wallet"), false, false, qstr "a.addressbook"⟩
  m_wallet := some ⟨some ⟨qstr "a.wallet", []⟩⟩
  files path := if path = qstr "a.wallet" then some ⟨some [], some basePoint, some basePoint⟩ else none
  created := []

def importLargest : Import := .secretKeys largestText largestText (qstr "b.wallet")

/-- The invalid keys end the program after the open wallet is closed and the path is changed. -/
theorem importLargest_closes :
    wp (importLargest.run (qstr "d/app") onePairCore asciiDecoders) (fun _ _ => False)
        (fun t => t.m_wallet = some ⟨none⟩ ∧ t.settings.walletFile = some (qstr "b.wallet"))
        openState ∧
      ¬ AllOrNothing (importLargest.run (qstr "d/app") onePairCore asciiDecoders)
        (Created onePairCore openState importLargest.target
          (importLargest.keys onePairCore asciiDecoders openState).join) openState := by
  constructor
  · exact ⟨rfl, rfl⟩
  · intro h
    have hexpected := (importSecretKeys_iff largestText largestText (qstr "b.wallet")).mp h
    have hkeys : importLargest.keys onePairCore asciiDecoders openState = some none := by rfl
    rcases hexpected with hnone | ⟨accepted, hsome, _⟩
    · cases hkeys.symm.trans hnone
    · cases hkeys.symm.trans hsome

end Runs
end ConcealDesktop.ImportKeys
