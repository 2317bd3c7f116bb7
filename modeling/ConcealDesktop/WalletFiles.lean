import ConcealDesktop.Library.Programs
import ConcealDesktop.Settings

/-! WalletAdapter with the wallet files and the encryption flag of Settings. The wallet core is a
parameter: whether a call throws is left to it, and what it is relied on for is that the wallets
it creates store public keys derived from the secret keys that it is given. Loading takes exactly
the password of the file, and a change of the password reaches wallet and file together. -/
namespace ConcealDesktop.WalletFiles
open Programs Program

/-- A public or a secret key, 32 bytes. -/
abbrev Key := StdString

def NULL_SECRET_KEY : Key := List.replicate 32 0

/-- The wallet core on one occasion; `none` stands for std::system_error. -/
structure Core where
  secret_key_to_public_key : Key → Option Key
  /-- The view public key that a new wallet file at the path stores. -/
  initializeWithViewKey : QString → Key → Option Key
  /-- The spend public key that a wallet stores for a spend secret key. -/
  createAddress : Key → Option Key
  /-- The spend public key that a tracking wallet stores. -/
  createTrackingAddress : Key → Option Key
  saves : Bool
  resets : Bool
  /-- The spend and view secret keys that are generated for a new wallet. -/
  generated : Key × Key
  initialize_derives : ∀ path secret stored, initializeWithViewKey path secret = some stored →
    secret_key_to_public_key secret = some stored
  createAddress_derives : ∀ secret stored, createAddress secret = some stored →
    secret_key_to_public_key secret = some stored
  tracking_keeps : ∀ key stored, createTrackingAddress key = some stored → stored = key

structure AccountKeys where
  spendPublicKey : Key
  viewPublicKey : Key
  spendSecretKey : Key
  viewSecretKey : Key

structure WalletFile where
  /-- The password that opens the file; a file that is no wallet has none. -/
  password : Option QString
  viewPublicKey : Option Key
  spendPublicKey : Option Key

structure Content where
  file : QString
  password : QString
deriving DecidableEq

/-- A wallet object of the core; it has content once it is loaded or initialised. -/
structure Wallet where
  content : Option Content
deriving DecidableEq

structure State where
  settings : Settings
  m_wallet : Option Wallet
  files : QString → Option WalletFile
  /-- The paths at which the core has created wallet files, the latest first. -/
  created : List QString

abbrev Code (α : Type) := Program State α

def setFile (path : QString) (file : WalletFile) (s : State) : State :=
  { s with files := fun p => if p = path then some file else s.files p }

def updateFile (path : QString) (f : WalletFile → WalletFile) (s : State) : State :=
  { s with files := fun p => if p = path then (s.files p).map f else s.files p }

def setContent (content : Content) (s : State) : State := { s with m_wallet := some ⟨some content⟩ }

section Calls

variable (core : Core)

/-- IWallet::load. -/
def load (path password : QString) : Code Unit := do
  let s ← get
  match s.m_wallet, s.files path with
  | none, _ => crash
  | some _, none => raise
  | some _, some file =>
    if file.password = some password then modify (setContent ⟨path, password⟩) else raise

/-- IWallet::initializeWithViewKey with the empty password. -/
def initializeWithViewKey (path : QString) (secret : Key) : Code Unit := do
  let s ← get
  match s.m_wallet, core.initializeWithViewKey path secret with
  | none, _ => crash
  | some _, none => raise
  | some _, some stored =>
    modify fun s => setFile path ⟨some [], some stored, none⟩
      (setContent ⟨path, []⟩ { s with created := path :: s.created })

/-- IWallet::createAddress; `stored` is the spend public key that the core stores. -/
def createAddress (stored : Option Key) : Code Unit := do
  let s ← get
  match s.m_wallet with
  | none => crash
  | some wallet =>
    match wallet.content, stored with
    | some content, some key =>
      modify (updateFile content.file fun file => { file with spendPublicKey := some key })
    | _, _ => raise

/-- IWallet::save and IWallet::reset write or read again what the file already holds. -/
def perform (works : Bool) : Code Unit := do
  let s ← get
  match s.m_wallet with
  | none => crash
  | some wallet => if works && wallet.content.isSome then pure () else raise

/-- IWallet::changePassword. -/
def replacePassword (old new : QString) : Code Unit := do
  let s ← get
  match s.m_wallet with
  | none => crash
  | some wallet =>
    match wallet.content with
    | none => raise
    | some content =>
      if content.password = old then
        modify fun s => updateFile content.file (fun file => { file with password := some new })
          (setContent ⟨content.file, new⟩ s)
      else raise

end Calls

section Adapter

variable (appFile : QString) (core : Core)

def State.getWalletFile (s : State) : QString := s.settings.getWalletFile appFile

def setEncrypted (encrypted : Bool) : Code Unit :=
  modify fun s => { s with settings := s.settings.setEncrypted encrypted }

/-- NodeAdapter::createWallet into m_wallet. -/
def newWallet : Code Unit := modify fun s => { s with m_wallet := some ⟨none⟩ }

def dropWallet : Code Unit := modify fun s => { s with m_wallet := none }

/-- The probe is taken to be correct; it says no for a path without a file. -/
def walletFileNeedsPassword (path : QString) (s : State) : Bool :=
  match s.files path with
  | some file => decide (file.password ≠ some [])
  | none => false

def isOpen : Code Bool := do
  let s ← get
  pure s.m_wallet.isSome

/-- Nothing in the try block throws, so the catch blocks are not reached. -/
def importLegacyWallet (password : QString) : Code Bool := do
  let s ← get
  let fileName := s.getWalletFile appFile
  setEncrypted (!password.isEmpty)
  let fileName := fileName.replace (QString.lastIndexOf (qstr ".keys") fileName) 5 (qstr ".wallet")
  modify fun s => { s with settings := s.settings.setWalletFile fileName }
  pure true

/-- The try block of WalletAdapter::open. -/
def loadWalletFile (password : QString) : Code Unit := do
  let s ← get
  rescue (load (s.getWalletFile appFile) password) do
    dropWallet
    setEncrypted true

/-- WalletAdapter::open. -/
def openWalletFile (password : QString) : Code Unit := do
  let s ← get
  if password.isEmpty && walletFileNeedsPassword (s.getWalletFile appFile) s then setEncrypted true
  else
    setEncrypted (!password.isEmpty)
    newWallet
    if (s.files (s.getWalletFile appFile)).isSome then
      if (s.getWalletFile appFile).endsWithText (qstr ".keys") then
        if ← importLegacyWallet appFile password then loadWalletFile appFile password else pure ()
      else loadWalletFile appFile password
    else pure ()

def save : Code Bool :=
  rescue (perform core.saves >>= fun _ => pure true) (pure false)

def createWallet : Code Unit := do
  setEncrypted false
  newWallet
  let s ← get
  rescue (do
    initializeWithViewKey core (s.getWalletFile appFile) core.generated.2
    createAddress (core.createAddress core.generated.1)
    perform core.saves) dropWallet

/-- The branch of createWithKeys between the two overloads of createAddress. -/
def storedSpendKey (keys : AccountKeys) : Option Key :=
  if keys.spendSecretKey ≠ NULL_SECRET_KEY then core.createAddress keys.spendSecretKey
  else core.createTrackingAddress keys.spendPublicKey

def createWithKeys (keys : AccountKeys) : Code Unit := do
  newWallet
  setEncrypted false
  let s ← get
  initializeWithViewKey core (s.getWalletFile appFile) keys.viewSecretKey
  createAddress (storedSpendKey core keys)
  perform core.resets

def close : Code Unit := do
  if ← isOpen then
    let _ ← save core
    dropWallet
  else pure ()

/-- WalletAdapter::setWalletFile. -/
def setWalletFile (path : QString) : Code Unit := do
  let s ← get
  if path ≠ s.getWalletFile appFile then setEncrypted false else pure ()
  modify fun s => { s with settings := s.settings.setWalletFile path }

def changePassword (oldPassword newPassword : QString) : Code Bool :=
  rescue (do
    replacePassword oldPassword newPassword
    setEncrypted (!newPassword.isEmpty)
    let _ ← save core
    pure true) (pure false)

def checkWalletPassword (password : QString) : Code Bool := do
  if ← isOpen then rescue (replacePassword password password >>= fun _ => pure true) (pure false)
  else pure false

inductive InitResult where
  | succeeded
  | wrongPassword
  | failed
deriving DecidableEq

def onWalletInitCompleted (result : InitResult) : Code Unit := do
  let s ← get
  if s.m_wallet.isSome then
    match result with
    | .succeeded =>
      if (s.files (s.getWalletFile appFile)).isSome then pure ()
      else
        let _ ← save core
        pure ()
    | .wrongPassword =>
      setEncrypted true
      dropWallet
    | .failed => dropWallet
  else pure ()

end Adapter

section Rules

variable {core : Core} {s : State} {Q : Unit → State → Prop} {E : State → Prop}

@[simp] theorem wp_setEncrypted (encrypted : Bool) :
    wp (setEncrypted encrypted) Q E s ↔
      Q () { s with settings := s.settings.setEncrypted encrypted } := Iff.rfl

@[simp] theorem wp_newWallet :
    wp newWallet Q E s ↔ Q () { s with m_wallet := some ⟨none⟩ } := Iff.rfl

@[simp] theorem wp_dropWallet :
    wp dropWallet Q E s ↔ Q () { s with m_wallet := none } := Iff.rfl

@[simp] theorem wp_isOpen {Q : Bool → State → Prop} :
    wp isOpen Q E s ↔ Q s.m_wallet.isSome s := Iff.rfl

/-- Saving and rescanning change nothing in memory or on disk. -/
theorem wp_perform {works : Bool} (hopen : s.m_wallet.isSome = true) (hQ : Q () s) (hE : E s) :
    wp (perform works) Q E s := by
  obtain ⟨wallet, hw⟩ := Option.isSome_iff_exists.mp hopen
  unfold perform
  simp [hw, hQ, hE]

theorem wp_perform_iff {works : Bool} {content : Content} (hw : s.m_wallet = some ⟨some content⟩) :
    wp (perform works) Q E s ↔ (works = true → Q () s) ∧ (works = false → E s) := by
  unfold perform
  cases works <;> simp [hw]

/-- The path and perhaps the flag change, and nothing else. -/
theorem wp_setWalletFile (appFile path : QString) (s : State) : ∃ settings : Settings,
    settings.getWalletFile appFile = Settings.storedPath path ∧
      ∀ (Q : Unit → State → Prop) (E : State → Prop),
        wp (setWalletFile appFile path) Q E s ↔ Q () { s with settings := settings } := by
  unfold setWalletFile
  by_cases hp : path = s.getWalletFile appFile
  · refine ⟨s.settings.setWalletFile path, rfl, ?_⟩
    intro Q E
    simp [← hp]
  · refine ⟨(s.settings.setEncrypted false).setWalletFile path, rfl, ?_⟩
    intro Q E
    simp [hp]

/-- Opening writes no wallet file. -/
theorem wp_openWalletFile_files (appFile password : QString) (s : State) :
    wp (openWalletFile appFile password)
      (fun _ t => t.files = s.files ∧ t.created = s.created) (fun _ => False) s := by
  have hload : ∀ t : State, t.m_wallet.isSome = true → wp (loadWalletFile appFile password)
      (fun _ u => u.files = t.files ∧ u.created = t.created) (fun _ => False) t := by
    intro t ht
    obtain ⟨wallet, hw⟩ := Option.isSome_iff_exists.mp ht
    unfold loadWalletFile load
    cases hf : t.files (t.getWalletFile appFile) with
    | none => simp [hw, hf]
    | some file => by_cases hp : file.password = some password <;> simp [hw, hf, hp, setContent]
  unfold openWalletFile
  simp only [wp_bind, wp_get, wp_ite, wp_setEncrypted, wp_newWallet, wp_pure, and_self,
    implies_true, and_true, true_and]
  intro _ _
  constructor
  · intro _
    unfold importLegacyWallet
    simp only [wp_bind, wp_get, wp_setEncrypted, wp_modify, wp_pure]
    exact ⟨fun _ => hload _ rfl, fun hno => absurd trivial hno⟩
  · exact fun _ => hload _ rfl

theorem wp_initializeWithViewKey {wallet : Wallet} {path : QString} {secret : Key}
    (hw : s.m_wallet = some wallet) : wp (initializeWithViewKey core path secret) Q E s ↔
      (core.initializeWithViewKey path secret = none → E s) ∧
      ∀ stored, core.initializeWithViewKey path secret = some stored →
        Q () (setFile path ⟨some [], some stored, none⟩
          (setContent ⟨path, []⟩ { s with created := path :: s.created })) := by
  unfold initializeWithViewKey
  cases core.initializeWithViewKey path secret with
  | none => simp [hw]
  | some stored => simp [hw]

theorem wp_createAddress {content : Content} {stored : Option Key}
    (hw : s.m_wallet = some ⟨some content⟩) :
    wp (createAddress stored) Q E s ↔ (stored = none → E s) ∧
      ∀ key, stored = some key →
        Q () (updateFile content.file (fun file => { file with spendPublicKey := some key }) s) := by
  unfold createAddress
  cases stored <;> simp [hw]

/-- With a new wallet object, which has no content yet. -/
def State.withNewWallet (s : State) : State :=
  { s with m_wallet := some ⟨none⟩, settings := s.settings.setEncrypted false }

/-- With a new wallet file that has the view key alone. -/
def State.withViewKey (s : State) (path : QString) (view : Key) : State :=
  setFile path ⟨some [], some view, none⟩
    (setContent ⟨path, []⟩ { s with created := path :: s.created })

/-- With both keys in the new wallet file. -/
def State.withKeys (s : State) (path : QString) (view spend : Key) : State :=
  updateFile path (fun file => { file with spendPublicKey := some spend })
    (s.withViewKey path view)

@[simp] theorem State.withKeys_files (s : State) (path : QString) (view spend : Key) :
    (s.withKeys path view spend).files path = some ⟨some [], some view, some spend⟩ := by
  simp [withKeys, withViewKey, updateFile, setFile]

/-- The three calls of the core in turn. -/
theorem wp_createWithKeys {appFile : QString} {keys : AccountKeys} :
    wp (createWithKeys appFile core keys) Q E s ↔
      (core.initializeWithViewKey (s.getWalletFile appFile) keys.viewSecretKey = none →
        E s.withNewWallet) ∧
      ∀ view, core.initializeWithViewKey (s.getWalletFile appFile) keys.viewSecretKey = some view →
        (storedSpendKey core keys = none →
          E (s.withNewWallet.withViewKey (s.getWalletFile appFile) view)) ∧
        ∀ spend, storedSpendKey core keys = some spend →
          (core.resets = true →
            Q () (s.withNewWallet.withKeys (s.getWalletFile appFile) view spend)) ∧
          (core.resets = false →
            E (s.withNewWallet.withKeys (s.getWalletFile appFile) view spend)) := by
  unfold createWithKeys
  rw [wp_bind, wp_newWallet, wp_bind, wp_setEncrypted, wp_bind, wp_get, wp_bind,
    wp_initializeWithViewKey rfl]
  refine and_congr Iff.rfl (forall_congr' fun view => imp_congr Iff.rfl ?_)
  rw [wp_bind, wp_createAddress rfl]
  refine and_congr Iff.rfl (forall_congr' fun spend => imp_congr Iff.rfl ?_)
  exact wp_perform_iff rfl

@[simp] theorem wp_close : wp (close core) Q E s ↔ Q () { s with m_wallet := none } := by
  obtain ⟨settings, m_wallet, files, created⟩ := s
  unfold close save perform
  cases m_wallet with
  | none => simp
  | some wallet => cases hs : core.saves <;> cases hc : wallet.content <;> simp [hc]

end Rules

end ConcealDesktop.WalletFiles
