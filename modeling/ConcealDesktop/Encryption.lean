import ConcealDesktop.Library.EventSystem
import ConcealDesktop.WalletFiles

/-! The encryption flag over the life of WalletAdapter. The flag is written before a wallet is
loaded and again when that fails, so it tells the truth about the wallet that is loaded at the
end of every operation, and the file of that wallet has the same password. -/
namespace ConcealDesktop.WalletFiles
open EventDriven Programs Program

inductive Event where
  | openWallet (password : QString)
  | createWallet (core : Core)
  | createWithKeys (core : Core) (keys : AccountKeys)
  | changePassword (core : Core) (oldPassword newPassword : QString)
  | checkWalletPassword (password : QString)
  | close (core : Core)
  | setWalletFile (path : QString)
  | initCompleted (core : Core) (result : InitResult)

/-- The state that a program leaves, also when it ends with an exception. -/
def run {α : Type} (code : Code α) (s : State) : State :=
  match code s with
  | .value _ t => t
  | .thrown t => t
  | .fault => s

section Runs

variable (appFile : QString)

def handle (s : State) : Event → State
  | .openWallet password => run (openWalletFile appFile password) s
  | .createWallet core => run (createWallet appFile core) s
  | .createWithKeys core keys => run (createWithKeys appFile core keys) s
  | .changePassword core oldPassword newPassword =>
    run (changePassword core oldPassword newPassword) s
  | .checkWalletPassword password => run (checkWalletPassword password) s
  | .close core => run (close core) s
  | .setWalletFile path => run (setWalletFile appFile path) s
  | .initCompleted core result => run (onWalletInitCompleted appFile core result) s

/-- The GUI sets the wallet path after it has closed the wallet, and changes the password only
through a pointer that is not null. -/
def enabled (s : State) : Event → Prop
  | .setWalletFile _ => s.m_wallet = none
  | .changePassword _ _ _ => s.m_wallet.isSome = true
  | _ => True

instance decidableEnabled (s : State) : (e : Event) → Decidable (enabled s e)
  | .setWalletFile _ => inferInstanceAs (Decidable (s.m_wallet = none))
  | .changePassword _ _ _ => inferInstanceAs (Decidable (s.m_wallet.isSome = true))
  | .openWallet _ | .createWallet _ | .createWithKeys _ _ | .checkWalletPassword _ | .close _
  | .initCompleted _ _ => inferInstanceAs (Decidable True)

def system (settings : Settings) (files : QString → Option WalletFile) : EventSystem State Event where
  init := ⟨settings, none, files, []⟩
  enabled := enabled
  handle := handle appFile

instance (settings : Settings) (files : QString → Option WalletFile) (s : State) (e : Event) :
    Decidable ((system appFile settings files).enabled s e) := decidableEnabled s e

end Runs

/-- The flag says of a loaded wallet whether its password is non-empty. -/
def FlagMatches (s : State) : Prop :=
  ∀ wallet, s.m_wallet = some wallet → ∀ content, wallet.content = some content →
    (s.settings.encrypted = true ↔ content.password ≠ [])

/-- A failed change or check of the password leaves the flag and the wallet as they were. -/
def FailureKeeps (s : State) : Event → Prop
  | .changePassword core oldPassword newPassword =>
    ∀ t, changePassword core oldPassword newPassword s = .value false t →
      t.settings.encrypted = s.settings.encrypted ∧ t.m_wallet = s.m_wallet
  | .checkWalletPassword password =>
    ∀ t, checkWalletPassword password s = .value false t →
      t.settings.encrypted = s.settings.encrypted ∧ t.m_wallet = s.m_wallet
  | _ => True

section Invariant

variable {appFile : QString} {core : Core} {s : State}

/-- A loaded wallet is the one of the current path, its file has its password, and the flag says
whether that is non-empty. -/
def Consistent (appFile : QString) (s : State) : Prop :=
  ∀ wallet, s.m_wallet = some wallet → ∀ content, wallet.content = some content →
    content.file = s.getWalletFile appFile ∧
      (∃ file, s.files content.file = some file ∧ file.password = some content.password) ∧
      s.settings.encrypted = !content.password.isEmpty

theorem encrypted_iff {encrypted : Bool} {password : QString} (h : encrypted = !password.isEmpty) :
    encrypted = true ↔ password ≠ [] := by
  cases password <;> simp [h]

theorem Consistent.flagMatches (h : Consistent appFile s) : FlagMatches s :=
  fun wallet hw content hc => encrypted_iff (h wallet hw content hc).2.2

theorem consistent_of_closed (h : s.m_wallet = none) : Consistent appFile s := by
  intro wallet hw
  rw [h] at hw
  cases hw

theorem consistent_of_unloaded {wallet : Wallet} (hw : s.m_wallet = some wallet)
    (hc : wallet.content = none) : Consistent appFile s := by
  intro wallet' hw' content hc'
  rw [hw] at hw'
  cases hw'
  rw [hc] at hc'
  cases hc'

/-- Where the program keeps the wallet consistent, whether it returns or throws. -/
abbrev Keeps {α : Type} (appFile : QString) (code : Code α) (s : State) : Prop :=
  wp code (fun _ => Consistent appFile) (Consistent appFile) s

theorem consistent_run {α : Type} {code : Code α} (h : Keeps appFile code s) :
    Consistent appFile (run code s) := by
  unfold Keeps wp at h
  unfold run
  cases hcode : code s with
  | value a t => rw [hcode] at h; exact h
  | thrown t => rw [hcode] at h; exact h
  | fault => rw [hcode] at h; exact h.elim

/-- A wallet loaded with the password that the flag was set for is consistent. -/
theorem keeps_loadWalletFile {wallet : Wallet} {password : QString} (hw : s.m_wallet = some wallet)
    (hflag : s.settings.encrypted = !password.isEmpty) :
    Keeps appFile (loadWalletFile appFile password) s := by
  unfold loadWalletFile load
  cases hf : s.files (s.getWalletFile appFile) with
  | none => simp [hw, hf, consistent_of_closed]
  | some file =>
    by_cases hp : file.password = some password
    · simp only [Keeps, wp_bind, wp_get, wp_rescue, hw, hf, hp, ↓reduceIte, wp_modify]
      intro wallet' hw' content hc
      cases hw'
      cases hc
      exact ⟨rfl, ⟨file, hf, hp⟩, hflag⟩
    · simp [hw, hf, hp, consistent_of_closed]

/-- Opening is consistent for every password, since the flag is set to what the password says. -/
theorem keeps_openWalletFile (hs : Consistent appFile s) (password : QString) :
    Keeps appFile (openWalletFile appFile password) s := by
  unfold openWalletFile
  rw [Keeps, wp_bind, wp_get, wp_ite]
  constructor
  · -- The probe finds a password, which a loaded wallet of the path has as well.
    intro hprobe
    rw [wp_setEncrypted]
    intro wallet hw content hc
    obtain ⟨hpath, ⟨file, hfile, hpass⟩, hflag⟩ := hs wallet hw content hc
    refine ⟨hpath, ⟨file, hfile, hpass⟩, ?_⟩
    simp only [Bool.and_eq_true, walletFileNeedsPassword] at hprobe
    rw [← hpath, hfile] at hprobe
    cases hcp : content.password with
    | nil => simp [hpass, hcp] at hprobe
    | cons c rest => rfl
  · intro _
    rw [wp_bind, wp_setEncrypted, wp_bind, wp_newWallet, wp_ite]
    constructor
    · intro _
      rw [wp_ite]
      constructor
      · intro _
        show wp (importLegacyWallet appFile password >>= _) _ _ _
        unfold importLegacyWallet
        simp only [wp_bind, wp_get, wp_setEncrypted, wp_modify, wp_pure, wp_ite]
        exact ⟨fun _ => keeps_loadWalletFile rfl rfl, fun hno => absurd trivial hno⟩
      · exact fun _ => keeps_loadWalletFile rfl rfl
    · intro _
      rw [wp_pure]
      exact consistent_of_unloaded rfl rfl

/-- The state right after the initialisation of a new wallet at the current path. -/
theorem consistent_initialized {file : WalletFile} (hfile : file.password = some [])
    (hflag : s.settings.encrypted = false) :
    Consistent appFile (setFile (s.getWalletFile appFile) file
      (setContent ⟨s.getWalletFile appFile, []⟩
        { s with created := s.getWalletFile appFile :: s.created })) := by
  intro wallet' hw content hc
  cases hw
  cases hc
  exact ⟨rfl, ⟨file, if_pos rfl, hfile⟩, hflag⟩

/-- A file that keeps its password may change otherwise. -/
theorem consistent_updateFile (hs : Consistent appFile s) (path : QString)
    (f : WalletFile → WalletFile) (hf : ∀ file, (f file).password = file.password) :
    Consistent appFile (updateFile path f s) := by
  intro wallet hw content hc
  obtain ⟨hpath, ⟨file, hfile, hpass⟩, hflag⟩ := hs wallet hw content hc
  refine ⟨hpath, ?_, hflag⟩
  by_cases hp : content.file = path
  · refine ⟨f file, ?_, (hf file).trans hpass⟩
    show (if content.file = path then (s.files content.file).map f else _) = _
    rw [if_pos hp, hfile]
    rfl
  · exact ⟨file, (if_neg hp).trans hfile, hpass⟩

/-- The calls that complete a new wallet, from the state in which the object is created. -/
theorem wp_completed {E : State → Prop} {wallet : Wallet} {secret : Key} {stored : Option Key}
    {works : Bool} (hw : s.m_wallet = some wallet) (hflag : s.settings.encrypted = false) (hE : E s)
    (hthrow : ∀ t, Consistent appFile t → E t) :
    wp (do
      initializeWithViewKey core (s.getWalletFile appFile) secret
      createAddress stored
      perform works) (fun _ => Consistent appFile) E s := by
  rw [wp_bind, wp_initializeWithViewKey hw]
  refine ⟨fun _ => hE, ?_⟩
  intro key _
  have hinit (file : WalletFile) (hfile : file.password = some []) : Consistent appFile _ :=
    consistent_initialized hfile hflag
  rw [wp_bind, wp_createAddress rfl]
  refine ⟨fun _ => hthrow _ (hinit _ rfl), ?_⟩
  intro address _
  have haddress := consistent_updateFile (hinit ⟨some [], some key, none⟩ rfl)
    (s.getWalletFile appFile) (fun file => { file with spendPublicKey := some address })
    (fun _ => rfl)
  exact wp_perform rfl haddress (hthrow _ haddress)

theorem keeps_createWallet (core : Core) : Keeps appFile (createWallet appFile core) s := by
  unfold createWallet
  rw [Keeps, wp_bind, wp_setEncrypted, wp_bind, wp_newWallet, wp_bind, wp_get, wp_rescue]
  have hdrop : ∀ t : State, wp dropWallet (fun _ => Consistent appFile) (Consistent appFile) t :=
    fun t => consistent_of_closed rfl
  exact wp_completed rfl rfl (hdrop _) fun t _ => hdrop t

theorem keeps_createWithKeys (core : Core) (keys : AccountKeys) :
    Keeps appFile (createWithKeys appFile core keys) s := by
  unfold createWithKeys
  rw [Keeps, wp_bind, wp_newWallet, wp_bind, wp_setEncrypted, wp_bind, wp_get]
  have hnew : Consistent appFile { s with
      m_wallet := some ⟨none⟩, settings := s.settings.setEncrypted false } :=
    consistent_of_unloaded rfl rfl
  exact wp_completed rfl rfl hnew fun _ ht => ht

theorem keeps_close (core : Core) : Keeps appFile (close core) s := by
  rw [Keeps, wp_close]
  exact consistent_of_closed rfl

theorem keeps_setWalletFile (hclosed : s.m_wallet = none) (path : QString) :
    Keeps appFile (setWalletFile appFile path) s := by
  unfold setWalletFile
  simp only [Keeps, wp_bind, wp_get, wp_ite, wp_setEncrypted, wp_modify]
  exact ⟨fun _ => consistent_of_closed hclosed, fun _ => consistent_of_closed hclosed⟩

theorem keeps_onWalletInitCompleted (hs : Consistent appFile s) (core : Core)
    (result : InitResult) : Keeps appFile (onWalletInitCompleted appFile core result) s := by
  unfold onWalletInitCompleted
  rw [Keeps, wp_bind, wp_get, wp_ite]
  constructor
  · intro hopen
    cases result with
    | succeeded =>
      unfold save
      simp only [wp_ite, wp_bind, wp_rescue, wp_pure]
      exact ⟨fun _ => hs, fun _ => wp_perform hopen hs hs⟩
    | wrongPassword => exact consistent_of_closed rfl
    | failed => exact consistent_of_closed rfl
  · exact fun _ => hs

/-- A change of the password that the core accepts replaces it in wallet and file. -/
theorem wp_replacePassword {Q : Unit → State → Prop} {E : State → Prop} {old new : QString}
    (hopen : s.m_wallet.isSome = true) (hE : E s)
    (hQ : ∀ wallet content, s.m_wallet = some wallet → wallet.content = some content →
      content.password = old →
      Q () (updateFile content.file (fun file => { file with password := some new })
        (setContent ⟨content.file, new⟩ s))) :
    wp (replacePassword old new) Q E s := by
  obtain ⟨wallet, hw⟩ := Option.isSome_iff_exists.mp hopen
  unfold replacePassword
  cases hc : wallet.content with
  | none => simpa [hw, hc] using hE
  | some content =>
    by_cases hold : content.password = old
    · simpa [hw, hc, hold] using hQ wallet content hw hc hold
    · simpa [hw, hc, hold] using hE

theorem consistent_replaced {wallet : Wallet} {content : Content} (hs : Consistent appFile s)
    (hw : s.m_wallet = some wallet) (hc : wallet.content = some content) (password : QString)
    (settings : Settings) (hpath : settings.getWalletFile appFile = s.getWalletFile appFile)
    (hflag : settings.encrypted = !password.isEmpty) :
    Consistent appFile { updateFile content.file (fun file => { file with password := some password })
      (setContent ⟨content.file, password⟩ s) with settings := settings } := by
  obtain ⟨hfile, ⟨file, hold, _⟩, _⟩ := hs wallet hw content hc
  intro wallet' hw' content' hc'
  cases hw'
  cases hc'
  refine ⟨hfile.trans hpath.symm, ⟨{ file with password := some password }, ?_, rfl⟩, hflag⟩
  show (if content.file = content.file then (s.files content.file).map _ else _) = _
  rw [if_pos rfl, hold]
  rfl

theorem keeps_changePassword (hs : Consistent appFile s) (hopen : s.m_wallet.isSome = true)
    (core : Core) (old new : QString) : Keeps appFile (changePassword core old new) s := by
  unfold changePassword save
  rw [Keeps, wp_rescue, wp_bind]
  apply wp_replacePassword hopen hs
  intro wallet content hw hc _
  rw [wp_bind, wp_setEncrypted, wp_bind, wp_rescue, wp_bind]
  have hnew := consistent_replaced hs hw hc new (s.settings.setEncrypted (!new.isEmpty)) rfl rfl
  exact wp_perform rfl hnew hnew

theorem keeps_checkWalletPassword (hs : Consistent appFile s) (password : QString) :
    Keeps appFile (checkWalletPassword password) s := by
  unfold checkWalletPassword
  rw [Keeps, wp_bind, wp_isOpen, wp_ite]
  constructor
  · intro hopen
    rw [wp_rescue, wp_bind]
    apply wp_replacePassword hopen hs
    intro wallet content hw hc hold
    have hflag := (hs wallet hw content hc).2.2
    rw [hold] at hflag
    exact consistent_replaced hs hw hc password s.settings rfl hflag
  · exact fun _ => hs

theorem consistent_handle {e : Event} (hs : Consistent appFile s) (he : enabled s e) :
    Consistent appFile (handle appFile s e) := by
  cases e with
  | openWallet password => exact consistent_run (keeps_openWalletFile hs password)
  | createWallet core => exact consistent_run (keeps_createWallet core)
  | createWithKeys core keys => exact consistent_run (keeps_createWithKeys core keys)
  | changePassword core old new => exact consistent_run (keeps_changePassword hs he core old new)
  | checkWalletPassword password => exact consistent_run (keeps_checkWalletPassword hs password)
  | close core => exact consistent_run (keeps_close core)
  | setWalletFile path => exact consistent_run (keeps_setWalletFile he path)
  | initCompleted core result => exact consistent_run (keeps_onWalletInitCompleted hs core result)

/-- When the change fails the core has thrown before anything was written. -/
theorem changePassword_failed (hopen : s.m_wallet.isSome = true) (core : Core)
    (old new : QString) : wp (changePassword core old new)
      (fun changed t => changed = false → t = s) (fun _ => False) s := by
  unfold changePassword save
  rw [wp_rescue, wp_bind]
  apply wp_replacePassword hopen (fun _ => rfl)
  intro wallet content _ _ _
  rw [wp_bind, wp_setEncrypted, wp_bind, wp_rescue, wp_bind]
  apply wp_perform rfl
  · exact fun h => by cases h
  · exact fun h => by cases h

theorem checkWalletPassword_failed (password : QString) (s : State) :
    wp (checkWalletPassword password) (fun accepted t => accepted = false → t = s)
      (fun _ => False) s := by
  unfold checkWalletPassword
  rw [wp_bind, wp_isOpen, wp_ite]
  constructor
  · intro hopen
    rw [wp_rescue, wp_bind]
    apply wp_replacePassword hopen (fun _ => rfl)
    intro wallet content _ _ _ h
    cases h
  · exact fun _ _ => rfl

theorem failureKeeps_step {e : Event} (he : enabled s e) : FailureKeeps s e := by
  cases e with
  | changePassword core old new =>
    intro t ht
    have hfail := changePassword_failed he core old new
    rw [wp, ht] at hfail
    rw [hfail rfl]
    exact ⟨rfl, rfl⟩
  | checkWalletPassword password =>
    intro t ht
    have hfail := checkWalletPassword_failed password s
    rw [wp, ht] at hfail
    rw [hfail rfl]
    exact ⟨rfl, rfl⟩
  | _ => trivial

end Invariant

/-- In every run the flag tells whether the loaded wallet has a password, and failed changes of
the password have no effect. -/
theorem encryptionFlag_matches (appFile : QString) (settings : Settings)
    (files : QString → Option WalletFile) (h : List Event)
    (hrun : (system appFile settings files).Admissible h) :
    FlagMatches ((system appFile settings files).after h) ∧
      (system appFile settings files).Always FailureKeeps h := by
  have hinv : Consistent appFile ((system appFile settings files).after h) :=
    EventSystem.Always.invariant (I := Consistent appFile) (consistent_of_closed rfl)
      (fun _ _ hs he => consistent_handle hs he) hrun
  constructor
  · exact hinv.flagMatches
  · exact hrun.mono fun _ _ he => failureKeeps_step he

/-- A core that accepts every key and stores it as its own public key. -/
def acceptingCore : Core where
  secret_key_to_public_key := some
  initializeWithViewKey _ secret := some secret
  createAddress := some
  createTrackingAddress := some
  saves := true
  resets := true
  generated := (NULL_SECRET_KEY, NULL_SECRET_KEY)
  initialize_derives _ _ _ h := h
  createAddress_derives _ _ h := h
  tracking_keeps _ _ h := (Option.some.inj h).symm

/-- A new wallet is given a password, closed, and opened again with it. -/
def protectedWallet : List Event :=
  [.changePassword acceptingCore [] (qstr "pw"), .openWallet (qstr "secret"), .openWallet [],
    .close acceptingCore, .changePassword acceptingCore [] (qstr "secret"),
    .createWallet acceptingCore, .setWalletFile (qstr "w.wallet")]

def noFiles (_ : QString) : Option WalletFile := none

theorem encryptionFlag_matches_protectedWallet :
    FlagMatches ((system (qstr "d/app") Settings.initial noFiles).after protectedWallet) ∧
      (system (qstr "d/app") Settings.initial noFiles).Always FailureKeeps protectedWallet :=
  encryptionFlag_matches (qstr "d/app") Settings.initial noFiles protectedWallet (by decide)

end ConcealDesktop.WalletFiles
