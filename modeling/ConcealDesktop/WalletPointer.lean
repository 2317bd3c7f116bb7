import ConcealDesktop.Library.EventSystem
import ConcealDesktop.Library.Programs
import ConcealDesktop.Wallet

/-! The wallet pointer of WalletAdapter through the handlers of the frames. Some methods check the
pointer and others rely on their callers, and a handler that waits in a dialog or a delay lets
other handlers run, so what it has checked before the wait may no longer hold after it. A
dereference of the null pointer is a fault; any call into the wallet core may throw. -/
namespace ConcealDesktop.WalletPointer
open EventDriven Programs Program

/-- The methods of WalletAdapter that only read the wallet. -/
inductive Getter where
  | getAddress
  | getActualBalance
  | getPendingBalance
  | getActualDepositBalance
  | getPendingDepositBalance
  | getWalletMaximum
  | getTransactionCount
  | getDepositCount
  | getTransaction
  | getTransfer
  | getDeposit
  | getAccountKeys
deriving DecidableEq

/-- The calls into the wallet core, each of which returns or throws std::system_error. -/
inductive Core where
  | read (getter : Getter)
  | getUnspentOutputsCount
  | getTransactionTransferCount
  | getTransactionDeterministicSecretKey
  | load
  | initializeWithViewKey
  | createAddress
  | save (details : Bool)
  | exportWallet
  | reset
  | changePassword (typed : Bool)
  | transfer
  | createOptimizationTransaction
  | createDeposit
  | withdrawDeposit
deriving DecidableEq

/-- What a handler asks besides the pointer. -/
inductive Question where
  | walletFileNeedsPassword
  | walletFileExists
  | walletFileIsLegacy
  | legacyImportFails
  /-- WelcomeFrame::nextShowSeed accepts the path. -/
  | newPathUsable
  | seedConfirmed
  | deterministicKeys
  | isEncrypted
  | isTrackingMode
  | isSynchronized
  | dialogAccepted
  | pathChosen
  | passwordTyped
  | importAccepted
  | orderComplete
  | unlockedDeposits
  | remoteFeeDue
deriving DecidableEq

/-- What a handler meets on one stretch of its run. -/
structure World where
  throws : Core → Bool
  answer : Question → Bool
  unspentOutputs : ℕ

structure Memory where
  /-- The pointer is not null. -/
  m_wallet : Bool
  m_isOptimizing : Bool
deriving DecidableEq

abbrev Code (α : Type) := Program Memory α

/-- A call through the pointer. -/
def dereference (core : Core) (w : World) : Code Unit := do
  let s ← get
  if s.m_wallet then
    if w.throws core then raise else pure ()
  else crash

/-- A call through the pointer that never throws. -/
def observe : Code Unit := do
  let s ← get
  if s.m_wallet then pure () else crash

def assign (m_wallet : Bool) : Code Unit := modify fun s => { s with m_wallet := m_wallet }

/-- A body in a try block; whether it ends without an exception. -/
def succeeds (body : Code Unit) : Code Bool := rescue (body >>= fun _ => pure true) (pure false)

section Adapter

variable (w : World)

def isOpen : Code Bool := do
  let s ← get
  pure s.m_wallet

/-- The getters check the pointer and turn an exception into a default. -/
def Getter.run (getter : Getter) : Code Bool := do
  if ← isOpen then succeeds (dereference (.read getter) w) else pure false

def getAccountKeys : Code Bool := Getter.getAccountKeys.run w

/-- The result of getAccountKeys is not looked at. -/
def getMnemonicSeed : Code Bool := do
  let _ ← getAccountKeys w
  pure (w.answer .deterministicKeys)

def getNumUnlockedOutputs : Code ℕ := do
  if ← isOpen then
    dereference .getUnspentOutputsCount w
    pure w.unspentOutputs
  else pure 0

def getTransferCount : Code Unit := do
  if ← isOpen then dereference .getTransactionTransferCount w else pure ()

def getTxKey : Code Unit := do
  if ← isOpen then dereference .getTransactionDeterministicSecretKey w else pure ()

def checkWalletPassword (typed : Bool) : Code Bool := do
  if ← isOpen then succeeds (dereference (.changePassword typed) w) else pure false

def addObserver : Code Unit := observe

def save (details : Bool) : Code Bool := succeeds (dereference (.save details) w)

def close : Code Unit := do
  if ← isOpen then
    let _ ← save w true
    observe
    assign false
  else pure ()

/-- Both catch blocks drop the wallet. -/
def importLegacyWallet : Code Bool := do
  if w.answer .legacyImportFails then
    assign false
    pure false
  else pure true

def loadWalletFile : Code Unit :=
  rescue (dereference .load w) do
    observe
    assign false

def openWalletFile (typed : Bool) : Code Unit := do
  if !typed && w.answer .walletFileNeedsPassword then pure ()
  else
    assign true
    observe
    if w.answer .walletFileExists then
      if w.answer .walletFileIsLegacy then
        if ← importLegacyWallet w then loadWalletFile w else pure ()
      else loadWalletFile w
    else pure ()

def createWallet : Code Unit := do
  assign true
  rescue (do
    dereference .initializeWithViewKey w
    dereference .createAddress w
    dereference (.save false) w) (assign false)

def createWithKeys : Code Unit := do
  assign true
  dereference .initializeWithViewKey w
  dereference .createAddress w
  dereference .reset w
  addObserver

def backup : Code Unit := dereference .exportWallet w

def reset : Code Unit := dereference .reset w

def sendTransaction : Code Unit := do
  if ← isOpen then
    let _ ← succeeds do
      dereference (.read .getAddress) w
      dereference .transfer w
    pure ()
  else pure ()

def sendMessage : Code Unit := do
  let _ ← succeeds do
    dereference (.read .getAddress) w
    dereference .transfer w
  pure ()

def optimizeWallet : Code Unit := do
  let _ ← succeeds do
    dereference (.read .getAddress) w
    dereference .createOptimizationTransaction w
  pure ()

def findTransactionIdByHashHex : Code Unit := do
  if ← isOpen then
    let _ ← Getter.getTransactionCount.run w
    let _ ← Getter.getTransaction.run w
    pure ()
  else pure ()

def deposit : Code Unit := do
  if ← isOpen then
    let _ ← succeeds do
      dereference (.read .getAddress) w
      dereference .createDeposit w
      findTransactionIdByHashHex w
    pure ()
  else pure ()

def withdrawUnlockedDeposits : Code Unit := do
  let _ ← succeeds do
    dereference .withdrawDeposit w
    findTransactionIdByHashHex w
  pure ()

def changePassword : Code Bool :=
  succeeds do
    dereference (.changePassword true) w
    let _ ← save w true
    pure ()

end Adapter

/-- What a handler does once the password is checked. -/
inductive Secured where
  | sendFunds
  | sendMessage
  | newDeposit
  | backupKeys
  | backupFile
deriving DecidableEq

/-- Where a handler waits in an event loop of its own. -/
inductive Point where
  | passwordDialog (next : Secured)
  | unlockDialog
  | openDialog
  | sendDelay
  | messageDelay
  | depositWarning
  | backupFileDialog
  | rescanWarning
  | changePasswordDialog
  | newPasswordDialog (error : Bool)
  | optimizeDelay
  | autoOptimizeDelay (rounds : ℕ) (tracked : ℕ)
deriving DecidableEq

/-- What starts a handler in the event loop: buttons, timers, signals, the start and the end. -/
inductive Action where
  | startUp
  | quit
  | nextShowSeed
  | nextValidate
  | openWallet
  | closeWallet
  | importKeys
  | askForWalletPassword
  | backupClicked
  | backupFileClicked
  | receiveFrameBackup
  | rescanClicked
  | optimizeClicked
  | autoOptimize
  | sendFundsClicked
  | sendMessageClicked
  | newDepositClicked
  | createDepositCompleted
  | withdrawClicked
  | encryptWallet
  | unlockWallet
  | lockWallet
  /-- WalletAdapter::onWalletInitCompleted. -/
  | initCompleted (error : Bool)
  | updateBlockStatusText
  | read (getter : Getter)
  | readTransferCount
  | readTxKey
deriving DecidableEq

section Handlers

variable (w : World)

def finish : Code (Option Point) := pure none

def waitIn (point : Point) : Code (Option Point) := pure (some point)

/-- The rest of a handler after OverviewFrame::checkWalletPassword. -/
def Secured.proceed : Secured → Code (Option Point)
  | .sendFunds => waitIn .sendDelay
  | .sendMessage => waitIn .messageDelay
  | .newDeposit => waitIn .depositWarning
  | .backupKeys => do
    let _ ← getMnemonicSeed w
    let _ ← getAccountKeys w
    finish
  | .backupFile => waitIn .backupFileDialog

/-- OverviewFrame::checkWalletPassword up to its dialog. -/
def promptPassword (next : Secured) : Code (Option Point) := do
  if w.answer .isEncrypted then waitIn (.passwordDialog next)
  else if ← checkWalletPassword w false then next.proceed w
  else waitIn (.passwordDialog next)

/-- OverviewFrame::askForWalletPassword up to its dialog. -/
def promptUnlock : Code (Option Point) := do
  if w.answer .isEncrypted then waitIn .unlockDialog
  else if ← checkWalletPassword w false then finish
  else waitIn .unlockDialog

/-- The head of the loop in OptimizationManager::optimize. -/
def optimizeRound (rounds numUnlockedOutputs : ℕ) : Code (Option Point) := do
  if 100 < numUnlockedOutputs ∧ rounds < 3 then
    optimizeWallet w
    waitIn (.autoOptimizeDelay rounds numUnlockedOutputs)
  else
    modify fun s => { s with m_isOptimizing := false }
    finish

def closeIfOpen : Code Unit := do
  if ← isOpen then close w else pure ()

def Action.start : Action → Code (Option Point)
  | .startUp => do
    if w.answer .isEncrypted then finish
    else
      openWalletFile w false
      finish
  | .quit | .closeWallet => do
    close w
    finish
  | .nextShowSeed => do
    if w.answer .newPathUsable then
      closeIfOpen w
      createWallet w
      addObserver
      let _ ← getMnemonicSeed w
      finish
    else finish
  | .nextValidate => do
    if w.answer .seedConfirmed then
      closeIfOpen w
      openWalletFile w false
      finish
    else finish
  | .openWallet => do
    if w.answer .pathChosen then
      closeIfOpen w
      openWalletFile w false
      finish
    else finish
  | .importKeys => do
    if w.answer .importAccepted then
      closeIfOpen w
      createWithKeys w
      openWalletFile w false
      finish
    else finish
  | .askForWalletPassword => waitIn .openDialog
  | .backupClicked => promptPassword w .backupKeys
  | .backupFileClicked => promptPassword w .backupFile
  | .receiveFrameBackup => waitIn .backupFileDialog
  | .rescanClicked => waitIn .rescanWarning
  | .optimizeClicked => do
    if w.answer .isTrackingMode then finish
    else
      optimizeWallet w
      waitIn .optimizeDelay
  | .autoOptimize => do
    let s ← get
    if s.m_isOptimizing || w.answer .isTrackingMode || !s.m_wallet || !w.answer .isSynchronized then
      finish
    else
      modify fun s => { s with m_isOptimizing := true }
      let numUnlockedOutputs ← getNumUnlockedOutputs w
      optimizeRound w 0 numUnlockedOutputs
  | .sendFundsClicked => do
    if w.answer .orderComplete then promptPassword w .sendFunds else finish
  | .sendMessageClicked => promptPassword w .sendMessage
  | .newDepositClicked => do
    let _ ← Getter.getActualBalance.run w
    if w.answer .orderComplete then promptPassword w .newDeposit else finish
  | .createDepositCompleted => do
    if w.answer .remoteFeeDue then
      if ← isOpen then
        sendTransaction w
        finish
      else finish
    else finish
  -- DepositModel reads every deposit through the pointer, so a closed wallet has no unlocked one.
  | .withdrawClicked => do
    if ← Getter.getDeposit.run w then
      if w.answer .unlockedDeposits then
        withdrawUnlockedDeposits w
        finish
      else finish
    else finish
  | .encryptWallet =>
    if w.answer .isEncrypted then waitIn .changePasswordDialog else waitIn (.newPasswordDialog false)
  | .unlockWallet => promptUnlock w
  | .lockWallet => do
    let _ ← checkWalletPassword w false
    finish
  | .initCompleted error => do
    if ← isOpen then
      if error then
        assign false
        finish
      else
        dereference (.read .getActualBalance) w
        dereference (.read .getPendingBalance) w
        dereference (.read .getActualDepositBalance) w
        dereference (.read .getPendingDepositBalance) w
        dereference (.read .getAddress) w
        if w.answer .walletFileExists then finish
        else
          let _ ← save w true
          finish
    else finish
  | .updateBlockStatusText => do
    let _ ← isOpen
    finish
  | .read getter => do
    let _ ← getter.run w
    finish
  | .readTransferCount => do
    getTransferCount w
    finish
  | .readTxKey => do
    getTxKey w
    finish

/-- The rest of a handler after its wait. -/
def Point.resume : Point → Code (Option Point)
  | .passwordDialog next => do
    if w.answer .dialogAccepted then
      if ← checkWalletPassword w true then next.proceed w else promptPassword w next
    else finish
  | .unlockDialog => do
    if w.answer .dialogAccepted then
      if ← checkWalletPassword w true then finish else promptUnlock w
    else finish
  | .openDialog => do
    if w.answer .dialogAccepted then
      openWalletFile w (w.answer .passwordTyped)
      finish
    else finish
  | .sendDelay => do
    if ← isOpen then
      sendTransaction w
      finish
    else finish
  | .messageDelay => do
    if ← isOpen then
      let _ ← Getter.getActualBalance.run w
      if w.answer .orderComplete then
        if ← isOpen then
          sendMessage w
          finish
        else finish
      else finish
    else finish
  | .depositWarning => do
    if w.answer .dialogAccepted then
      deposit w
      finish
    else finish
  | .backupFileDialog => do
    if w.answer .pathChosen then
      backup w
      finish
    else finish
  | .rescanWarning => do
    if w.answer .dialogAccepted then
      reset w
      finish
    else finish
  | .changePasswordDialog => do
    if w.answer .dialogAccepted then
      if ← changePassword w then finish else waitIn .changePasswordDialog
    else finish
  | .newPasswordDialog error => do
    if w.answer .dialogAccepted then
      if w.answer .passwordTyped then
        if ← changePassword w then finish else waitIn (.newPasswordDialog true)
      else finish
    else if error then waitIn (.newPasswordDialog true)
    else finish
  | .optimizeDelay => finish
  | .autoOptimizeDelay rounds tracked => do
    let numUnlockedOutputs ← getNumUnlockedOutputs w
    if tracked ≠ numUnlockedOutputs then
      modify fun s => { s with m_isOptimizing := false }
      finish
    else optimizeRound w (rounds + 1) numUnlockedOutputs

end Handlers

inductive Status where
  | running
  /-- An exception has left a handler, which ends the program. -/
  | aborted
  | faulted
deriving DecidableEq

structure State where
  memory : Memory
  /-- The waiting handlers, the innermost first. -/
  waiting : List Point
  status : Status

inductive Event where
  | start (action : Action) (w : World)
  /-- The innermost wait ends. -/
  | resume (w : World)

def enabled (s : State) : Event → Prop
  | .start _ _ => s.status = .running
  | .resume _ => s.status = .running ∧ s.waiting ≠ []

/-- Runs a stretch of a handler above the handlers that keep waiting. -/
def runStretch (waiting : List Point) (code : Code (Option Point)) (memory : Memory) : State :=
  match code memory with
  | .value point after => ⟨after, point.toList ++ waiting, .running⟩
  | .thrown after => ⟨after, waiting, .aborted⟩
  | .fault => ⟨memory, waiting, .faulted⟩

def handle (s : State) : Event → State
  | .start action w => runStretch s.waiting (action.start w) s.memory
  | .resume w =>
    match s.waiting with
    | [] => s
    | point :: rest => runStretch rest (point.resume w) s.memory

def system : EventSystem State Event where
  init := ⟨⟨false, false⟩, [], .running⟩
  enabled := enabled
  handle := handle

/-- The step does not dereference the null pointer. -/
def NoFault (s : State) (e : Event) : Prop := (handle s e).status ≠ .faulted

/-- createWallet stores the keys of the new wallet. -/
def World.creates (w : World) : Bool :=
  !w.throws .initializeWithViewKey && !w.throws .createAddress && !w.throws (.save false)

/-- The handlers that rely on their callers meet an open wallet: a new wallet can be created,
optimize is clicked while a wallet is open, and one is still open when the dialogs of backup,
rescan and encryption are confirmed. -/
def WalletAtHand (s : State) : Event → Prop
  | .start .nextShowSeed w => w.answer .newPathUsable = true → w.creates = true
  | .start .optimizeClicked w => w.answer .isTrackingMode = false → s.memory.m_wallet = true
  | .start _ _ => True
  | .resume w =>
    match s.waiting with
    | .backupFileDialog :: _ => w.answer .pathChosen = true → s.memory.m_wallet = true
    | .rescanWarning :: _ | .changePasswordDialog :: _ =>
      w.answer .dialogAccepted = true → s.memory.m_wallet = true
    | .newPasswordDialog _ :: _ =>
      w.answer .dialogAccepted = true → w.answer .passwordTyped = true → s.memory.m_wallet = true
    | _ => True

section Rules

variable {Q : Unit → Memory → Prop} {E : Memory → Prop} {s : Memory} (w : World)

@[simp] theorem wp_dereference (core : Core) : wp (dereference core w) Q E s ↔
    s.m_wallet = true ∧ (w.throws core = true → E s) ∧ (w.throws core = false → Q () s) := by
  unfold dereference
  cases hs : s.m_wallet <;> simp [hs]

@[simp] theorem wp_observe : wp observe Q E s ↔ s.m_wallet = true ∧ Q () s := by
  unfold observe
  cases hs : s.m_wallet <;> simp [hs]

@[simp] theorem wp_assign (m_wallet : Bool) :
    wp (assign m_wallet) Q E s ↔ Q () { s with m_wallet := m_wallet } := Iff.rfl

@[simp] theorem wp_isOpen {Q : Bool → Memory → Prop} : wp isOpen Q E s ↔ Q s.m_wallet s := Iff.rfl

@[simp] theorem wp_succeeds (body : Code Unit) {Q : Bool → Memory → Prop} :
    wp (succeeds body) Q E s ↔ wp body (fun _ => Q true) (Q false) s := by
  unfold succeeds
  simp

@[simp] theorem wp_finish {Q : Option Point → Memory → Prop} : wp finish Q E s ↔ Q none s := Iff.rfl

@[simp] theorem wp_waitIn (point : Point) {Q : Option Point → Memory → Prop} :
    wp (waitIn point) Q E s ↔ Q (some point) s := Iff.rfl

/-- A method that checks the pointer before it reads the wallet. -/
theorem wp_guarded (core : Core) {Q : Bool → Memory → Prop} :
    wp (do if ← isOpen then succeeds (dereference core w) else pure false) Q E s ↔
      Q (s.m_wallet && !w.throws core) s := by
  cases hs : s.m_wallet <;> cases hw : w.throws core <;> simp [hs, hw]

@[simp] theorem wp_getter (getter : Getter) {Q : Bool → Memory → Prop} :
    wp (getter.run w) Q E s ↔ Q (s.m_wallet && !w.throws (.read getter)) s :=
  wp_guarded w (.read getter)

@[simp] theorem wp_checkWalletPassword (typed : Bool) {Q : Bool → Memory → Prop} :
    wp (checkWalletPassword w typed) Q E s ↔
      Q (s.m_wallet && !w.throws (.changePassword typed)) s :=
  wp_guarded w (.changePassword typed)

@[simp] theorem wp_getMnemonicSeed {Q : Bool → Memory → Prop} :
    wp (getMnemonicSeed w) Q E s ↔ Q (w.answer .deterministicKeys) s := by
  unfold getMnemonicSeed getAccountKeys
  simp

@[simp] theorem wp_close : wp (close w) Q E s ↔ Q () { s with m_wallet := false } := by
  obtain ⟨m_wallet, m_isOptimizing⟩ := s
  unfold close save
  cases m_wallet <;> cases hw : w.throws (.save true) <;> simp [hw]

@[simp] theorem wp_closeIfOpen : wp (closeIfOpen w) Q E s ↔ Q () { s with m_wallet := false } := by
  obtain ⟨m_wallet, m_isOptimizing⟩ := s
  unfold closeIfOpen
  cases m_wallet <;> simp

/-- A wallet whose keys cannot be stored is dropped again. -/
@[simp] theorem wp_createWallet :
    wp (createWallet w) Q E s ↔ Q () { s with m_wallet := w.creates } := by
  unfold createWallet World.creates
  cases hi : w.throws .initializeWithViewKey <;> cases hc : w.throws .createAddress <;>
    cases hs : w.throws (.save false) <;> simp [hi, hc, hs]

/-- Opening leaves an open wallet or none, and throws nothing. -/
theorem wp_openWalletFile (typed : Bool) (h : ∀ opened, Q () { s with m_wallet := opened }) :
    wp (openWalletFile w typed) Q E s := by
  unfold openWalletFile loadWalletFile importLegacyWallet
  cases w.throws .load <;> simp [h]

/-- The keys go to a new wallet, which a throwing call leaves behind. -/
theorem wp_createWithKeys (hQ : Q () { s with m_wallet := true })
    (hE : E { s with m_wallet := true }) : wp (createWithKeys w) Q E s := by
  unfold createWithKeys addObserver
  simp [hQ, hE]

end Rules

/-- The code does not fault, whatever it returns or throws. -/
abbrev Safe {α : Type} (code : Code α) (s : Memory) : Prop :=
  wp code (fun _ _ => True) (fun _ => True) s

theorem runStretch_status (waiting : List Point) (code : Code (Option Point)) (s : Memory) :
    (runStretch waiting code s).status ≠ .faulted ↔ Safe code s := by
  unfold Safe runStretch wp
  cases code s with
  | value point t => simp
  | thrown t => simp
  | fault => simp

section Safety

variable (w : World) (s : Memory)

theorem safe_openWalletFile (typed : Bool) : Safe (openWalletFile w typed >>= fun _ => finish) s := by
  rw [Safe, wp_bind]
  apply wp_openWalletFile
  intro opened
  trivial

theorem safe_createWithKeys :
    Safe (createWithKeys w >>= fun _ => openWalletFile w false >>= fun _ => finish) s := by
  rw [Safe, wp_bind]
  apply wp_createWithKeys
  · exact safe_openWalletFile w _ false
  · trivial

/-- sendTransaction checks the pointer itself. -/
theorem safe_sendTransaction : Safe (sendTransaction w >>= fun _ => finish) s := by
  unfold sendTransaction
  cases hs : s.m_wallet <;> simp [hs]

theorem safe_deposit : Safe (deposit w >>= fun _ => finish) s := by
  unfold deposit findTransactionIdByHashHex
  cases hs : s.m_wallet <;> simp [hs]

/-- optimizeWallet, sendMessage, withdrawUnlockedDeposits and changePassword rely on the caller. -/
theorem safe_optimizeWallet (point : Point) :
    Safe (optimizeWallet w >>= fun _ => waitIn point) s ↔ s.m_wallet = true := by
  unfold optimizeWallet
  cases hs : s.m_wallet <;> simp [hs]

theorem safe_sendMessage : Safe (sendMessage w >>= fun _ => finish) s ↔ s.m_wallet = true := by
  unfold sendMessage
  cases hs : s.m_wallet <;> simp [hs]

theorem safe_withdrawUnlockedDeposits :
    Safe (withdrawUnlockedDeposits w >>= fun _ => finish) s ↔ s.m_wallet = true := by
  unfold withdrawUnlockedDeposits findTransactionIdByHashHex
  cases hs : s.m_wallet <;> simp [hs]

theorem safe_changePassword (after : Bool → Code (Option Point))
    (hafter : ∀ changed t, Safe (after changed) t) :
    Safe (changePassword w >>= after) s ↔ s.m_wallet = true := by
  unfold changePassword save
  cases hs : s.m_wallet <;> simp [hs, hafter]

theorem safe_proceed (next : Secured) : Safe (next.proceed w) s := by
  cases next with
  | backupKeys => simp [Secured.proceed, getAccountKeys]
  | _ => trivial

theorem safe_promptPassword (next : Secured) : Safe (promptPassword w next) s := by
  unfold promptPassword
  simp [safe_proceed]

theorem safe_promptUnlock : Safe (promptUnlock w) s := by
  unfold promptUnlock
  simp

/-- A number of outputs above the bound has been read from an open wallet. -/
theorem safe_optimizeRound (rounds numUnlockedOutputs : ℕ)
    (h : 100 < numUnlockedOutputs → s.m_wallet = true) :
    Safe (optimizeRound w rounds numUnlockedOutputs) s := by
  unfold optimizeRound
  rw [Safe, wp_ite]
  constructor
  · intro hround
    exact (safe_optimizeWallet w s _).mpr (h hround.1)
  · intro _
    simp

theorem safe_getNumUnlockedOutputs (after : ℕ → Code (Option Point))
    (hafter : ∀ n, (100 < n → s.m_wallet = true) → Safe (after n) s) :
    Safe (getNumUnlockedOutputs w >>= after) s := by
  unfold getNumUnlockedOutputs
  cases hs : s.m_wallet with
  | false =>
    have hzero := hafter 0 fun hn => absurd hn (Nat.not_lt_zero 100)
    simp [hs, hzero]
  | true =>
    simp [hs, hafter w.unspentOutputs (fun _ => hs)]

/-- A handler that starts is safe exactly when the wallet that it relies on is there. -/
theorem safe_start (action : Action) (waiting : List Point) :
    Safe (action.start w) s ↔ WalletAtHand ⟨s, waiting, .running⟩ (.start action w) := by
  cases action with
  | nextShowSeed => simp [Action.start, addObserver, WalletAtHand]
  | optimizeClicked =>
    simp only [Action.start, WalletAtHand, Safe, wp_ite, wp_finish, implies_true, true_and,
      Bool.not_eq_true]
    exact forall_congr' fun _ => safe_optimizeWallet w s _
  | withdrawClicked =>
    apply iff_of_true _ trivial
    simp only [Action.start, Safe, wp_bind, wp_getter, wp_ite, wp_finish, implies_true, and_true,
      Bool.and_eq_true]
    intro hread _
    have hwithdraw := (safe_withdrawUnlockedDeposits w s).mpr hread.1
    rwa [Safe, wp_bind] at hwithdraw
  | startUp =>
    apply iff_of_true _ trivial
    simp only [Action.start, Safe, wp_ite, wp_finish, implies_true, true_and]
    exact fun _ => safe_openWalletFile w s false
  | nextValidate | openWallet =>
    apply iff_of_true _ trivial
    simp only [Action.start, Safe, wp_ite, wp_bind, wp_closeIfOpen, wp_finish, implies_true,
      and_true]
    exact fun _ => wp_openWalletFile w false fun _ => trivial
  | importKeys =>
    apply iff_of_true _ trivial
    simp only [Action.start, Safe, wp_ite, wp_finish, implies_true, and_true]
    intro _
    rw [wp_bind, wp_closeIfOpen]
    exact safe_createWithKeys w _
  | autoOptimize =>
    apply iff_of_true _ trivial
    simp only [Action.start, Safe, wp_ite, wp_bind, wp_get, wp_finish, wp_modify, implies_true,
      true_and]
    intro hrun
    have := safe_getNumUnlockedOutputs w { s with m_isOptimizing := true } (optimizeRound w 0)
      (fun n hn => safe_optimizeRound w _ 0 n hn)
    rwa [Safe, wp_bind] at this
  | backupClicked | backupFileClicked | sendMessageClicked =>
    exact iff_of_true (safe_promptPassword w s _) trivial
  | sendFundsClicked | newDepositClicked =>
    apply iff_of_true _ trivial
    simp [Action.start, safe_promptPassword]
  | createDepositCompleted =>
    apply iff_of_true _ trivial
    simp only [Action.start, Safe, wp_ite, wp_bind, wp_isOpen, wp_finish, implies_true, and_true]
    intro _ _
    have hsend := safe_sendTransaction w s
    rwa [Safe, wp_bind] at hsend
  | unlockWallet => exact iff_of_true (safe_promptUnlock w s) trivial
  | initCompleted error =>
    apply iff_of_true _ trivial
    cases hs : s.m_wallet <;> cases error <;> simp [Action.start, save, hs]
  | readTransferCount =>
    apply iff_of_true _ trivial
    cases hs : s.m_wallet <;> simp [Action.start, getTransferCount, hs]
  | readTxKey =>
    apply iff_of_true _ trivial
    cases hs : s.m_wallet <;> simp [Action.start, getTxKey, hs]
  | quit | closeWallet | askForWalletPassword | receiveFrameBackup | rescanClicked | encryptWallet
  | lockWallet | updateBlockStatusText | read getter =>
    apply iff_of_true _ trivial
    simp [Action.start]

/-- A handler that goes on is safe exactly when the wallet that it relies on is still there. -/
theorem safe_resume (point : Point) (rest : List Point) :
    Safe (point.resume w) s ↔ WalletAtHand ⟨s, point :: rest, .running⟩ (.resume w) := by
  cases point with
  | passwordDialog next =>
    apply iff_of_true _ trivial
    simp [Point.resume, safe_proceed, safe_promptPassword]
  | unlockDialog =>
    apply iff_of_true _ trivial
    simp [Point.resume, safe_promptUnlock]
  | openDialog =>
    apply iff_of_true _ trivial
    simp only [Point.resume, Safe, wp_ite, wp_finish, implies_true, and_true]
    exact fun _ => safe_openWalletFile w s _
  | sendDelay =>
    apply iff_of_true _ trivial
    simp only [Point.resume, Safe, wp_ite, wp_bind, wp_isOpen, wp_finish, implies_true, and_true]
    intro _
    have hsend := safe_sendTransaction w s
    rwa [Safe, wp_bind] at hsend
  | messageDelay =>
    -- The pointer is checked right before the message is sent.
    apply iff_of_true _ trivial
    simp only [Point.resume, Safe, wp_ite, wp_bind, wp_isOpen, wp_getter, wp_finish, implies_true,
      and_true]
    intro hopen _ _
    have hsend := (safe_sendMessage w s).mpr hopen
    rwa [Safe, wp_bind] at hsend
  | depositWarning =>
    apply iff_of_true _ trivial
    simp only [Point.resume, Safe, wp_ite, wp_finish, implies_true, and_true]
    exact fun _ => safe_deposit w s
  | backupFileDialog | rescanWarning =>
    simp [Point.resume, backup, reset, WalletAtHand]
  | changePasswordDialog =>
    simp only [Point.resume, WalletAtHand, Safe, wp_ite, wp_finish, implies_true, and_true]
    apply forall_congr'
    intro _
    apply safe_changePassword
    intro changed t
    cases changed <;> trivial
  | newPasswordDialog error =>
    simp only [Point.resume, WalletAtHand, Safe, wp_ite, wp_finish, wp_waitIn, implies_true,
      and_true]
    apply forall_congr'
    intro _
    apply forall_congr'
    intro _
    apply safe_changePassword
    intro changed t
    cases changed <;> trivial
  | optimizeDelay => exact iff_of_true trivial trivial
  | autoOptimizeDelay rounds tracked =>
    apply iff_of_true _ trivial
    apply safe_getNumUnlockedOutputs
    intro n hn
    simp only [ne_eq, Safe, wp_ite, wp_bind, wp_modify, wp_finish, implies_true, true_and]
    exact fun _ => safe_optimizeRound w s (rounds + 1) n hn

end Safety

/-- One step of the program faults exactly when a wallet that the step relies on is missing. -/
theorem noFault_iff {s : State} {e : Event} (he : enabled s e) : NoFault s e ↔ WalletAtHand s e := by
  obtain ⟨memory, waiting, status⟩ := s
  cases e with
  | start action w =>
    show (runStretch waiting (action.start w) memory).status ≠ .faulted ↔ _
    rw [runStretch_status, safe_start w memory action waiting]
    rfl
  | resume w =>
    cases waiting with
    | nil => exact absurd rfl he.2
    | cons point rest =>
      show (runStretch rest (point.resume w) memory).status ≠ .faulted ↔ _
      rw [runStretch_status, safe_resume w memory point rest]
      rfl

/-- In every run no step dereferences the null pointer if and only if every step finds the wallet
that it relies on. -/
theorem noNullDereference_iff (h : List Event) (hrun : system.Admissible h) :
    system.Always NoFault h ↔ system.Always WalletAtHand h :=
  EventSystem.always_iff_of_invariant (I := fun _ => True) trivial (fun _ _ _ _ _ => trivial)
    (fun _ _ _ he => noFault_iff he) hrun

/-- The core does what it is asked for and every question is answered with yes, save that there is
nothing to protect, to import from or to complain about. -/
def usual : World where
  throws _ := false
  answer
    | .walletFileNeedsPassword | .walletFileIsLegacy | .legacyImportFails | .isEncrypted
    | .isTrackingMode => false
    | _ => true
  unspentOutputs := 0

/-- The file of a new wallet cannot be written. -/
def unwritable : World := { usual with throws core := decide (core = .save false) }

instance decidableEnabled (s : State) : (e : Event) → Decidable (enabled s e)
  | .start _ _ => inferInstanceAs (Decidable (s.status = .running))
  | .resume _ => inferInstanceAs (Decidable (s.status = .running ∧ s.waiting ≠ []))

instance (s : State) (e : Event) : Decidable (system.enabled s e) := decidableEnabled s e

instance (s : State) (e : Event) : Decidable (NoFault s e) := inferInstanceAs (Decidable (_ ≠ _))

/-- A wallet is created, optimized and backed up, and then closed. -/
def createdWallet : List Event :=
  [.start .closeWallet usual, .resume usual, .start .receiveFrameBackup usual, .resume usual,
    .start .optimizeClicked usual, .start .nextShowSeed usual]

theorem noNullDereference_createdWallet :
    system.Admissible createdWallet ∧
      (system.Always NoFault createdWallet ↔ system.Always WalletAtHand createdWallet) :=
  ⟨by decide, noNullDereference_iff createdWallet (by decide)⟩

/-- At the first start the user chooses a path for a new wallet that cannot be written. -/
theorem newWallet_unwritable_faults :
    system.Admissible [.start .nextShowSeed unwritable] ∧
      (system.after [.start .nextShowSeed unwritable]).status = .faulted ∧
      ¬ system.Always NoFault [.start .nextShowSeed unwritable] := by
  have hfault : (system.after [.start .nextShowSeed unwritable]).status = .faulted := by decide
  exact ⟨by decide, hfault, fun h => h.1 hfault⟩

end ConcealDesktop.WalletPointer
