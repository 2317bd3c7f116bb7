import ConcealDesktop.Settings

/-! The address book. The contact list in memory follows the queued signals of WalletAdapter,
while the file it is saved to follows Settings at once, so a contact may be added or removed
while the two belong to different wallets. Files are taken to open for writing. -/
namespace ConcealDesktop.AddressBookModel

structure Contact where
  label : QString
  address : QString
  paymentId : QString
deriving DecidableEq

/-- The signals of WalletAdapter that the model has connected queued. -/
inductive Signal where
  | walletCloseCompleted
  | walletInitCompleted (error : Bool)
deriving DecidableEq

structure State where
  settings : Settings
  isOpen : Bool
  m_addressBook : List Contact
  /-- The contacts that a file holds; a missing file or one that is no JSON text holds none. -/
  files : QString → Option (List Contact)
  posted : List Signal
  /-- The contacts of the send handlers that are waiting, the innermost first. -/
  waiting : List Contact

inductive Event where
  /-- A frame closes the open wallet, sets the path and opens or creates the new wallet. -/
  | switchWallet (filePath : QString) (opened : Bool)
  /-- WalletAdapter::open for the path that is set, after a password prompt or a new seed. -/
  | openWallet (opened : Bool)
  | closeWallet
  /-- The wallet core reports the end of an initialisation. -/
  | initCompleted (error : Bool)
  /-- The event loop delivers the oldest signal. -/
  | deliver
  | addClicked (contact : Contact)
  | deleteClicked (row : UInt32)
  /-- The Send button with a label and the box for saving it; its handler starts to wait. -/
  | sendFundsClicked (contact : Contact)
  /-- The innermost wait is over and its handler goes on. -/
  | waitOver

namespace State

/-- What the file of the current address book holds. -/
def stored (s : State) (file : QString) : List Contact := (s.files file).getD []

def save (s : State) : State :=
  { s with files := fun file =>
      if file = s.settings.getAddressBookFile then some s.m_addressBook else s.files file }

def addAddress (contact : Contact) (s : State) : State :=
  { s with m_addressBook := s.m_addressBook ++ [contact] }.save

/-- The comparison is unsigned, so an empty list lets every row pass; removeAt ignores it. -/
def removeAddress (row : UInt32) (s : State) : State :=
  if UInt32.ofNat s.m_addressBook.length - 1 < row then s
  else { s with m_addressBook := s.m_addressBook.eraseIdx row.toNat }.save

def reset (s : State) : State := { s with m_addressBook := [] }

def walletInitCompleted (error : Bool) (s : State) : State :=
  if error then s
  else match s.files s.settings.getAddressBookFile with
    | some contacts => { s with m_addressBook := contacts }
    | none => s

/-- WalletAdapter::onWalletInitCompleted drops the wallet after an error. -/
def onWalletInitCompleted (error : Bool) (s : State) : State :=
  if error then { s with isOpen := false } else s

def close (s : State) : State :=
  if s.isOpen then { s with isOpen := false, posted := s.posted ++ [.walletCloseCompleted] } else s

def deliver (s : State) : State :=
  match s.posted with
  | [] => s
  | .walletCloseCompleted :: rest => { s with posted := rest }.reset
  | .walletInitCompleted error :: rest =>
    (walletInitCompleted error { s with posted := rest }).onWalletInitCompleted error

/-- OverviewFrame::sendFundsClicked after its wait. -/
def waitOver (s : State) : State :=
  match s.waiting with
  | [] => s
  | contact :: rest =>
    let s := { s with waiting := rest }
    if s.isOpen then s.addAddress contact else s

end State

def enabled (s : State) : Event → Prop
  | .switchWallet _ _ | .openWallet _ | .closeWallet | .addClicked _ | .deleteClicked _
  | .sendFundsClicked _ => True
  | .initCompleted _ => s.isOpen = true
  | .deliver => s.posted ≠ []
  | .waitOver => s.waiting ≠ []

instance decidableEnabled (s : State) : (e : Event) → Decidable (enabled s e)
  | .switchWallet _ _ | .openWallet _ | .closeWallet | .addClicked _ | .deleteClicked _
  | .sendFundsClicked _ => inferInstanceAs (Decidable True)
  | .initCompleted _ => inferInstanceAs (Decidable (s.isOpen = true))
  | .deliver => inferInstanceAs (Decidable (s.posted ≠ []))
  | .waitOver => inferInstanceAs (Decidable (s.waiting ≠ []))

def handle (s : State) : Event → State
  | .switchWallet filePath opened =>
    let s := s.close
    { s with settings := s.settings.setWalletFile filePath, isOpen := opened }
  | .openWallet opened => { s with isOpen := opened }
  | .closeWallet => s.close
  | .initCompleted error => { s with posted := s.posted ++ [.walletInitCompleted error] }
  | .deliver => s.deliver
  | .addClicked contact => s.addAddress contact
  | .deleteClicked row => s.removeAddress row
  | .sendFundsClicked contact => { s with waiting := contact :: s.waiting }
  | .waitOver => s.waitOver

/-- A start with some settings and files and nothing open. -/
def initial (settings : Settings) (files : QString → Option (List Contact)) : State :=
  ⟨settings, false, [], files, [], []⟩

def system (settings : Settings) (files : QString → Option (List Contact)) :
    EventDriven.EventSystem State Event where
  init := initial settings files
  enabled := enabled
  handle := handle

instance (settings : Settings) (files : QString → Option (List Contact)) (s : State) (e : Event) :
    Decidable ((system settings files).enabled s e) := decidableEnabled s e

/-- The contact that an event adds. -/
def addedBy (s : State) : Event → Option Contact
  | .addClicked contact => some contact
  | .waitOver => if s.isOpen then s.waiting.head? else none
  | _ => none

/-- The contact that an event removes. -/
def removedBy (s : State) : Event → Option Contact
  | .deleteClicked row => s.m_addressBook[row.toNat]?
  | _ => none

section Property

variable {settings : Settings} {files : QString → Option (List Contact)}

/-- The contacts that were added while `file` was the current address book. -/
def addedFor (settings : Settings) (files : QString → Option (List Contact)) (file : QString) :
    List Event → List Contact
  | [] => []
  | e :: earlier =>
    let s := (system settings files).after earlier
    if s.settings.getAddressBookFile = file then
      (addedBy s e).toList ++ addedFor settings files file earlier
    else addedFor settings files file earlier

/-- An address-book file holds only what it held at the start and what was added for it. -/
def OnlyOwnContacts (settings : Settings) (files : QString → Option (List Contact))
    (h : List Event) : Prop :=
  ∀ file, ∀ contact ∈ ((system settings files).after h).stored file,
    contact ∈ (initial settings files).stored file ∨ contact ∈ addedFor settings files file h

/-- A contact leaves a file only by being removed while the file is the current address book. -/
def KeepsContacts (s : State) (e : Event) : Prop :=
  ∀ file, ∀ contact ∈ s.stored file, contact ∉ (handle s e).stored file →
    s.settings.getAddressBookFile = file ∧ removedBy s e = some contact

/-- The list in memory is the one that the current file holds. -/
def InSync (s : State) : Prop := s.m_addressBook = s.stored s.settings.getAddressBookFile

/-- Contacts are added and removed only while list and file belong together. -/
def EditsInSync (s : State) : Event → Prop
  | .addClicked _ | .deleteClicked _ => InSync s
  | .waitOver => s.isOpen = true → InSync s
  | _ => True

instance (s : State) : Decidable (InSync s) := inferInstanceAs (Decidable (_ = _))

instance decidableEditsInSync (s : State) : (e : Event) → Decidable (EditsInSync s e)
  | .addClicked _ | .deleteClicked _ => inferInstanceAs (Decidable (InSync s))
  | .waitOver => inferInstanceAs (Decidable (s.isOpen = true → InSync s))
  | .switchWallet _ _ | .openWallet _ | .closeWallet | .initCompleted _ | .deliver
  | .sendFundsClicked _ => inferInstanceAs (Decidable True)

theorem stored_save (s : State) (file : QString) : s.save.stored file =
    if file = s.settings.getAddressBookFile then s.m_addressBook else s.stored file := by
  unfold State.save State.stored
  split_ifs with hfile
  · simp only [hfile, ↓reduceIte, Option.getD_some]
  · simp only [hfile, ↓reduceIte]

/-- A contact added in sync joins the contacts of the current file and changes no other file. -/
theorem stored_addAddress {s : State} (hsync : InSync s) (contact : Contact) (file : QString) :
    (s.addAddress contact).stored file =
      if file = s.settings.getAddressBookFile then s.stored file ++ [contact]
      else s.stored file := by
  unfold State.addAddress
  rw [stored_save]
  split_ifs with hfile
  · show s.m_addressBook ++ [contact] = _
    rw [hfile, hsync]
  · rfl

/-- A removal in sync takes at most the chosen row from the current file. -/
theorem stored_removeAddress {s : State} (hsync : InSync s) (row : UInt32) (file : QString) :
    (s.removeAddress row).stored file = s.stored file ∨
      s.settings.getAddressBookFile = file ∧
        (s.removeAddress row).stored file = s.m_addressBook.eraseIdx row.toNat ∧
        s.m_addressBook = s.stored file := by
  unfold State.removeAddress
  split_ifs
  · exact Or.inl rfl
  · rw [stored_save]
    split_ifs with hfile
    · exact Or.inr ⟨hfile.symm, rfl, by rw [hfile]; exact hsync⟩
    · exact Or.inl rfl

theorem files_deliver (s : State) : s.deliver.files = s.files := by
  unfold State.deliver State.onWalletInitCompleted State.walletInitCompleted
  cases hp : s.posted with
  | nil => rfl
  | cons signal rest =>
    cases signal with
    | walletCloseCompleted => rfl
    | walletInitCompleted error =>
      cases error with
      | true => rfl
      | false =>
        cases hf : s.files s.settings.getAddressBookFile with
        | none => simp [hf]
        | some contacts => simp [hf]

theorem files_close (s : State) : s.close.files = s.files := by
  unfold State.close
  split_ifs <;> rfl

/-- What an event may do to a file: it brings in the contact that it adds to it, and drops the
contact that it removes from it. -/
structure FileStep (s : State) (e : Event) (file : QString) (after : List Contact) : Prop where
  gained : ∀ contact ∈ after, contact ∈ s.stored file ∨
    s.settings.getAddressBookFile = file ∧ addedBy s e = some contact
  lost : ∀ contact ∈ s.stored file, contact ∉ after →
    s.settings.getAddressBookFile = file ∧ removedBy s e = some contact

theorem FileStep.refl (s : State) (e : Event) (file : QString) :
    FileStep s e file (s.stored file) :=
  ⟨fun _ hc => Or.inl hc, fun _ hc hno => absurd hc hno⟩

theorem FileStep.of_files_eq {s t : State} (e : Event) (file : QString) (h : t.files = s.files) :
    FileStep s e file (t.stored file) := by
  have hstored : t.stored file = s.stored file := by
    unfold State.stored
    rw [h]
  rw [hstored]
  exact FileStep.refl s e file

theorem fileStep_addAddress {s : State} {e : Event} {contact : Contact} (hsync : InSync s)
    (hadd : addedBy s e = some contact) (file : QString) :
    FileStep s e file ((s.addAddress contact).stored file) := by
  rw [stored_addAddress hsync]
  split_ifs with hfile
  · constructor
    · intro c hc
      rcases List.mem_append.mp hc with hc | hc
      · exact Or.inl hc
      · exact Or.inr ⟨hfile.symm, by rw [hadd, List.mem_singleton.mp hc]⟩
    · exact fun c hc hno => absurd (List.mem_append_left _ hc) hno
  · exact FileStep.refl s e file

theorem fileStep_removeAddress {s : State} (hsync : InSync s) (row : UInt32) (file : QString) :
    FileStep s (.deleteClicked row) file ((s.removeAddress row).stored file) := by
  rcases stored_removeAddress hsync row file with heq | ⟨hfile, heq, hlist⟩
  · rw [heq]
    exact FileStep.refl s _ file
  · rw [heq]
    constructor
    · intro contact hc
      rw [← hlist]
      exact Or.inl (List.mem_of_mem_eraseIdx hc)
    · intro contact hc hno
      rw [← hlist] at hc
      obtain ⟨i, hi⟩ := List.mem_iff_getElem?.mp hc
      have hrow : i = row.toNat := by
        by_contra hne
        exact hno (List.mem_eraseIdx_iff_getElem?.mpr ⟨i, hne, hi⟩)
      rw [hrow] at hi
      exact ⟨hfile, hi⟩

/-- Every event whose edit happens in sync treats every file well. -/
theorem fileStep_handle {s : State} {e : Event} (hsync : EditsInSync s e) (file : QString) :
    FileStep s e file ((handle s e).stored file) := by
  cases e with
  | switchWallet filePath opened => exact FileStep.of_files_eq _ file (files_close s)
  | openWallet opened => exact FileStep.of_files_eq _ file rfl
  | closeWallet => exact FileStep.of_files_eq _ file (files_close s)
  | initCompleted error => exact FileStep.of_files_eq _ file rfl
  | deliver => exact FileStep.of_files_eq _ file (files_deliver s)
  | sendFundsClicked contact => exact FileStep.of_files_eq _ file rfl
  | addClicked contact => exact fileStep_addAddress hsync rfl file
  | deleteClicked row => exact fileStep_removeAddress hsync row file
  | waitOver =>
    show FileStep s _ file (s.waitOver.stored file)
    unfold State.waitOver
    cases hw : s.waiting with
    | nil => exact FileStep.refl s _ file
    | cons contact rest =>
      by_cases hopen : s.isOpen = true
      · simp only [hopen, ↓reduceIte]
        have hadd : addedBy s .waitOver = some contact := by
          simp [addedBy, hopen, hw]
        exact fileStep_addAddress (hsync hopen) hadd file
      · simp only [hopen]
        exact FileStep.of_files_eq _ file rfl

theorem addedFor_cons (file : QString) (e : Event) (h : List Event) :
    addedFor settings files file (e :: h) =
      if ((system settings files).after h).settings.getAddressBookFile = file then
        (addedBy ((system settings files).after h) e).toList ++ addedFor settings files file h
      else addedFor settings files file h := rfl

theorem onlyOwnContacts_of_inSync {h : List Event}
    (hsync : (system settings files).Always EditsInSync h) : OnlyOwnContacts settings files h := by
  induction h with
  | nil => exact fun file contact hc => Or.inl hc
  | cons e h ih =>
    intro file contact hc
    have step := (fileStep_handle hsync.1 file).gained contact hc
    rw [addedFor_cons]
    rcases step with hold | ⟨hfile, hadd⟩
    · rcases ih hsync.2 file contact hold with hinit | hadded
      · exact Or.inl hinit
      · apply Or.inr
        split_ifs
        · exact List.mem_append_right _ hadded
        · exact hadded
    · apply Or.inr
      rw [if_pos hfile, hadd]
      exact List.mem_append_left _ List.mem_cons_self

theorem keepsContacts_of_inSync {s : State} {e : Event} (hsync : EditsInSync s e) :
    KeepsContacts s e :=
  fun file => (fileStep_handle hsync file).lost

/-- In every run whose edits happen in sync, every file holds only contacts added for it, and
no contact leaves a file except by its removal there. -/
theorem addressBooks_kept (settings : Settings) (files : QString → Option (List Contact))
    (h : List Event) (hsync : (system settings files).Always EditsInSync h) :
    OnlyOwnContacts settings files h ∧ (system settings files).Always KeepsContacts h := by
  constructor
  · exact onlyOwnContacts_of_inSync hsync
  · exact hsync.mono fun _ _ he => keepsContacts_of_inSync he

end Property

section Runs

def alice : Contact := ⟨qstr "alice", qstr "ccx1", []⟩
def bob : Contact := ⟨qstr "bob", qstr "ccx2", []⟩
def carol : Contact := ⟨qstr "carol", qstr "ccx3", []⟩

/-- Two wallets with one stored contact each. -/
def twoBooks (file : QString) : Option (List Contact) :=
  if file = qstr "a.addressbook" then some [alice]
  else if file = qstr "b.addressbook" then some [bob] else none

def defaults : Settings := Settings.load (qstr "d/app") none Settings.initial

/-- The wallet is opened and loaded, and a contact is added and another one removed. -/
theorem addressBooks_kept_loaded :
    OnlyOwnContacts defaults twoBooks [.deleteClicked 0, .addClicked carol, .deliver,
        .initCompleted false, .switchWallet (qstr "a.wallet") true] ∧
      (system defaults twoBooks).Always KeepsContacts [.deleteClicked 0, .addClicked carol,
        .deliver, .initCompleted false, .switchWallet (qstr "a.wallet") true] :=
  addressBooks_kept defaults twoBooks _ (by decide)

/-- The second wallet is opened during the wait of a send handler, and the wait ends before the
queued signals are delivered. -/
def switchDuringWait : List Event :=
  [.waitOver, .switchWallet (qstr "b.wallet") true, .sendFundsClicked carol, .deliver,
    .initCompleted false, .switchWallet (qstr "a.wallet") true]

/-- The contacts of the first wallet replace the contact of the second one. -/
theorem switchDuringWait_overwrites :
    (system defaults twoBooks).Admissible switchDuringWait ∧
      ((system defaults twoBooks).after switchDuringWait).stored (qstr "b.addressbook") =
        [alice, carol] ∧
      ¬ OnlyOwnContacts defaults twoBooks switchDuringWait ∧
      ¬ (system defaults twoBooks).Always KeepsContacts switchDuringWait := by
  have hstored : ((system defaults twoBooks).after switchDuringWait).stored
      (qstr "b.addressbook") = [alice, carol] := by decide
  refine ⟨by decide, hstored, ?_, ?_⟩
  · intro h
    have halice := h (qstr "b.addressbook") alice (by rw [hstored]; exact List.mem_cons_self)
    revert halice
    decide
  · intro h
    have hbob := h.1 (qstr "b.addressbook") bob (by decide) (by
      show bob ∉ ((system defaults twoBooks).after switchDuringWait).stored _
      rw [hstored]
      decide)
    revert hbob
    decide

end Runs

end ConcealDesktop.AddressBookModel
