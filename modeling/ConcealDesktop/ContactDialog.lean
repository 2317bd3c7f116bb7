import ConcealDesktop.AddressBook
import ConcealDesktop.Library.Checks
import ConcealDesktop.Library.KeyedLists
import ConcealDesktop.SendFunds

/-! The labels of the contacts. ContactDialog refuses a label that another contact has; a submission
that saves its recipient appends whatever label the form has. Nothing else happens here to the
contacts, which start empty. -/
namespace ConcealDesktop

/-- How the dialog was opened: edit() sets both fields. -/
structure ContactDialog where
  isEdit : Bool
  editIndex : ℤ

namespace ContactDialog
open Checks EventDriven AddressBookModel

/-- What the dialog asks of the core and of Qt. -/
structure Validation where
  validateAddress : QString → Bool
  toUtf8 : QString → StdString

inductive Refusal where
  | invalidAddress
  | invalidPaymentId
  | labelExists
deriving DecidableEq

/-- The text of the error label. -/
def Refusal.text : Refusal → QString
  | .invalidAddress => qstr "Invalid address"
  | .invalidPaymentId => qstr "Invalid payment ID"
  | .labelExists => qstr "Contact with such label already exists."

/-- AddressBookModel::indexFromContact for the label column: the row of the first match, or -1. -/
def indexFromContact (contacts : List Contact) (label : QString) : ℤ :=
  match contacts.findIdx? fun contact => contact.label = label with
  | some row => row
  | none => -1

/-- The label that an index shows; an invalid index shows an empty text. -/
def labelAt (contacts : List Contact) (row : ℤ) : QString :=
  if 0 ≤ row then (contacts[row.toNat]?.map (·.label)).getD [] else []

def okButtonClicked (v : Validation) (dialog : ContactDialog) (contact : Contact)
    (s : AddressBookModel.State) : Except Refusal AddressBookModel.State := do
  stopIf (!v.validateAddress contact.address) .invalidAddress
  stopIf (!OverviewFrame.isValidPaymentId (v.toUtf8 contact.paymentId)) .invalidPaymentId
  let contactIndex := indexFromContact s.m_addressBook contact.label
  let contactLabel := labelAt s.m_addressBook contactIndex
  stopIf (contact.label == contactLabel &&
    (!dialog.isEdit || (dialog.isEdit && dialog.editIndex != contactIndex))) .labelExists
  .ok (s.addAddress contact)

/-- The conversion of a row to the unsigned argument of removeAddress. -/
def quint32 (row : ℤ) : UInt32 := UInt32.ofNat (row % 2 ^ 32).toNat

/-- OverviewFrame::deleteABClicked for the current row of the view, -1 if there is none. -/
def deleteABClicked (row : ℤ) (s : AddressBookModel.State) : AddressBookModel.State :=
  s.removeAddress (quint32 row)

/-- OverviewFrame::addABClicked with the contact that the dialog holds when OK is clicked. -/
def addABClicked (v : Validation) (contact : Contact) (s : AddressBookModel.State) :
    AddressBookModel.State :=
  match okButtonClicked v ⟨false, 0⟩ contact s with
  | .ok s => s
  | .error _ => s

/-- OverviewFrame::editABClicked: an accepted edit appends the contact and deletes the row. -/
def editABClicked (v : Validation) (row : ℤ) (contact : Contact) (s : AddressBookModel.State) :
    AddressBookModel.State :=
  match okButtonClicked v ⟨true, row⟩ contact s with
  | .ok s => deleteABClicked row s
  | .error _ => s

inductive Event where
  | addABClicked (contact : Contact)
  | editABClicked (row : ℤ) (contact : Contact)
  | deleteABClicked (row : ℤ)
  /-- A submission of sendFundsClicked that saves its recipient. -/
  | saveAddress (contact : Contact)

/-- The current row is a row of the list or -1, and only a label that is not empty is saved. A
container of Qt has fewer than 2^31 elements. -/
def enabled (s : AddressBookModel.State) (e : Event) : Prop :=
  s.m_addressBook.length + 1 < 2 ^ 31 ∧
  match e with
  | .addABClicked _ => True
  | .editABClicked row _ | .deleteABClicked row => -1 ≤ row ∧ row < s.m_addressBook.length
  | .saveAddress contact => contact.label ≠ []

instance (s : AddressBookModel.State) (e : Event) : Decidable (enabled s e) := by
  cases e <;> unfold enabled <;> infer_instance

def handle (v : Validation) (s : AddressBookModel.State) : Event → AddressBookModel.State
  | .addABClicked contact => addABClicked v contact s
  | .editABClicked row contact => editABClicked v row contact s
  | .deleteABClicked row => deleteABClicked row s
  | .saveAddress contact => s.addAddress contact

def system (v : Validation) (settings : Settings) (files : QString → Option (List Contact)) :
    EventSystem AddressBookModel.State Event where
  init := AddressBookModel.initial settings files
  enabled := enabled
  handle := handle v

instance (v : Validation) (settings : Settings) (files : QString → Option (List Contact))
    (s : AddressBookModel.State) (e : Event) : Decidable ((system v settings files).enabled s e) :=
  inferInstanceAs (Decidable (enabled s e))

def LabelsDistinct (s : AddressBookModel.State) : Prop := (s.m_addressBook.map (·.label)).Nodup

instance (s : AddressBookModel.State) : Decidable (LabelsDistinct s) :=
  inferInstanceAs (Decidable (List.Nodup _))

/-- An accepted edit of a row takes exactly that row out and keeps the others in their order; the
edited contact comes last. -/
def EditReplaces (v : Validation) (s : AddressBookModel.State) : Event → Prop
  | .editABClicked row contact => ∀ (i : ℕ) (s' : AddressBookModel.State), row = i →
      okButtonClicked v ⟨true, row⟩ contact s = .ok s' →
      (editABClicked v row contact s).m_addressBook = s.m_addressBook.eraseIdx i ++ [contact]
  | _ => True

/-- A submission saves only a label that no contact has. -/
def SavesNewLabel (s : AddressBookModel.State) : Event → Prop
  | .saveAddress contact => ∀ c ∈ s.m_addressBook, c.label ≠ contact.label
  | _ => True

section Labels

variable {v : Validation} {s s' : AddressBookModel.State} {contact : Contact}

@[simp] theorem m_addressBook_save (s : AddressBookModel.State) :
    s.save.m_addressBook = s.m_addressBook := rfl

@[simp] theorem m_addressBook_addAddress (contact : Contact) (s : AddressBookModel.State) :
    (s.addAddress contact).m_addressBook = s.m_addressBook ++ [contact] := rfl

theorem m_addressBook_removeAddress (row : UInt32) (s : AddressBookModel.State) :
    (s.removeAddress row).m_addressBook.Sublist s.m_addressBook := by
  unfold AddressBookModel.State.removeAddress
  split_ifs
  · exact List.Sublist.refl _
  · exact List.eraseIdx_sublist _ _

theorem m_addressBook_removeAddress_of_lt {i : ℕ} (hi : i < s.m_addressBook.length)
    (hlength : s.m_addressBook.length < 2 ^ 31) :
    (s.removeAddress (quint32 i)).m_addressBook = s.m_addressBook.eraseIdx i := by
  have hrow : (quint32 i).toNat = i := by
    unfold quint32
    rw [UInt32.toNat_ofNat']
    omega
  have hlast : (UInt32.ofNat s.m_addressBook.length - 1).toNat = s.m_addressBook.length - 1 := by
    rw [UInt32.toNat_sub_of_le _ _
      (by rw [UInt32.le_iff_toNat_le, UInt32.toNat_ofNat']; simp; omega), UInt32.toNat_ofNat']
    simp
    omega
  unfold AddressBookModel.State.removeAddress
  rw [if_neg (by rw [UInt32.lt_iff_toNat_lt, hrow, hlast]; omega), m_addressBook_save, hrow]

/-- The search finds no contact, or one with the label. -/
theorem indexFromContact_cases (contacts : List Contact) (label : QString) :
    (∀ c ∈ contacts, c.label ≠ label) ∧ indexFromContact contacts label = -1 ∨
      ∃ (r : ℕ) (c : Contact), indexFromContact contacts label = r ∧ contacts[r]? = some c ∧
        c.label = label := by
  unfold indexFromContact
  cases hfind : contacts.findIdx? fun contact => contact.label = label with
  | none =>
    apply Or.inl
    refine ⟨fun c hc => ?_, rfl⟩
    simpa using List.findIdx?_eq_none_iff.mp hfind c hc
  | some r =>
    apply Or.inr
    obtain ⟨hr, hlabel, -⟩ := List.findIdx?_eq_some_iff_getElem.mp hfind
    exact ⟨r, contacts[r], rfl, List.getElem?_eq_getElem hr, by simpa using hlabel⟩

/-- What an accepted dialog has passed: the label is new, or it is the one of the edited row. -/
theorem okButtonClicked_accepts {dialog : ContactDialog}
    (h : okButtonClicked v dialog contact s = .ok s') :
    s' = s.addAddress contact ∧ ((∀ c ∈ s.m_addressBook, c.label ≠ contact.label) ∨
      dialog.isEdit = true ∧ ∃ (r : ℕ) (c : Contact), dialog.editIndex = r ∧
        s.m_addressBook[r]? = some c ∧ c.label = contact.label) := by
  unfold okButtonClicked at h
  simp only [bind_eq_ok_iff, stopIf_eq_ok_iff, exists_const, Except.ok.injEq] at h
  obtain ⟨-, -, hlabel, rfl⟩ := h
  refine ⟨rfl, ?_⟩
  rcases indexFromContact_cases s.m_addressBook contact.label with
    ⟨hnew, -⟩ | ⟨r, c, hindex, hrow, hsame⟩
  · exact .inl hnew
  · apply Or.inr
    have hshown : labelAt s.m_addressBook r = contact.label := by
      simp [labelAt, hrow, hsame]
    rw [hindex, hshown] at hlabel
    cases hedit : dialog.isEdit with
    | false => simp [hedit] at hlabel
    | true =>
      have hrowEdited : dialog.editIndex = r := by simpa [hedit] using hlabel
      exact ⟨rfl, r, c, hrowEdited, hrow, hsame⟩

theorem LabelsDistinct.addABClicked (hs : LabelsDistinct s) :
    LabelsDistinct (addABClicked v contact s) := by
  unfold ContactDialog.addABClicked
  cases hok : okButtonClicked v ⟨false, 0⟩ contact s with
  | error e => exact hs
  | ok s' =>
    obtain ⟨rfl, hnew | ⟨hedit, -⟩⟩ := okButtonClicked_accepts hok
    · exact (KeyedLists.nodup_keys_append_iff hs contact).mpr hnew
    · cases hedit

/-- An edit that is accepted for a row of the list. -/
theorem editABClicked_of_accepted {i : ℕ} (hi : i < s.m_addressBook.length)
    (hlength : s.m_addressBook.length + 1 < 2 ^ 31)
    (hok : okButtonClicked v ⟨true, i⟩ contact s = .ok s') :
    (editABClicked v i contact s).m_addressBook = s.m_addressBook.eraseIdx i ++ [contact] := by
  have hadded := (okButtonClicked_accepts hok).1
  unfold editABClicked deleteABClicked
  rw [hok]
  subst hadded
  have hlt : i < (s.addAddress contact).m_addressBook.length := by
    rw [m_addressBook_addAddress, List.length_append]
    exact Nat.lt_add_right _ hi
  change ((s.addAddress contact).removeAddress (quint32 i)).m_addressBook = _
  rw [m_addressBook_removeAddress_of_lt hlt (by simpa using hlength), m_addressBook_addAddress,
    List.eraseIdx_append_of_lt_length hi]

theorem LabelsDistinct.editABClicked (hs : LabelsDistinct s) {row : ℤ}
    (he : enabled s (.editABClicked row contact)) :
    LabelsDistinct (editABClicked v row contact s) := by
  obtain ⟨hlength, hlow, hrow⟩ := he
  cases hok : okButtonClicked v ⟨true, row⟩ contact s with
  | error e =>
    unfold ContactDialog.editABClicked
    rw [hok]
    exact hs
  | ok s' =>
    obtain ⟨hadded, hnew | ⟨-, r, c, hrowEdited, hc, hsame⟩⟩ := okButtonClicked_accepts hok
    · -- the appended list has distinct labels, and the deletion only takes one away
      have happended := (KeyedLists.nodup_keys_append_iff hs contact).mpr hnew
      unfold ContactDialog.editABClicked deleteABClicked
      rw [hok, hadded]
      exact ((m_addressBook_removeAddress _ _).map _).nodup happended
    · have hrow' : row = r := hrowEdited
      have hr : r < s.m_addressBook.length := by omega
      subst hrow'
      unfold LabelsDistinct
      rw [editABClicked_of_accepted hr hlength hok]
      apply KeyedLists.nodup_keys_replace hs
      intro j b hb hlabel
      have hj : j < s.m_addressBook.length := (List.getElem?_eq_some_iff.mp hb).1
      have heq : (s.m_addressBook.map (·.label))[j]? = (s.m_addressBook.map (·.label))[r]? := by
        rw [List.getElem?_map, List.getElem?_map, hb, hc]
        exact congrArg some (hlabel.trans hsame.symm)
      exact (List.getElem?_inj (by simpa using hj) hs).mp heq

theorem editReplaces (he : Event) (henabled : enabled s he) : EditReplaces v s he := by
  cases he with
  | editABClicked row contact =>
    intro i s' hrow hok
    obtain ⟨hlength, -, hlt⟩ := henabled
    subst hrow
    exact editABClicked_of_accepted (by omega) hlength hok
  | _ => trivial

/-- One operation on a list whose labels are distinct. -/
theorem labelsDistinct_handle_iff (hs : LabelsDistinct s) (e : Event) (he : enabled s e) :
    LabelsDistinct (handle v s e) ↔ SavesNewLabel s e := by
  cases e with
  | addABClicked contact => exact iff_of_true hs.addABClicked trivial
  | editABClicked row contact => exact iff_of_true (hs.editABClicked he) trivial
  | deleteABClicked row =>
    exact iff_of_true (((m_addressBook_removeAddress _ _).map _).nodup hs) trivial
  | saveAddress contact => exact KeyedLists.nodup_keys_append_iff hs contact

end Labels

/-- In every run the labels stay distinct and the edits replace their row exactly when no submission
saves a label that a contact has. -/
theorem labelsDistinct_iff_savesNewLabel (v : Validation) (settings : Settings)
    (files : QString → Option (List Contact)) (h : List Event)
    (hadm : (system v settings files).Admissible h) :
    (system v settings files).Always (fun s e => LabelsDistinct (handle v s e) ∧
        EditReplaces v s e) h ↔
      (system v settings files).Always SavesNewLabel h := by
  have hinit : LabelsDistinct (system v settings files).init := List.nodup_nil
  refine EventSystem.always_iff_of_invariant (I := LabelsDistinct) hinit ?_ ?_ hadm
  · intro s e hs he hnew
    exact (labelsDistinct_handle_iff hs e he).mpr hnew
  · intro s e hs he
    rw [← labelsDistinct_handle_iff (v := v) hs e he]
    exact and_iff_left (editReplaces e he)

/-- A core that accepts every address. -/
def acceptAll : Validation := ⟨fun _ => true, List.map UInt16.toUInt8⟩

/-- The contacts before any wallet file is set. -/
abbrev emptyBook : EventSystem AddressBookModel.State Event :=
  system acceptAll Settings.initial fun _ => none

def alice (address : String) : Contact := ⟨qstr "alice", qstr address, []⟩

/-- A contact is added and then edited under its own label. -/
theorem edit_keeps_distinct : emptyBook.Always (fun s e => LabelsDistinct (handle acceptAll s e) ∧
    EditReplaces acceptAll s e) [.editABClicked 0 (alice "ccx2"), .addABClicked (alice "ccx1")] :=
  (labelsDistinct_iff_savesNewLabel acceptAll Settings.initial (fun _ => none) _
    (by decide)).mpr ⟨trivial, trivial, trivial⟩

/-- Two submissions to different addresses save the same label. -/
theorem saved_twice :
    let h : List Event := [.saveAddress (alice "ccx2"), .saveAddress (alice "ccx1")]
    emptyBook.Admissible h ∧ ¬ LabelsDistinct (emptyBook.after h) ∧
      ¬ emptyBook.Always (fun s e => LabelsDistinct (handle acceptAll s e) ∧
        EditReplaces acceptAll s e) h := by
  intro h
  have htwice : ¬ LabelsDistinct (emptyBook.after h) := by decide
  exact ⟨by decide, htwice, fun hall => htwice hall.1.1⟩

end ContactDialog
end ConcealDesktop
