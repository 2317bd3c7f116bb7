import ConcealDesktop.AddressBook
import ConcealDesktop.RowNotifications

/-! The row notifications of AddressBookModel. Loading a book announces all its rows without a reset, and
the bound check of a removal compares unsigned numbers, so it lets every row of an empty book
pass. An observer follows the rows by the notifications, as the table of contacts does. -/
namespace ConcealDesktop.AddressBookRows
open AddressBookModel EventDriven RowChanges

/-- What AddressBookModel finds in the file of the current address book. A JSON document that is no
array reads as an empty array. -/
inductive BookFile where
  | missing
  | malformed
  | document (contacts : List Contact)
deriving DecidableEq

/-- What an operation leaves and does: the contacts, the notifications in their order and whether
saveAddressBook is called. -/
structure Outcome where
  m_addressBook : List Contact
  signals : List ModelSignal
  saved : Bool
deriving DecidableEq

section Operations

variable (book : List Contact)

def addAddress (contact : Contact) : Outcome :=
  ⟨book ++ [contact], [.beginInsertRows book.length book.length, .endInsertRows], true⟩

/-- The row is compared with the size less one as an unsigned number, announced as an int and
ignored by removeAt beyond the end. -/
def removeAddress (row : UInt32) : Outcome :=
  if UInt32.ofNat book.length - 1 < row then ⟨book, [], false⟩
  else ⟨book.eraseIdx row.toNat,
    [.beginRemoveRows (toInt row.toNat) (toInt row.toNat), .endRemoveRows], true⟩

def reset : Outcome := ⟨[], [.beginResetModel, .endResetModel], false⟩

/-- The notifications for the rows of a book that has been read. -/
def loadedSignals (loaded : List Contact) : List ModelSignal :=
  if loaded.isEmpty then [] else [.beginInsertRows 0 (loaded.length - 1), .endInsertRows]

def walletInitCompleted (error : Bool) (file : BookFile) : Outcome :=
  if error then ⟨book, [], false⟩
  else match file with
    | .missing => ⟨book, [], false⟩
    | .malformed => ⟨book, loadedSignals book, false⟩
    | .document contacts => ⟨contacts, loadedSignals contacts, false⟩

end Operations

inductive Operation where
  | walletInitCompleted (error : Bool) (file : BookFile)
  | addAddress (contact : Contact)
  | removeAddress (row : UInt32)
  | reset
deriving DecidableEq

def outcome (book : List Contact) : Operation → Outcome
  | .walletInitCompleted error file => walletInitCompleted book error file
  | .addAddress contact => addAddress book contact
  | .removeAddress row => removeAddress book row
  | .reset => reset

/-- The contacts, and the observer's copy of them as long as the notifications fit it. -/
structure State where
  m_addressBook : List Contact
  shadow : Option (List Contact)
deriving DecidableEq

def State.rowCount (s : State) : ℕ := s.m_addressBook.length

/-- A QJsonArray has a size that is an int. -/
def enabled (s : State) : Operation → Prop
  | .addAddress _ => s.rowCount + 1 < 2 ^ 31
  | .walletInitCompleted _ (.document contacts) => contacts.length < 2 ^ 31
  | _ => True

def handle (s : State) (e : Operation) : State :=
  let o := outcome s.m_addressBook e
  ⟨o.m_addressBook, s.shadow.bind (observe o.m_addressBook o.signals)⟩

/-- An empty book with an observer from the start. -/
def system : EventSystem State Operation where
  init := ⟨[], some []⟩
  enabled := enabled
  handle := handle

/-- The observer's copy has as many rows as the book. -/
def Followed (s : State) : Prop := s.shadow.map List.length = some s.rowCount

/-- A row of the book is taken out of it, announced and saved; any other row does nothing. -/
def RemovesExactly (book : List Contact) : Operation → Prop
  | .removeAddress row =>
    (row.toNat < book.length → removeAddress book row =
      ⟨book.take row.toNat ++ book.drop (row.toNat + 1),
        [.beginRemoveRows row.toNat row.toNat, .endRemoveRows], true⟩) ∧
    (book.length ≤ row.toNat → removeAddress book row = ⟨book, [], false⟩)
  | _ => True

/-- The operation leaves the observer with the right number of rows, and removes as it should. -/
def RowsKept (s : State) (e : Operation) : Prop :=
  Followed (handle s e) ∧ RemovesExactly s.m_addressBook e

/-- A book is read only into an empty model, and contacts are removed only from a book with any. -/
def Permitted (s : State) : Operation → Prop
  | .walletInitCompleted error file => error = true ∨ file = .missing ∨ s.m_addressBook = []
  | .removeAddress _ => s.m_addressBook ≠ []
  | .addAddress _ | .reset => True

section Rows

variable {book : List Contact}

theorem observe_loaded (loaded shadow : List Contact) :
    observe loaded (loadedSignals loaded) shadow = some (loaded ++ shadow) := by
  unfold loadedSignals
  split_ifs with hempty
  · rw [List.isEmpty_iff.mp hempty]
    rfl
  · have hne : loaded ≠ [] := by simpa using hempty
    exact (replay_singleton _ _ _).trans (apply_insert_all shadow hne)

theorem observe_addAddress (book : List Contact) (contact : Contact) :
    observe (addAddress book contact).m_addressBook (addAddress book contact).signals book =
      some (addAddress book contact).m_addressBook := by
  have hlast : (book.length : ℤ) = book.length + ([contact].length : ℤ) - 1 := by simp
  have hsignals : (addAddress book contact).signals =
      [.beginInsertRows book.length (book.length + ([contact].length : ℤ) - 1),
        .endInsertRows] := by
    rw [← hlast]
    rfl
  have key := observe_insert book [contact] [] (List.cons_ne_nil _ _)
  rw [List.append_nil, List.append_nil] at key
  rw [hsignals]
  exact key

/-- The comparison does what it is meant to do in a book that is not empty. -/
theorem bound_iff {row : UInt32} (hne : book ≠ []) (hlt : book.length < 2 ^ 31) :
    UInt32.ofNat book.length - 1 < row ↔ book.length ≤ row.toNat := by
  have hpos := List.length_pos_iff.mpr hne
  have hsize : (UInt32.ofNat book.length).toNat = book.length :=
    UInt32.toNat_ofNat_of_lt' (lt_trans hlt (by decide))
  have hone : (1 : UInt32) ≤ UInt32.ofNat book.length := by
    rw [UInt32.le_iff_toNat_le, hsize]
    exact hpos
  rw [UInt32.lt_iff_toNat_lt, UInt32.toNat_sub_of_le _ _ hone, hsize]
  show book.length - 1 < row.toNat ↔ _
  omega

theorem removeAddress_of_lt {row : UInt32} (hrow : row.toNat < book.length)
    (hlt : book.length < 2 ^ 31) : removeAddress book row =
      ⟨book.take row.toNat ++ book.drop (row.toNat + 1),
        [.beginRemoveRows row.toNat row.toNat, .endRemoveRows], true⟩ := by
  have hne : book ≠ [] := List.ne_nil_of_length_pos (by omega)
  unfold removeAddress
  rw [if_neg (by rw [bound_iff hne hlt]; omega), toInt_of_lt (by omega),
    List.eraseIdx_eq_take_drop_succ]

theorem removeAddress_of_le {row : UInt32} (hne : book ≠ []) (hrow : book.length ≤ row.toNat)
    (hlt : book.length < 2 ^ 31) : removeAddress book row = ⟨book, [], false⟩ :=
  if_pos ((bound_iff hne hlt).mpr hrow)

/-- Every row of an empty book passes the comparison. -/
theorem removeAddress_nil (row : UInt32) : removeAddress [] row =
    ⟨[], [.beginRemoveRows (toInt row.toNat) (toInt row.toNat), .endRemoveRows], true⟩ := by
  unfold removeAddress
  rw [if_neg, List.eraseIdx_nil]
  show ¬ (0xffffffff : UInt32) < row
  rw [UInt32.lt_iff_toNat_lt]
  have hrow := row.toNat_lt
  show ¬ 4294967295 < row.toNat
  omega

theorem removesExactly_iff {e : Operation} (hlt : book.length < 2 ^ 31) :
    RemovesExactly book e ↔ ∀ row, e = .removeAddress row → book ≠ [] := by
  cases e with
  | removeAddress row =>
    constructor
    · rintro h _ - rfl
      have hnone := h.2 (Nat.zero_le _)
      rw [removeAddress_nil] at hnone
      cases hnone
    · intro h
      have hne := h row rfl
      exact ⟨fun hrow => removeAddress_of_lt hrow hlt,
        fun hrow => removeAddress_of_le hne hrow hlt⟩
  | walletInitCompleted error file => exact iff_of_true trivial fun row h => by cases h
  | addAddress contact => exact iff_of_true trivial fun row h => by cases h
  | reset => exact iff_of_true trivial fun row h => by cases h

theorem observe_removeAddress {row : UInt32} (hne : book ≠ []) (hlt : book.length < 2 ^ 31) :
    observe (removeAddress book row).m_addressBook (removeAddress book row).signals book =
      some (removeAddress book row).m_addressBook := by
  by_cases hrow : row.toNat < book.length
  · rw [removeAddress_of_lt hrow hlt]
    have hsplit : book = book.take row.toNat ++ book[row.toNat] :: book.drop (row.toNat + 1) := by
      rw [List.getElem_cons_drop, List.take_append_drop]
    have hlength : ((book.take row.toNat).length : ℤ) = row.toNat := by
      rw [List.length_take]
      omega
    have hremove : observe (book.take row.toNat ++ book.drop (row.toNat + 1))
        [.beginRemoveRows (book.take row.toNat).length (book.take row.toNat).length,
          .endRemoveRows]
        (book.take row.toNat ++ book[row.toNat] :: book.drop (row.toNat + 1)) =
          some (book.take row.toNat ++ book.drop (row.toNat + 1)) := observe_remove _ _ _
    rw [hlength, ← hsplit] at hremove
    exact hremove
  · rw [removeAddress_of_le hne (by omega) hlt]
    exact observe_nil

/-- A permitted operation tells the observer exactly what it does. -/
theorem observe_outcome {e : Operation} (hlt : book.length < 2 ^ 31)
    (h : Permitted ⟨book, some book⟩ e) :
    observe (outcome book e).m_addressBook (outcome book e).signals book =
      some (outcome book e).m_addressBook := by
  cases e with
  | addAddress contact => exact observe_addAddress book contact
  | removeAddress row => exact observe_removeAddress h hlt
  | reset => exact observe_reset
  | walletInitCompleted error file =>
    unfold outcome walletInitCompleted
    cases error with
    | true => exact observe_nil
    | false =>
      cases file with
      | missing => exact observe_nil
      | malformed =>
        have hnil : book = [] := by simpa [Permitted] using h
        rw [hnil]
        rfl
      | document contacts =>
        have hnil : book = [] := by simpa [Permitted] using h
        rw [hnil]
        show observe contacts (loadedSignals contacts) [] = some contacts
        rw [observe_loaded, List.append_nil]

/-- A book that is read on top of another one leaves the observer with the rows of both. -/
theorem not_followed_load {file : BookFile} (hfile : file ≠ .missing) (hne : book ≠ []) :
    ¬ Followed (handle ⟨book, some book⟩ (.walletInitCompleted false file)) := by
  have hpos := List.length_pos_iff.mpr hne
  have hshadow (loaded : List Contact) :
      ¬ Followed ⟨loaded, (some book).bind (observe loaded (loadedSignals loaded))⟩ := by
    unfold Followed
    rw [Option.bind_some, observe_loaded, Option.map_some, List.length_append, Option.some.injEq]
    show ¬ loaded.length + book.length = loaded.length
    omega
  cases file with
  | missing => exact absurd rfl hfile
  | malformed => exact hshadow book
  | document contacts => exact hshadow contacts

end Rows

/-- The observer's copy is the book, which is as long as an array may be. -/
def Shadowed (s : State) : Prop := s.shadow = some s.m_addressBook ∧ s.m_addressBook.length < 2 ^ 31

theorem length_outcome_lt {s : State} {e : Operation} (hlt : s.m_addressBook.length < 2 ^ 31)
    (hen : enabled s e) : (outcome s.m_addressBook e).m_addressBook.length < 2 ^ 31 := by
  cases e with
  | addAddress contact =>
    show (s.m_addressBook ++ [contact]).length < 2 ^ 31
    rw [List.length_append]
    exact hen
  | removeAddress row =>
    show (removeAddress s.m_addressBook row).m_addressBook.length < 2 ^ 31
    unfold removeAddress
    split_ifs
    · exact hlt
    · exact lt_of_le_of_lt (List.length_eraseIdx_le _ _) hlt
  | reset => exact Nat.two_pow_pos 31
  | walletInitCompleted error file =>
    show (walletInitCompleted s.m_addressBook error file).m_addressBook.length < 2 ^ 31
    unfold walletInitCompleted
    split_ifs
    · exact hlt
    · cases file with
      | missing => exact hlt
      | malformed => exact hlt
      | document contacts => exact hen

theorem shadowed_handle {s : State} {e : Operation} (hs : Shadowed s) (hen : enabled s e)
    (hpermitted : Permitted s e) : Shadowed (handle s e) := by
  obtain ⟨book, shadow⟩ := s
  obtain ⟨hshadow, hlt⟩ := hs
  change shadow = some book at hshadow
  subst hshadow
  exact ⟨observe_outcome hlt hpermitted, length_outcome_lt hlt hen⟩

theorem rowsKept_iff_permitted {s : State} {e : Operation} (hs : Shadowed s) :
    RowsKept s e ↔ Permitted s e := by
  obtain ⟨book, shadow⟩ := s
  obtain ⟨hshadow, hlt⟩ := hs
  change shadow = some book at hshadow
  subst hshadow
  constructor
  · rintro ⟨hfollowed, hremoves⟩
    cases e with
    | addAddress contact => trivial
    | reset => trivial
    | removeAddress row => exact (removesExactly_iff hlt).mp hremoves row rfl
    | walletInitCompleted error file =>
      by_contra hnot
      unfold Permitted at hnot
      simp only [not_or, Bool.not_eq_true] at hnot
      obtain ⟨rfl, hfile, hne⟩ := hnot
      exact not_followed_load hfile hne hfollowed
  · intro hpermitted
    have hshadowed : (handle ⟨book, some book⟩ e).shadow = some (outcome book e).m_addressBook :=
      observe_outcome hlt hpermitted
    refine ⟨?_, (removesExactly_iff hlt).mpr ?_⟩
    · unfold Followed
      rw [hshadowed]
      rfl
    · rintro row rfl
      exact hpermitted

/-- In every run, the observer has the right number of rows after each operation and every removal is
exact, if and only if books are read only into an empty model and contacts are removed only from a
book that is not empty. -/
theorem rowsKept_iff (h : List Operation) (hrun : system.Admissible h) :
    system.Always RowsKept h ↔ system.Always Permitted h := by
  refine EventSystem.always_iff_of_invariant (I := Shadowed) ⟨rfl, by decide⟩ ?_ ?_ hrun
  · exact fun s e hs hen hpermitted => shadowed_handle hs hen hpermitted
  · exact fun s e hs _ => rowsKept_iff_permitted hs

instance decidableEnabled (s : State) : (e : Operation) → Decidable (system.enabled s e)
  | .addAddress _ => inferInstanceAs (Decidable (s.rowCount + 1 < 2 ^ 31))
  | .walletInitCompleted _ (.document contacts) =>
    inferInstanceAs (Decidable (contacts.length < 2 ^ 31))
  | .walletInitCompleted _ .missing | .walletInitCompleted _ .malformed | .removeAddress _
  | .reset => inferInstanceAs (Decidable True)

instance decidablePermitted (s : State) : (e : Operation) → Decidable (Permitted s e)
  | .walletInitCompleted error file =>
    inferInstanceAs (Decidable (error = true ∨ file = .missing ∨ s.m_addressBook = []))
  | .removeAddress _ => inferInstanceAs (Decidable (s.m_addressBook ≠ []))
  | .addAddress _ | .reset => inferInstanceAs (Decidable True)

/-- A book is read, edited, and read again after the wallet has been closed. -/
def reopened : List Operation :=
  [.walletInitCompleted false (.document [alice]), .reset, .removeAddress 1, .removeAddress 0,
    .addAddress bob, .walletInitCompleted false (.document [alice]),
    .walletInitCompleted true .missing]

theorem rowsKept_iff_reopened : system.Always RowsKept reopened :=
  (rowsKept_iff reopened (by decide)).mpr (by decide)

/-- The Delete button without a selection announces and saves the removal of a row from an empty book,
and a second initialisation announces the rows of the book once more. -/
theorem rows_not_kept :
    system.Admissible [.removeAddress 0xffffffff] ∧
      outcome [] (.removeAddress 0xffffffff) =
        ⟨[], [.beginRemoveRows (-1) (-1), .endRemoveRows], true⟩ ∧
      ¬ system.Always RowsKept [.removeAddress 0xffffffff] ∧
      system.Admissible [.walletInitCompleted false (.document [alice]),
        .walletInitCompleted false (.document [alice])] ∧
      system.after [.walletInitCompleted false (.document [alice]),
        .walletInitCompleted false (.document [alice])] = ⟨[alice], some [alice, alice]⟩ ∧
      ¬ system.Always RowsKept [.walletInitCompleted false (.document [alice]),
        .walletInitCompleted false (.document [alice])] := by
  refine ⟨by decide, by decide +kernel, ?_, by decide, by decide, ?_⟩
  · rintro ⟨⟨-, hremoves⟩, -⟩
    have hnone := hremoves.2 (Nat.zero_le _)
    revert hnone
    decide
  · rintro ⟨⟨hfollowed, -⟩, -⟩
    revert hfollowed
    unfold Followed
    decide

/-! ### The address book of the wallets -/

/-- The contacts that an operation leaves, saved where it saves them. -/
def commit (s : AddressBookModel.State) (o : Outcome) : AddressBookModel.State :=
  if o.saved then { s with m_addressBook := o.m_addressBook }.save
  else { s with m_addressBook := o.m_addressBook }

/-- What the file system has for a path. -/
def bookFile : Option (List Contact) → BookFile
  | none => .missing
  | some contacts => .document contacts

/-- The handlers of the address book over the life of the wallets do what the operations do. -/
theorem commit_outcome (s : AddressBookModel.State) :
    (∀ contact, s.addAddress contact = commit s (addAddress s.m_addressBook contact)) ∧
      (∀ row, s.removeAddress row = commit s (removeAddress s.m_addressBook row)) ∧
      s.reset = commit s reset ∧
      ∀ error, s.walletInitCompleted error = commit s (walletInitCompleted s.m_addressBook error
        (bookFile (s.files s.settings.getAddressBookFile))) := by
  refine ⟨fun contact => rfl, fun row => ?_, rfl, fun error => ?_⟩
  · unfold AddressBookModel.State.removeAddress removeAddress
    split_ifs <;> rfl
  · unfold AddressBookModel.State.walletInitCompleted walletInitCompleted
    cases error with
    | true => rfl
    | false =>
      cases s.files s.settings.getAddressBookFile with
      | none => rfl
      | some contacts => rfl

end ConcealDesktop.AddressBookRows
