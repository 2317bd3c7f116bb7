import ConcealDesktop.Text
import ConcealDesktop.Library.EventSystem

/-! The wallet entries of Settings. The address-book path is derived from the wallet path in
load, setOptions and setWalletFile. `appFile` is the absolute path of the application's name in
the data directory, where the default files live. -/
namespace ConcealDesktop

namespace QString

def endsWithText (s suffix : QString) : Bool := suffix.isSuffixOf s

/-- QString::lastIndexOf of a text; the source's -1 is `none`. -/
def lastIndexOf (needle : QString) : QString → Option ℕ
  | [] => if needle = [] then some 0 else none
  | c :: s =>
    match lastIndexOf needle s with
    | some i => some (i + 1)
    | none => if needle.isPrefixOf (c :: s) then some 0 else none

/-- QString::replace at a position; at the position -1 it changes nothing. -/
def replace (s : QString) (position : Option ℕ) (n : ℕ) (after : QString) : QString :=
  match position with
  | some i => s.take i ++ after ++ s.drop (i + n)
  | none => s

end QString

/-- The entries of the configuration file that concern the wallet. -/
structure StoredSettings where
  walletFile : Option QString
  encrypted : Bool
  tracking : Bool

structure Settings where
  walletFile : Option QString
  encrypted : Bool
  tracking : Bool
  addressBookFile : QString

namespace Settings

/-- The state before load. -/
def initial : Settings := ⟨none, false, false, []⟩

def getWalletFile (appFile : QString) (s : Settings) : QString :=
  s.walletFile.getD (appFile ++ qstr ".wallet")

def getAddressBookFile (s : Settings) : QString := s.addressBookFile

/-- The replacement of the extension that the three places share. -/
def addressBookOf (walletFile : QString) : QString :=
  walletFile.replace (QString.lastIndexOf (qstr ".wallet") walletFile) 7 (qstr ".addressbook")

def setOptions (appFile : QString) (s : Settings) : Settings :=
  match s.walletFile with
  | none => { s with addressBookFile := appFile ++ qstr ".addressbook" }
  | some walletFile => { s with addressBookFile := addressBookOf walletFile }

/-- Settings::load: `none` stands for a configuration file that cannot be opened. -/
def load (appFile : QString) (cfg : Option StoredSettings) (s : Settings) : Settings :=
  match cfg with
  | some stored =>
    let s := { s with walletFile := stored.walletFile, encrypted := stored.encrypted,
                      tracking := stored.tracking }
    let s := match s.walletFile with
      | none => { s with addressBookFile := appFile ++ qstr ".addressbook" }
      | some walletFile => { s with addressBookFile := addressBookOf walletFile }
    setOptions appFile (setOptions appFile s)
  | none => setOptions appFile { s with addressBookFile := appFile ++ qstr ".addressbook" }

/-- The path that setWalletFile stores for a file name. -/
def storedPath (file : QString) : QString :=
  if file.endsWithText (qstr ".wallet") ∨ file.endsWithText (qstr ".keys") then file
  else file ++ qstr ".wallet"

def setWalletFile (file : QString) (s : Settings) : Settings :=
  { s with walletFile := some (storedPath file), addressBookFile := addressBookOf (storedPath file) }

def setEncrypted (encrypted : Bool) (s : Settings) : Settings := { s with encrypted := encrypted }

def setTrackingMode (tracking : Bool) (s : Settings) : Settings := { s with tracking := tracking }

/-- Settings over its life: load once, then any calls of setWalletFile. -/
def system (appFile : QString) (cfg : Option StoredSettings) :
    EventDriven.EventSystem Settings QString where
  init := load appFile cfg initial
  enabled := fun _ _ => True
  handle := fun s file => setWalletFile file s

section Derivation

variable {appFile : QString} {cfg : Option StoredSettings}

theorem lastIndexOf_append_self (a : QString) :
    QString.lastIndexOf (qstr ".wallet") (a ++ qstr ".wallet") = some a.length := by
  induction a with
  | nil => decide
  | cons c a ih => rw [List.cons_append, QString.lastIndexOf, ih]; rfl

/-- A path that ends in the wallet extension gets the address-book extension in its place. -/
theorem addressBookOf_wallet (a : QString) :
    addressBookOf (a ++ qstr ".wallet") = a ++ qstr ".addressbook" := by
  rw [addressBookOf, lastIndexOf_append_self]
  show (a ++ qstr ".wallet").take a.length ++ qstr ".addressbook" ++
    (a ++ qstr ".wallet").drop (a.length + 7) = _
  rw [List.take_left, List.drop_eq_nil_of_le (by rw [List.length_append]; exact le_rfl),
    List.append_nil]

theorem setOptions_addressBookFile (s : Settings) : (setOptions appFile s).addressBookFile =
    addressBookOf ((setOptions appFile s).getWalletFile appFile) := by
  obtain ⟨walletFile, encrypted, tracking, book⟩ := s
  cases walletFile with
  | none => exact (addressBookOf_wallet appFile).symm
  | some w => rfl

theorem load_eq_setOptions (s : Settings) : ∃ t, load appFile cfg s = setOptions appFile t := by
  cases cfg with
  | none => exact ⟨_, rfl⟩
  | some stored => exact ⟨_, rfl⟩

/-- In every state the address-book path is the one derived from the wallet path. -/
theorem after_addressBookFile (h : List QString) :
    ((system appFile cfg).after h).addressBookFile =
      addressBookOf (((system appFile cfg).after h).getWalletFile appFile) := by
  cases h with
  | nil =>
    obtain ⟨t, ht⟩ : ∃ t, load appFile cfg initial = setOptions appFile t :=
      load_eq_setOptions initial
    show (load appFile cfg initial).addressBookFile = _
    rw [ht, setOptions_addressBookFile, ← ht]
    rfl
  | cons file h => rfl

end Derivation

theorem endsWithText_iff {s suffix : QString} :
    s.endsWithText suffix = true ↔ ∃ a, s = a ++ suffix := by
  rw [QString.endsWithText, List.isSuffixOf_iff_suffix]
  exact ⟨fun ⟨a, h⟩ => ⟨a, h.symm⟩, fun ⟨a, h⟩ => ⟨a, h.symm⟩⟩

/-- No stored wallet path, or one with the wallet extension. -/
def LoadsWallet (cfg : Option StoredSettings) : Prop :=
  ∀ stored, cfg = some stored → ∀ w, stored.walletFile = some w → w.endsWithText (qstr ".wallet")

/-- A file name that is not the name of a key file. -/
def NamesWallet (file : QString) : Prop := file.endsWithText (qstr ".keys") = false

instance (file : QString) : Decidable (NamesWallet file) := inferInstanceAs (Decidable (_ = _))

theorem storedPath_wallet {file : QString} (h : NamesWallet file) :
    ∃ a, storedPath file = a ++ qstr ".wallet" := by
  unfold storedPath
  by_cases hw : file.endsWithText (qstr ".wallet")
  · rw [if_pos (Or.inl hw)]
    exact endsWithText_iff.mp hw
  · have hno : ¬ (file.endsWithText (qstr ".wallet") ∨ file.endsWithText (qstr ".keys")) := by
      rw [h]
      exact fun hor => hor.elim hw Bool.false_ne_true
    rw [if_neg hno]
    exact ⟨file, rfl⟩

/-- Without key files and hand-written values every wallet path has the wallet extension. -/
theorem after_walletFile {appFile : QString} {cfg : Option StoredSettings} {h : List QString}
    (hcfg : LoadsWallet cfg) (hh : (system appFile cfg).Always (fun _ file => NamesWallet file) h) :
    ∃ a, ((system appFile cfg).after h).getWalletFile appFile = a ++ qstr ".wallet" := by
  cases h with
  | nil =>
    show ∃ a, (load appFile cfg initial).getWalletFile appFile = a ++ qstr ".wallet"
    cases hc : cfg with
    | none => exact ⟨appFile, rfl⟩
    | some stored =>
      cases hw : stored.walletFile with
      | none =>
        refine ⟨appFile, ?_⟩
        simp [load, setOptions, getWalletFile, hw]
      | some w =>
        obtain ⟨a, ha⟩ := endsWithText_iff.mp (hcfg stored hc w hw)
        refine ⟨a, ?_⟩
        simp [load, setOptions, getWalletFile, hw, ha]
  | cons file h => exact storedPath_wallet hh.1

theorem append_ne_append {s t : QString} (hs : s ≠ []) (ht : t ≠ [])
    (h : s.getLast? ≠ t.getLast?) (a b : QString) : a ++ s ≠ b ++ t := by
  intro heq
  apply h
  have hlast := congrArg List.getLast? heq
  rwa [List.getLast?_append_of_ne_nil _ hs, List.getLast?_append_of_ne_nil _ ht] at hlast

theorem lastIndexOf_some {needle s : QString} {i : ℕ} (h : QString.lastIndexOf needle s = some i) :
    ∃ r, s = s.take i ++ needle ++ r ∧ s.drop (i + needle.length) = r := by
  induction s generalizing i with
  | nil =>
    rw [QString.lastIndexOf] at h
    split_ifs at h with hn
    injection h with h
    exact ⟨[], by simp [← h, hn], by simp⟩
  | cons c s ih =>
    rw [QString.lastIndexOf] at h
    cases hi : QString.lastIndexOf needle s with
    | some j =>
      rw [hi] at h
      injection h with h
      obtain ⟨r, hs, hr⟩ := ih hi
      refine ⟨r, ?_, ?_⟩
      · rw [← h, List.take_succ_cons, List.cons_append, List.cons_append, ← hs]
      · rw [← h, Nat.add_right_comm, List.drop_succ_cons, hr]
    | none =>
      simp only [hi] at h
      split_ifs at h with hp
      injection h with h
      obtain ⟨r, hr⟩ := List.isPrefixOf_iff_prefix.mp hp
      refine ⟨r, ?_, ?_⟩
      · rw [← h, List.take_zero, List.nil_append, hr]
      · rw [← h, Nat.zero_add, ← hr, List.drop_left]

/-- The derivation keeps the extension of a key file. -/
theorem addressBookOf_keys (a : QString) :
    ∃ b, addressBookOf (a ++ qstr ".keys") = b ++ qstr ".keys" := by
  cases hi : QString.lastIndexOf (qstr ".wallet") (a ++ qstr ".keys") with
  | none => exact ⟨a, by rw [addressBookOf, hi]; rfl⟩
  | some i =>
    obtain ⟨r, hs, hr⟩ := lastIndexOf_some hi
    have hbook : addressBookOf (a ++ qstr ".keys") =
        (a ++ qstr ".keys").take i ++ qstr ".addressbook" ++ r := by
      rw [addressBookOf, hi, ← hr]
      rfl
    -- the two extensions cannot overlap
    have hsuffix : ∃ r', r = r' ++ qstr ".keys" := by
      rcases List.append_eq_append_iff.mp hs with ⟨x, hx, hk⟩ | ⟨x, -, hr'⟩
      · have hlast := congrArg List.getLast? hx
        rw [List.getLast?_append_of_ne_nil _ (by decide)] at hlast
        cases hnil : x.getLast? with
        | none =>
          rw [List.getLast?_eq_none_iff.mp hnil, List.nil_append] at hk
          exact ⟨[], hk.symm⟩
        | some c =>
          have hc : c ∈ qstr ".keys" := by
            rw [hk]
            exact List.mem_append_left r (List.mem_of_getLast? hnil)
          have hwallet : (qstr ".wallet").getLast? = some (qchar 't') := by decide
          rw [List.getLast?_append, hnil, Option.some_or, hwallet] at hlast
          rw [← Option.some.inj hlast] at hc
          exact absurd hc (by decide)
      · exact ⟨x, hr'⟩
    obtain ⟨r', rfl⟩ := hsuffix
    exact ⟨_, by rw [hbook, ← List.append_assoc]⟩

theorem storedPath_keys (a : QString) : storedPath (a ++ qstr ".keys") = a ++ qstr ".keys" :=
  if_pos (Or.inr (endsWithText_iff.mpr ⟨a, rfl⟩))

theorem storedPath_cases (file : QString) :
    (∃ a, storedPath file = a ++ qstr ".wallet") ∨ ∃ a, storedPath file = a ++ qstr ".keys" := by
  cases hfile : file.endsWithText (qstr ".keys") with
  | false => exact Or.inl (storedPath_wallet hfile)
  | true =>
    obtain ⟨a, rfl⟩ := endsWithText_iff.mp hfile
    exact Or.inr ⟨a, storedPath_keys a⟩

/-- A path that setWalletFile has stored is safe against every other such path exactly when it
is not the path of a key file. -/
theorem setWalletFile_safe_iff (file : QString) :
    (∀ file', addressBookOf (storedPath file) ≠ storedPath file' ∧
      (storedPath file ≠ storedPath file' →
        addressBookOf (storedPath file) ≠ addressBookOf (storedPath file'))) ↔
      NamesWallet file := by
  constructor
  · intro h
    apply Bool.eq_false_iff.mpr
    intro hkeys
    obtain ⟨a, rfl⟩ := endsWithText_iff.mp hkeys
    obtain ⟨b, hb⟩ := addressBookOf_keys a
    apply (h (b ++ qstr ".keys")).1
    rw [storedPath_keys, storedPath_keys, hb]
  · intro hfile file'
    obtain ⟨a, ha⟩ := storedPath_wallet hfile
    rw [ha, addressBookOf_wallet]
    rcases storedPath_cases file' with ⟨b, hb⟩ | ⟨b, hb⟩
    · rw [hb, addressBookOf_wallet]
      constructor
      · exact append_ne_append (by decide) (by decide) (by decide) a b
      · intro hne heq
        exact hne (by rw [List.append_cancel_right heq])
    · obtain ⟨b', hb'⟩ := addressBookOf_keys b
      rw [hb, hb']
      constructor
      · exact append_ne_append (by decide) (by decide) (by decide) a b
      · intro _
        exact append_ne_append (by decide) (by decide) (by decide) a b'

theorem storedPath_of_wallet (a : QString) :
    storedPath (a ++ qstr ".wallet") = a ++ qstr ".wallet" :=
  if_pos (Or.inl (endsWithText_iff.mpr ⟨a, rfl⟩))

theorem namesWallet_of_wallet (a : QString) : NamesWallet (a ++ qstr ".wallet") := by
  apply Bool.eq_false_iff.mpr
  intro hkeys
  obtain ⟨b, hb⟩ := endsWithText_iff.mp hkeys
  exact append_ne_append (by decide) (by decide) (by decide) a b hb

/-- While every wallet path has the wallet extension, an address book is never written over a
wallet file or over the address book of another wallet. -/
theorem addressBookFile_safe (appFile : QString) (cfg cfg' : Option StoredSettings)
    (h h' : List QString) (hcfg : LoadsWallet cfg) (hcfg' : LoadsWallet cfg')
    (hh : (system appFile cfg).Always (fun _ file => NamesWallet file) h)
    (hh' : (system appFile cfg').Always (fun _ file => NamesWallet file) h') :
    let s := (system appFile cfg).after h
    let t := (system appFile cfg').after h'
    s.getAddressBookFile ≠ t.getWalletFile appFile ∧
      (s.getWalletFile appFile ≠ t.getWalletFile appFile →
        s.getAddressBookFile ≠ t.getAddressBookFile) := by
  intro s t
  obtain ⟨a, ha⟩ := after_walletFile hcfg hh
  obtain ⟨b, hb⟩ := after_walletFile hcfg' hh'
  have hsafe :=
    (setWalletFile_safe_iff (a ++ qstr ".wallet")).mpr (namesWallet_of_wallet a)
      (b ++ qstr ".wallet")
  rw [storedPath_of_wallet, storedPath_of_wallet, ← ha, ← hb] at hsafe
  have hs : s.getAddressBookFile = addressBookOf (s.getWalletFile appFile) :=
    after_addressBookFile h
  have ht : t.getAddressBookFile = addressBookOf (t.getWalletFile appFile) :=
    after_addressBookFile h'
  rw [hs, ht]
  exact hsafe

theorem loadsWallet_none : LoadsWallet none := by
  intro stored h
  cases h

/-- A file name without extension, and the default files beside it. -/
theorem addressBookFile_safe_default :
    ((system (qstr "d/app") none).after [qstr "mine"]).getAddressBookFile ≠
        ((system (qstr "d/app") none).after []).getWalletFile (qstr "d/app") ∧
      (((system (qstr "d/app") none).after [qstr "mine"]).getWalletFile (qstr "d/app") ≠
          ((system (qstr "d/app") none).after []).getWalletFile (qstr "d/app") →
        ((system (qstr "d/app") none).after [qstr "mine"]).getAddressBookFile ≠
          ((system (qstr "d/app") none).after []).getAddressBookFile) :=
  addressBookFile_safe (qstr "d/app") none none [qstr "mine"] [] loadsWallet_none loadsWallet_none
    (by decide) (by decide)

/-- Opening a key file makes it the address book, and two key files can share one address book. -/
theorem addressBookFile_keys :
    ((system (qstr "d/app") none).after [qstr "w.keys"]).getAddressBookFile =
        ((system (qstr "d/app") none).after [qstr "w.keys"]).getWalletFile (qstr "d/app") ∧
      ((system (qstr "d/app") none).after [qstr "w.wallet.keys"]).getAddressBookFile =
        ((system (qstr "d/app") none).after [qstr "w.addressbook.keys"]).getAddressBookFile := by
  decide

end Settings
end ConcealDesktop
