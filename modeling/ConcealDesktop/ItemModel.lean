import Mathlib.Data.List.AList
import ConcealDesktop.CurrencyAdapter
import ConcealDesktop.Wallet

/-! What the item models share: indexes, cell values, change notifications and hash tables of Qt,
and the parts of the program that the cells are computed with. -/
namespace ConcealDesktop

structure QModelIndex where
  row : ℤ
  column : ℤ
  deriving DecidableEq

def QModelIndex.isValid (index : QModelIndex) : Bool := 0 ≤ index.row ∧ 0 ≤ index.column

/-- The conversion of an unsigned number to a C++ int, which keeps its lowest 32 bits. -/
def toInt (n : ℕ) : ℤ := Int.bmod n (2 ^ 32)

theorem toInt_of_lt {n : ℕ} (h : n < 2 ^ 31) : toInt n = n :=
  Int.bmod_eq_of_le (by omega) (by omega)

theorem toInt_emod (n : ℕ) : toInt n % 2 ^ 32 = n % 2 ^ 32 := Int.bmod_emod

theorem toInt_bounds (n : ℕ) : -2 ^ 31 ≤ toInt n ∧ toInt n < 2 ^ 31 :=
  ⟨Int.le_bmod (by decide), Int.bmod_lt (by decide)⟩

/-- The cell values. Integers of all widths are `int`. Texts that come from the core are given by
their UTF-8 bytes, and the text of a time in the local time zone by the time. -/
inductive QVariant where
  | null
  | int (n : ℤ)
  | bool (b : Bool)
  | text (s : QString)
  | utf8 (s : StdString)
  | texts (l : List StdString)
  | bytes (b : StdString)
  | dateTime (seconds : Option ℕ)
  | dateText (seconds : ℕ)
  | rate (amount interest : ℕ)
  | icon (name : QString)
  | alignment
  deriving DecidableEq

namespace QVariant

/-- value<quint64>() and its narrower forms; a value of another kind is read as zero. -/
def toUnsigned (width : ℕ) : QVariant → ℕ
  | .int n => (n % 2 ^ width).toNat
  | _ => 0

theorem toUnsigned_int {width n : ℕ} (h : n < 2 ^ width) : (int n).toUnsigned width = n := by
  have hmod : (n : ℤ) % 2 ^ width = n := Int.emod_eq_of_lt (by omega) (by exact_mod_cast h)
  rw [toUnsigned, hmod, Int.toNat_natCast]

end QVariant

/-- The notifications of QAbstractItemModel, in the order in which a handler sends them. -/
inductive ModelSignal where
  | beginResetModel
  | endResetModel
  | beginInsertRows (first last : ℤ)
  | endInsertRows
  | beginRemoveRows (first last : ℤ)
  | endRemoveRows
  | dataChanged (topLeft bottomRight : QModelIndex)
  deriving DecidableEq

/-- The rows that a dataChanged notification announces. -/
def ModelSignal.announces (row : ℤ) : ModelSignal → Prop
  | .dataChanged topLeft bottomRight => topLeft.row ≤ row ∧ row ≤ bottomRight.row
  | _ => False

instance (row : ℤ) (s : ModelSignal) : Decidable (s.announces row) := by
  cases s <;> unfold ModelSignal.announces <;> infer_instance

abbrev QHash (α β : Type) := AList fun _ : α => β

namespace QHash

variable {α β : Type} [DecidableEq α]

def size (m : QHash α β) : ℕ := m.keys.length

def contains (m : QHash α β) (k : α) : Bool := (m.lookup k).isSome

/-- QHash::value, which gives a default-constructed value for a missing key. -/
def value [Inhabited β] (m : QHash α β) (k : α) : β := (m.lookup k).getD default

theorem contains_iff (m : QHash α β) (k : α) : m.contains k = true ↔ k ∈ m.keys := by
  rw [contains, AList.lookup_isSome, AList.mem_keys]

theorem lookup_insert (m : QHash α β) (k j : α) (v : β) :
    (m.insert k v).lookup j = if j = k then some v else m.lookup j := by
  split_ifs with h
  · rw [h, AList.lookup_insert]
  · exact AList.lookup_insert_ne h

theorem keys_insert_of_notMem {m : QHash α β} {k : α} (h : k ∉ m.keys) (v : β) :
    (m.insert k v).keys = k :: m.keys := by
  rw [AList.keys_insert, List.erase_of_not_mem h]

end QHash

/-- What the cells depend on besides the wallet and the model: the own address, the heights that
the node reports, and the functions of the core library. -/
structure Environment where
  getAddress : StdString
  getLastKnownBlockHeight : ℕ
  /-- The hexadecimal secret key of a transaction, when the wallet has one. -/
  getTxKey : StdString → Option StdString
  /-- The payment id hash that the core library finds in an extra field. -/
  paymentIdHash : StdString → Option (Vector UInt8 32)
  /-- Message::getMessage of the message constructed from a text. -/
  getMessage : StdString → QString
  calculateInterest : ℕ → ℕ → ℕ → ℕ
  getExpectedTimeForHeight : ℕ → ℕ
  depositMinTermV3 : ℕ
  minimumFee : ℕ
  decimalPlaces : ℕ

/-- Before the node has answered, with no core functions behind it. -/
def Environment.offline : Environment where
  getAddress := []
  getLastKnownBlockHeight := 0
  getTxKey _ := none
  paymentIdHash _ := none
  getMessage _ := []
  calculateInterest _ _ _ := 0
  getExpectedTimeForHeight _ := 0
  depositMinTermV3 := 21900
  minimumFee := 10
  decimalPlaces := 6

def Environment.formatAmount (env : Environment) (amount : ℕ) : QString :=
  CurrencyAdapter.formatAmount env.decimalPlaces (UInt64.ofNat amount)

/-- extractPaymentId of CryptoNoteWrapper.cpp: two digits for each byte of the hash. -/
def Environment.extractPaymentId (env : Environment) (extra : StdString) : StdString :=
  let digits := bytes "0123456789ABCDEF"
  match env.paymentIdHash extra with
  | some hash => hash.toList.flatMap fun b : UInt8 =>
      [digits.getD (b >>> 4).toNat 0, digits.getD (b &&& 15).toNat 0]
  | none => []

theorem Environment.length_extractPaymentId (env : Environment) (extra : StdString) :
    (env.extractPaymentId extra).length = 0 ∨ (env.extractPaymentId extra).length = 64 := by
  unfold extractPaymentId
  cases env.paymentIdHash extra with
  | none => exact Or.inl rfl
  | some hash => simp [List.length_flatMap]

/-- QTextStream::readLine on a text: the part before the first line end. -/
def readLine (s : QString) : QString :=
  let line := s.takeWhile (· != qchar '\n')
  if line.length < s.length ∧ line.getLast? = some (qchar '\r') then line.dropLast else line

end ConcealDesktop
