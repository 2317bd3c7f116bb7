import Mathlib.Tactic.FieldSimp
import ConcealDesktop.AmountOrder
import ConcealDesktop.CellInputs
import ConcealDesktop.Library.StableSort

/-! The order of the deposits in the overview. The comparison looks at two cells only: it takes them
for dates when both are read as dates, for numbers when both are read as numbers, and for texts
otherwise. -/
namespace ConcealDesktop
open StableSort CurrencyAdapter QString

namespace QVariant

/-- The types that the comparison tells apart. -/
inductive VariantType where
  | string | int | longLong | uLongLong | double | dateTime | other
  deriving DecidableEq

/-- What Qt makes of a value: its type and its conversions. A time is given in seconds, an invalid
one as `none`; a number comes with the flag that says whether the value was one. -/
structure Conversions where
  type : QVariant → VariantType
  toDateTime : QVariant → Option ℤ
  toDouble : QVariant → Bool × ℚ
  toInt : QVariant → ℤ
  toLongLong : QVariant → ℤ
  toULongLong : QVariant → ℤ
  toString : QVariant → QString

end QVariant

namespace DepositListModel
open QVariant DepositModel

def filterAcceptsColumn (sourceColumn : ℤ) : Bool :=
  sourceColumn == Column.state.toInt || sourceColumn == Column.amount.toInt ||
    sourceColumn == Column.type.toInt || sourceColumn == Column.unlockTime.toInt

/-- QDateTime::operator<; an invalid time counts as the start of the epoch. -/
def dateTimeLess (left right : Option ℤ) : Bool := left.getD 0 < right.getD 0

/-- DepositListModel::lessThan, with the data of the two cells. -/
def lessThan (c : Conversions) (leftData rightData : QVariant) : Bool :=
  match c.type leftData with
  | .string =>
    let leftDate := c.toDateTime leftData
    let rightDate := c.toDateTime rightData
    let (leftOk, leftVal) := c.toDouble leftData
    let (rightOk, rightVal) := c.toDouble rightData
    if leftDate.isSome && rightDate.isSome then dateTimeLess leftDate rightDate
    else if leftOk && rightOk then leftVal < rightVal
    else c.toString leftData < c.toString rightData
  | .int => c.toInt leftData < c.toInt rightData
  | .longLong => c.toLongLong leftData < c.toLongLong rightData
  | .uLongLong => c.toULongLong leftData < c.toULongLong rightData
  | .double => (c.toDouble leftData).2 < (c.toDouble rightData).2
  | .dateTime => dateTimeLess (c.toDateTime leftData) (c.toDateTime rightData)
  | .other => c.toString leftData < c.toString rightData

end DepositListModel

/-! ### The cells of the accepted columns -/

namespace DepositModel
open WalletAdapter

namespace View

variable (v : View)

def cell (row : ℕ) (column : Column) : QVariant :=
  (data v.env v.wallet v.transactions v.model (index row column.toInt) .display).getD .null

/-- The amount of the deposit that a row shows. -/
def amount (row : ℕ) : ℕ :=
  match v.model.access row with
  | .real depositId => (getDeposit v.wallet depositId).elim 0 (·.amount)
  | .pending pending => pending.amount
  | .outOfBounds _ => 0

end View

variable {v : View} {row : ℕ}

theorem access_cases (h : row < v.model.rowCount) :
    v.model.access row = .real row ∨ ∃ pending, v.model.access row = .pending pending := by
  unfold access isPendingRow pendingIndex
  simp only [decide_eq_true_eq, Nat.cast_le]
  split_ifs with hpending
  · right
    have hlt : ((row : ℤ) - v.model.m_depositCount).toNat < v.model.m_pendingDeposits.length := by
      unfold rowCount at h
      omega
    rw [List.getElem?_eq_getElem hlt]
    exact ⟨_, rfl⟩
  · exact Or.inl (by rw [Int.toNat_natCast])

theorem cell_eq (v : View) (row : ℕ) (column : Column) :
    v.cell row column = match v.model.access row with
      | .real depositId =>
        realDisplayRole v.env v.wallet v.transactions depositId (index row column.toInt) column
      | .pending pending => pendingDisplayRole v.env v.wallet v.transactions pending column
      | .outOfBounds _ => .null := by
  unfold View.cell data
  rw [isValid_index, if_neg (by decide)]
  simp only [getDisplayRole, index_row, index_column, Column.ofInt_toInt]
  cases v.model.access row <;> rfl

/-- The texts that stand for themselves. -/
def names : List QString :=
  [qstr "Locked", qstr "Unlocked", qstr "Spent", qstr "Pending", qstr "Investment", qstr "Deposit",
    qstr "-"]

theorem cell_state (h : row < v.model.rowCount) :
    ∃ s ∈ names, v.cell row .state = .text s := by
  rw [cell_eq]
  rcases access_cases h with haccess | ⟨pending, haccess⟩
  · simp only [haccess, realDisplayRole]
    split
    · exact ⟨_, by decide, rfl⟩
    · exact ⟨_, by decide, rfl⟩
    · exact ⟨_, by decide, rfl⟩
    · exact ⟨_, by decide, rfl⟩
  · rw [haccess]
    exact ⟨qstr "Pending", by decide, rfl⟩

theorem cell_amount (h : row < v.model.rowCount) (hamount : v.amount row < 2 ^ 64) :
    v.cell row .amount = .text (v.env.formatAmount (v.amount row)) := by
  rw [cell_eq]
  unfold View.amount at hamount ⊢
  rcases access_cases h with haccess | ⟨pending, haccess⟩
  · rw [haccess] at hamount ⊢
    dsimp only at hamount ⊢
    unfold realDisplayRole realUserRole
    cases hdeposit : getDeposit v.wallet row with
    | none => rfl
    | some deposit =>
      rw [hdeposit] at hamount
      exact congrArg (fun n => QVariant.text (v.env.formatAmount n))
        (QVariant.toUnsigned_int hamount)
  · rw [haccess]
    rfl

theorem cell_unlockTime (h : row < v.model.rowCount) :
    v.cell row .unlockTime = .text (qstr "-") ∨ v.cell row .unlockTime = .dateTime none ∨
      ∃ t, v.cell row .unlockTime = .dateText t := by
  rw [cell_eq]
  rcases access_cases h with haccess | ⟨pending, haccess⟩
  · simp only [haccess, realDisplayRole]
    split_ifs
    · exact Or.inl rfl
    · exact Or.inr (Or.inr ⟨_, rfl⟩)
    · exact Or.inr (Or.inl rfl)
  · rw [haccess]
    exact Or.inl rfl

/-- A cell without a name shows the unlock time instead. -/
theorem cell_type (h : row < v.model.rowCount) :
    v.cell row .type = .text (qstr "Investment") ∨ v.cell row .type = .text (qstr "Deposit") ∨
      v.cell row .type = v.cell row .unlockTime := by
  rw [cell_eq, cell_eq]
  rcases access_cases h with haccess | ⟨pending, haccess⟩
  · simp only [haccess, realDisplayRole]
    split
    · exact Or.inl rfl
    · split
      · exact Or.inr (Or.inl rfl)
      · split
        · exact Or.inr (Or.inl rfl)
        · exact Or.inr (Or.inr rfl)
  · rw [haccess]
    exact Or.inr (Or.inl rfl)

end DepositModel
/-! ### What the conversions do -/

namespace QVariant

/-- Digits, a point, and digits: as many in all as a double keeps apart. -/
structure Decimal where
  whole : QString
  fraction : QString
  digits : ∀ c ∈ whole ++ fraction, c.isDigit
  whole_ne_nil : whole ≠ []
  short : whole.length + fraction.length ≤ 15

def Decimal.text (d : Decimal) : QString := d.whole ++ qchar '.' :: d.fraction

def Decimal.value (d : Decimal) : ℚ :=
  digitsValue (d.whole ++ d.fraction) / 10 ^ d.fraction.length

namespace Conversions

/-- Plain decimals are read as numbers and in their order, texts with a comma are not; amounts and
names are not read as dates, nor names as numbers. -/
structure Documented (c : Conversions) : Prop where
  type_text : ∀ s, c.type (.text s) = .string
  type_dateText : ∀ t, c.type (.dateText t) = .string
  type_noTime : c.type (.dateTime none) = .dateTime
  toString_text : ∀ s, c.toString (.text s) = s
  toString_noTime : c.toString (.dateTime none) = []
  toDateTime_noTime : c.toDateTime (.dateTime none) = none
  toDateTime_name : ∀ s ∈ DepositModel.names, c.toDateTime (.text s) = none
  toDateTime_amount : ∀ places amount, c.toDateTime (.text (formatAmount places amount)) = none
  toDouble_name : ∀ s ∈ DepositModel.names, (c.toDouble (.text s)).1 = false
  toDouble_comma : ∀ s, qchar ',' ∈ s → (c.toDouble (.text s)).1 = false
  toDouble_decimal : ∀ d : Decimal, (c.toDouble (.text d.text)).1 = true
  toDouble_lt : ∀ d e : Decimal,
    (c.toDouble (.text d.text)).2 < (c.toDouble (.text e.text)).2 ↔ d.value < e.value

/-- The text of a time after the epoch, with a year of four digits, is read as a date. -/
structure ReadsDate (c : Conversions) (t : ℕ) : Prop where
  toDateTime : ∃ seconds, 0 < seconds ∧ c.toDateTime (.dateText t) = some seconds
  toDouble : (c.toDouble (.dateText t)).1 = false
  toString : ∃ d r, d.isDigit ∧ c.toString (.dateText t) = d :: r

end Conversions
end QVariant

namespace DepositListModel
open QVariant DepositModel

/-- The numbers of the units, which compare like the texts. -/
def units (s : QString) : List ℕ := s.map UInt16.toNat

theorem units_lt_iff (s t : QString) : units s < units t ↔ s < t := by
  induction s generalizing t with
  | nil => cases t <;> simp [units]
  | cons c s ih =>
    cases t with
    | nil => simp [units]
    | cons d t =>
      have htail : s.map UInt16.toNat < t.map UInt16.toNat ↔ s < t := ih t
      rw [units, units, List.map_cons, List.map_cons, List.cons_lt_cons_iff, List.cons_lt_cons_iff,
        htail, UInt16.lt_iff_toNat_lt, UInt16.toNat_inj]

section Cells

variable {c : Conversions}

/-- Without two dates or two numbers the texts are compared. -/
theorem lessThan_string {x y : QVariant} (hx : c.type x = .string)
    (hdate : c.toDateTime x = none ∨ c.toDateTime y = none)
    (hdouble : (c.toDouble x).1 = false ∨ (c.toDouble y).1 = false) :
    lessThan c x y = decide (c.toString x < c.toString y) := by
  have hdates : ((c.toDateTime x).isSome && (c.toDateTime y).isSome) = false := by
    rcases hdate with hdate | hdate
    · rw [hdate]
      rfl
    · rw [hdate, Bool.and_comm]
      rfl
  have hdoubles : ((c.toDouble x).1 && (c.toDouble y).1) = false := by
    rcases hdouble with hdouble | hdouble
    · rw [hdouble]
      rfl
    · rw [hdouble, Bool.and_comm]
      rfl
  unfold lessThan
  rw [hx]
  simp only [hdates, hdoubles, Bool.false_eq_true, if_false]

/-! ### The type and the unlock time -/

/-- What a cell of these columns shows; a date is given in seconds. -/
inductive Kind where
  | dash
  | date (seconds : ℤ)
  | deposit
  | investment
  | noTime
  deriving DecidableEq

def Kind.rank : Kind → ℕ
  | .dash => 0
  | .date _ => 1
  | .deposit => 2
  | .investment => 3
  | .noTime => 0

/-- How the comparison orders two such cells. -/
def Kind.less : Kind → Kind → Bool
  | .noTime, .date _ => true
  | .noTime, _ => false
  | _, .noTime => false
  | .date s, .date t => s < t
  | k, l => k.rank < l.rank

def Shows (c : Conversions) (x : QVariant) : Kind → Prop
  | .dash => x = .text (qstr "-")
  | .date seconds =>
    0 < seconds ∧ ∃ t, x = .dateText t ∧ c.ReadsDate t ∧ c.toDateTime x = some seconds
  | .deposit => x = .text (qstr "Deposit")
  | .investment => x = .text (qstr "Investment")
  | .noTime => x = .dateTime none

/-- A dash stands before the digit that a date begins with, and the names after it. -/
theorem name_lt_date {d : QChar} (hd : d.isDigit) (r : QString) :
    qstr "-" < d :: r ∧ ¬d :: r < qstr "-" ∧
    ∀ s ∈ [qstr "Deposit", qstr "Investment"], d :: r < s ∧ ¬s < d :: r := by
  simp only [QChar.isDigit, Bool.and_eq_true, decide_eq_true_eq, UInt16.le_iff_toNat_le] at hd
  have horder (a b : QChar) (hab : a.toNat < b.toNat) (s t : QString) :
      a :: s < b :: t ∧ ¬b :: t < a :: s := by
    rw [List.cons_lt_cons_iff, List.cons_lt_cons_iff, UInt16.lt_iff_toNat_lt,
      UInt16.lt_iff_toNat_lt, ← UInt16.toNat_inj, ← UInt16.toNat_inj]
    omega
  have hzero : (0x30 : UInt16).toNat = 0x30 := rfl
  have hnine : (0x39 : UInt16).toNat = 0x39 := rfl
  have hminus : (qchar '-').toNat = 0x2d := rfl
  have hd' : (qchar 'D').toNat = 0x44 := rfl
  have hi : (qchar 'I').toNat = 0x49 := rfl
  obtain ⟨hdash, hdash'⟩ := horder (qchar '-') d (by omega) [] r
  refine ⟨hdash, hdash', ?_⟩
  intro s hs
  rcases List.mem_pair.mp hs with rfl | rfl
  · exact horder d (qchar 'D') (by omega) r _
  · exact horder d (qchar 'I') (by omega) r _

theorem lessThan_name (hc : c.Documented) {s : QString} (hs : s ∈ names) (y : QVariant) :
    lessThan c (.text s) y = decide (s < c.toString y) := by
  rw [lessThan_string (hc.type_text s) (Or.inl (hc.toDateTime_name s hs))
    (Or.inl (hc.toDouble_name s hs)), hc.toString_text]

theorem lessThan_noTime (hc : c.Documented) (y : QVariant) :
    lessThan c (.dateTime none) y = decide (0 < (c.toDateTime y).getD 0) := by
  simp only [lessThan, hc.type_noTime, hc.toDateTime_noTime, dateTimeLess, Option.getD_none]

theorem lessThan_date (hc : c.Documented) {t : ℕ} (ht : c.ReadsDate t) {y : QVariant}
    (hy : c.toDateTime y = none) :
    lessThan c (.dateText t) y = decide (c.toString (.dateText t) < c.toString y) :=
  lessThan_string (hc.type_dateText t) (Or.inr hy) (Or.inl ht.toDouble)

theorem lessThan_dates (hc : c.Documented) {t : ℕ} {y : QVariant} {a b : ℤ}
    (hx : c.toDateTime (.dateText t) = some a) (hy : c.toDateTime y = some b) :
    lessThan c (.dateText t) y = decide (a < b) := by
  simp only [lessThan, hc.type_dateText, hx, hy, Option.isSome_some, Bool.and_self, if_true,
    dateTimeLess, Option.getD_some]

/-- Only a date is read as a date. -/
theorem toDateTime_kind (hc : c.Documented) {y : QVariant} {l : Kind} (hy : Shows c y l)
    (hl : ∀ s, l ≠ .date s) : c.toDateTime y = none := by
  cases l with
  | dash => rw [hy]; exact hc.toDateTime_name _ (by decide)
  | date s => exact absurd rfl (hl s)
  | deposit => rw [hy]; exact hc.toDateTime_name _ (by decide)
  | investment => rw [hy]; exact hc.toDateTime_name _ (by decide)
  | noTime => rw [hy]; exact hc.toDateTime_noTime

/-- A name on the left: it stands before the later names, and the dash also before a date. -/
theorem lessThan_name_kind (hc : c.Documented) {k l : Kind} {s : QString} {y : QVariant}
    (hs : (k, s) ∈ [(Kind.dash, qstr "-"), (Kind.deposit, qstr "Deposit"),
      (Kind.investment, qstr "Investment")]) (hy : Shows c y l) :
    lessThan c (.text s) y = k.less l := by
  have hname : s ∈ names := by
    simp only [List.mem_cons, Prod.mk.injEq, List.not_mem_nil, or_false] at hs
    rcases hs with ⟨-, rfl⟩ | ⟨-, rfl⟩ | ⟨-, rfl⟩ <;> decide
  rw [lessThan_name hc hname]
  cases l with
  | date b =>
    obtain ⟨-, t, rfl, ht, -⟩ := hy
    obtain ⟨d, r, hd, htext⟩ := ht.toString
    obtain ⟨hdash, -, hnames⟩ := name_lt_date hd r
    rw [htext]
    simp only [List.mem_cons, Prod.mk.injEq, List.not_mem_nil, or_false] at hs
    rcases hs with ⟨rfl, rfl⟩ | ⟨rfl, rfl⟩ | ⟨rfl, rfl⟩
    · exact decide_eq_true hdash
    · exact decide_eq_false (hnames _ (by decide)).2
    · exact decide_eq_false (hnames _ (by decide)).2
  | noTime =>
    rw [hy, hc.toString_noTime]
    simp only [List.mem_cons, Prod.mk.injEq, List.not_mem_nil, or_false] at hs
    rcases hs with ⟨rfl, rfl⟩ | ⟨rfl, rfl⟩ | ⟨rfl, rfl⟩ <;> decide
  | dash | deposit | investment =>
    rw [hy, hc.toString_text]
    simp only [List.mem_cons, Prod.mk.injEq, List.not_mem_nil, or_false] at hs
    rcases hs with ⟨rfl, rfl⟩ | ⟨rfl, rfl⟩ | ⟨rfl, rfl⟩ <;> decide

theorem lessThan_noTime_kind (hc : c.Documented) {l : Kind} {y : QVariant} (hy : Shows c y l) :
    lessThan c (.dateTime none) y = Kind.noTime.less l := by
  rw [lessThan_noTime hc]
  cases l with
  | date b =>
    obtain ⟨hpos, t, -, -, hb⟩ := hy
    rw [hb]
    exact decide_eq_true hpos
  | dash | deposit | investment | noTime =>
    rw [toDateTime_kind hc hy nofun]
    rfl

theorem lessThan_date_kind (hc : c.Documented) {t : ℕ} {a : ℤ} (ht : c.ReadsDate t)
    (ha : c.toDateTime (.dateText t) = some a) {l : Kind} {y : QVariant} (hy : Shows c y l) :
    lessThan c (.dateText t) y = (Kind.date a).less l := by
  obtain ⟨d, r, hd, htext⟩ := ht.toString
  obtain ⟨-, hdash, hnames⟩ := name_lt_date hd r
  have hstring (hl : ∀ s, l ≠ .date s) :
      lessThan c (.dateText t) y = decide (d :: r < c.toString y) := by
    rw [lessThan_date hc ht (toDateTime_kind hc hy hl), htext]
  cases l with
  | date b =>
    obtain ⟨-, u, rfl, -, hb⟩ := hy
    exact lessThan_dates hc ha hb
  | dash =>
    rw [hstring nofun, hy, hc.toString_text]
    exact decide_eq_false hdash
  | deposit | investment =>
    rw [hstring nofun, hy, hc.toString_text]
    exact decide_eq_true (hnames _ (by decide)).1
  | noTime =>
    rw [hstring nofun, hy, hc.toString_noTime]
    exact decide_eq_false (List.not_lt_nil _)

/-- On cells of these columns the comparison is that of what they show. -/
theorem lessThan_eq_less (hc : c.Documented) {x y : QVariant} {k l : Kind} (hx : Shows c x k)
    (hy : Shows c y l) : lessThan c x y = k.less l := by
  cases k with
  | dash | deposit | investment =>
    rw [hx]
    exact lessThan_name_kind hc (by simp) hy
  | noTime =>
    rw [hx]
    exact lessThan_noTime_kind hc hy
  | date a =>
    obtain ⟨-, t, rfl, ht, ha⟩ := hx
    exact lessThan_date_kind hc ht ha hy

end Cells

namespace Kind

/-- Where some row has no time, rows with a name all have that name or no time either. -/
def Settled {ι : Type} (kind : ι → Kind) : Prop :=
  ∀ i j k, kind i = .noTime → (kind j = .deposit ∨ kind j = .investment) →
    kind k = kind j ∨ kind k = .noTime

def seconds : Kind → ℤ
  | .date s => s
  | _ => 0

/-- The order of cells that all have a time or a text. -/
def timedKey (k : Kind) : ℕ ×ₗ ℤ := toLex (k.rank, k.seconds)

/-- The order of cells beside one without a time: the dates come after all others. -/
def untimedKey : Kind → ℕ ×ₗ ℤ
  | .date s => toLex (1, s)
  | _ => toLex (0, 0)

theorem less_iff_timedKey {k l : Kind} (hk : k ≠ .noTime) (hl : l ≠ .noTime) :
    k.less l = true ↔ timedKey k < timedKey l := by
  cases k <;> cases l <;>
    simp [less, timedKey, rank, seconds, Prod.Lex.toLex_lt_toLex] at hk hl ⊢

theorem less_iff_untimedKey {k l : Kind} (hk : k = .dash ∨ (∃ s, k = .date s) ∨ k = .noTime)
    (hl : l = .dash ∨ (∃ s, l = .date s) ∨ l = .noTime) :
    k.less l = true ↔ untimedKey k < untimedKey l := by
  rcases hk with rfl | ⟨s, rfl⟩ | rfl <;> rcases hl with rfl | ⟨t, rfl⟩ | rfl <;>
    simp [less, untimedKey, rank, Prod.Lex.toLex_lt_toLex]

variable {ι : Type} {kind : ι → Kind}

theorem isStrictWeakOrder_of_settled (h : Settled kind) :
    IsStrictWeakOrder ι fun i j => (kind i).less (kind j) = true := by
  by_cases hsome : ∃ i, kind i = .noTime
  · obtain ⟨i, hi⟩ := hsome
    suffices h : Compares (fun i j : ι => (kind i).less (kind j)) fun i => untimedKey (kind i) from
      h.isStrictWeakOrder
    by_cases hname : ∃ j, kind j = .deposit ∨ kind j = .investment
    · -- all cells are the one name or have no time, and none is below another
      obtain ⟨j, hj⟩ := hname
      intro a b
      rcases h i j a hi hj with ha | ha <;> rcases h i j b hi hj with hb | hb <;>
        rcases hj with hj | hj <;> simp [ha, hb, hj, less, untimedKey, rank]
    · have hplain (a : ι) : kind a = .dash ∨ (∃ s, kind a = .date s) ∨ kind a = .noTime := by
        cases ha : kind a with
        | dash => exact Or.inl rfl
        | date s => exact Or.inr (Or.inl ⟨s, rfl⟩)
        | deposit => exact absurd ⟨a, Or.inl ha⟩ hname
        | investment => exact absurd ⟨a, Or.inr ha⟩ hname
        | noTime => exact Or.inr (Or.inr rfl)
      exact fun a b => less_iff_untimedKey (hplain a) (hplain b)
  · have htimed (a : ι) : kind a ≠ .noTime := fun ha => hsome ⟨a, ha⟩
    have h : Compares (fun i j : ι => (kind i).less (kind j)) fun i => timedKey (kind i) :=
      fun a b => less_iff_timedKey (htimed a) (htimed b)
    exact h.isStrictWeakOrder

/-- A name and an invalid time are not ordered, so a third cell is ordered with both alike. -/
theorem settled_of_isStrictWeakOrder
    (h : IsStrictWeakOrder ι fun i j => (kind i).less (kind j) = true) : Settled kind := by
  intro i j k hi hj
  by_contra hk
  obtain ⟨hne, hnoTime⟩ := not_or.mp hk
  have hij : ¬(kind i).less (kind j) = true ∧ ¬(kind j).less (kind i) = true := by
    rcases hj with hj | hj <;> rw [hi, hj] <;> decide
  cases hthird : kind k with
  | noTime => exact hnoTime hthird
  | date s =>
    have hik : (kind i).less (kind k) = true := by rw [hi, hthird]; rfl
    have hkj : (kind k).less (kind j) = true := by
      rcases hj with hj | hj <;> rw [hj, hthird] <;> rfl
    exact hij.1 (h.trans i k j hik hkj)
  | dash | deposit | investment =>
    have hki : ¬(kind k).less (kind i) = true ∧ ¬(kind i).less (kind k) = true := by
      rw [hi, hthird]
      decide
    have hkj := h.incomp_trans k i j hki hij
    rcases hj with hj | hj <;> rw [hj, hthird] at hkj hne <;> revert hkj hne <;> decide

end Kind

/-! ### The amount -/

section Amount

variable {c : Conversions} {places a b : ℕ}

/-- The text of an amount below a thousand units is a plain decimal. -/
theorem exists_decimal (hplaces : places ≤ 12) (t : AmountText places a)
    (h : a / 10 ^ places < 1000) :
    ∃ d : Decimal, d.text = t.text ∧ d.value = (a : ℚ) / 10 ^ places := by
  obtain ⟨-, hcount⟩ := t.length_groups
  have hlog : Nat.log 10 (a / 10 ^ places) < 3 :=
    Nat.log_lt_of_lt_pow' (by decide) (h.trans_eq (by decide))
  have hpos := List.length_pos_of_ne_nil t.groups.first_ne_nil
  have hrest : t.rest = [] := by
    apply List.eq_nil_of_length_eq_zero
    unfold digitCount at hcount
    omega
  have hwhole : t.whole = t.first := by
    rw [AmountText.whole, hrest, List.flatten_nil, List.append_nil]
  refine ⟨⟨t.whole, t.fraction, t.digits, t.whole_ne_nil, ?_⟩, ?_, ?_⟩
  · have hfirst := t.groups.first_length
    have hfraction := t.max_fraction
    rw [hwhole]
    omega
  · show t.whole ++ qchar '.' :: t.fraction = t.text
    rw [AmountText.text, Grouping.joined, hwhole, hrest, List.flatMap_nil, List.append_nil]
  · have hpow : (10 : ℚ) ^ places = 10 ^ t.fraction.length * 10 ^ (places - t.fraction.length) := by
      rw [← pow_add, Nat.add_sub_cancel' t.max_fraction]
    have hvalue : (digitsValue (t.whole ++ t.fraction) : ℚ) * 10 ^ (places - t.fraction.length) =
        a := by exact_mod_cast t.value
    rw [Decimal.value, ← hvalue, hpow]
    field_simp

/-- From a thousand units on, the text of an amount has a comma. -/
theorem comma_mem_text (t : AmountText places a) (h : 1000 ≤ a / 10 ^ places) :
    qchar ',' ∈ t.text := by
  obtain ⟨-, hcount⟩ := t.length_groups
  have hlog : 3 ≤ Nat.log 10 (a / 10 ^ places) :=
    Nat.le_log_of_pow_le (by decide) (h.trans_eq' (by decide))
  have hmax := t.groups.first_length
  obtain ⟨g, rest, hrest⟩ : ∃ g rest, t.rest = g :: rest := by
    apply List.exists_cons_of_ne_nil
    intro hnil
    rw [hnil, digitCount, List.length_nil] at hcount
    omega
  rw [AmountText.text, Grouping.joined, hrest, List.flatMap_cons]
  simp

theorem lessThan_decimals (hc : c.Documented) (hplaces : places ≤ 12) {x y : UInt64}
    (hx : x.toNat / 10 ^ places < 1000) (hy : y.toNat / 10 ^ places < 1000) :
    lessThan c (.text (formatAmount places x)) (.text (formatAmount places y)) = true ↔
      x.toNat < y.toNat := by
  have hxdate := hc.toDateTime_amount places x
  obtain ⟨s, hs⟩ := formatAmount_text places x
  obtain ⟨t, ht⟩ := formatAmount_text places y
  obtain ⟨d, hd, hdvalue⟩ := exists_decimal hplaces s hx
  obtain ⟨e, he, hevalue⟩ := exists_decimal hplaces t hy
  rw [hs, ← hd] at hxdate ⊢
  rw [ht, ← he]
  simp only [lessThan, hc.type_text, hxdate, hc.toDouble_decimal, Option.isSome_none,
    Bool.false_and, Bool.and_self, Bool.false_eq_true, if_false, if_true, decide_eq_true_eq,
    hc.toDouble_lt, hdvalue, hevalue]
  rw [div_lt_div_iff_of_pos_right (by positivity)]
  exact Nat.cast_lt

theorem lessThan_grouped (hc : c.Documented) {x y : UInt64}
    (h : 1000 ≤ x.toNat / 10 ^ places ∨ 1000 ≤ y.toNat / 10 ^ places) :
    lessThan c (.text (formatAmount places x)) (.text (formatAmount places y)) = true ↔
      formatAmount places x < formatAmount places y := by
  obtain ⟨s, hs⟩ := formatAmount_text places x
  obtain ⟨t, ht⟩ := formatAmount_text places y
  have hcomma : (c.toDouble (.text (formatAmount places x))).1 = false ∨
      (c.toDouble (.text (formatAmount places y))).1 = false := by
    rw [hs, ht]
    exact h.imp (fun h => hc.toDouble_comma _ (comma_mem_text s h))
      (fun h => hc.toDouble_comma _ (comma_mem_text t h))
  rw [lessThan_string (hc.type_text _) (Or.inl (hc.toDateTime_amount places x)) hcomma,
    hc.toString_text, hc.toString_text, decide_eq_true_eq]

/-- The second amount, the larger one, is below a thousand units, or the whole parts of both stand in
text order. -/
def AmountsSettled (places a b : ℕ) : Prop :=
  b / 10 ^ places < 1000 ∨ InTextOrder (a / 10 ^ places) (b / 10 ^ places)

theorem lessThan_amount_iff (hc : c.Documented) (hplaces : places ≤ 12) {x y : UInt64}
    (h : x.toNat < y.toNat) :
    lessThan c (.text (formatAmount places x)) (.text (formatAmount places y)) = true ↔
      AmountsSettled places x.toNat y.toNat := by
  unfold AmountsSettled
  rcases Nat.lt_or_ge (y.toNat / 10 ^ places) 1000 with hy | hy
  · have hx : x.toNat / 10 ^ places < 1000 := (Nat.div_le_div_right h.le).trans_lt hy
    exact iff_of_true ((lessThan_decimals hc hplaces hx hy).mpr h) (Or.inl hy)
  · obtain ⟨s, hs⟩ := formatAmount_text places x
    obtain ⟨t, ht⟩ := formatAmount_text places y
    rw [lessThan_grouped hc (Or.inr hy), or_iff_right (Nat.not_lt.mpr hy), hs, ht,
      s.text_lt_iff t h]

/-- The comparison never puts the larger of two amounts first when it puts the smaller one first. -/
theorem not_lessThan_amount (hc : c.Documented) (hplaces : places ≤ 12) {x y : UInt64}
    (h : x.toNat ≤ y.toNat) (hsettled : x.toNat < y.toNat → AmountsSettled places x.toNat y.toNat) :
    ¬lessThan c (.text (formatAmount places y)) (.text (formatAmount places x)) = true := by
  rcases Nat.lt_or_ge (y.toNat / 10 ^ places) 1000 with hy | hy
  · have hx : x.toNat / 10 ^ places < 1000 := (Nat.div_le_div_right h).trans_lt hy
    rw [lessThan_decimals hc hplaces hy hx]
    omega
  · rw [lessThan_grouped hc (Or.inl hy), ← units_lt_iff]
    rcases h.eq_or_lt with heq | hlt
    · rw [UInt64.toNat_inj.mp heq]
      exact lt_irrefl _
    · have hless := (lessThan_amount_iff hc hplaces hlt).mpr (hsettled hlt)
      rw [lessThan_grouped hc (Or.inr hy), ← units_lt_iff] at hless
      exact lt_asymm hless

end Amount

/-! ### The rows of a list -/

/-- DepositListModel::lessThan of two rows in a column; a proxy in between only reorders them. -/
def rowLess (c : Conversions) (v : View) (column : Column) (i j : Fin v.model.rowCount) : Bool :=
  lessThan c (v.cell i column) (v.cell j column)

/-- Every accepted column has a strict weak order, and the amounts have theirs. -/
structure RowsOrdered (c : Conversions) (v : View) : Prop where
  weak : ∀ column, filterAcceptsColumn column.toInt →
    IsStrictWeakOrder (Fin v.model.rowCount) fun i j => rowLess c v column i j = true
  amount : ∀ i j, rowLess c v .amount i j = true ↔ v.amount i < v.amount j

/-- When a row shows no time in its type column, the rows with a name there have all one name, and
no other row shows anything. -/
def TypesSettled (v : View) : Prop :=
  ∀ i j k : Fin v.model.rowCount, v.cell i .type = .dateTime none →
    (v.cell j .type = .text (qstr "Deposit") ∨ v.cell j .type = .text (qstr "Investment")) →
    v.cell k .type = v.cell j .type ∨ v.cell k .type = .dateTime none

section Rows

variable {c : Conversions} {v : View}

theorem accepts_iff (column : Column) : filterAcceptsColumn column.toInt = true ↔
    column = .state ∨ column = .amount ∨ column = .type ∨ column = .unlockTime := by
  cases column <;> decide

theorem state_isStrictWeakOrder (hc : c.Documented) :
    IsStrictWeakOrder (Fin v.model.rowCount) fun i j => rowLess c v .state i j = true := by
  have hcell (i : Fin v.model.rowCount) := cell_state (v := v) i.isLt
  choose name hname hshown using hcell
  suffices h : Compares (rowLess c v .state) fun i => units (name i) from h.isStrictWeakOrder
  intro i j
  rw [rowLess, hshown i, hshown j, lessThan_name hc (hname i), hc.toString_text, units_lt_iff,
    decide_eq_true_eq]

theorem amount_iff (hc : c.Documented) (hplaces : v.env.decimalPlaces ≤ 12)
    (hamounts : ∀ row < v.model.rowCount, v.amount row < 2 ^ 64) :
    (∀ i j, rowLess c v .amount i j = true ↔ v.amount i < v.amount j) ↔
      ∀ i j : Fin v.model.rowCount, v.amount i < v.amount j →
        AmountsSettled v.env.decimalPlaces (v.amount i) (v.amount j) := by
  have hnat (i : Fin v.model.rowCount) : (UInt64.ofNat (v.amount i)).toNat = v.amount i :=
    UInt64.toNat_ofNat_of_lt (hamounts i i.isLt)
  have hless (i j : Fin v.model.rowCount) : rowLess c v .amount i j =
      lessThan c (.text (formatAmount v.env.decimalPlaces (UInt64.ofNat (v.amount i))))
        (.text (formatAmount v.env.decimalPlaces (UInt64.ofNat (v.amount j)))) := by
    rw [rowLess, cell_amount i.isLt (hamounts i i.isLt), cell_amount j.isLt (hamounts j j.isLt)]
    rfl
  have hsmaller (i j : Fin v.model.rowCount) (h : v.amount i < v.amount j) :
      rowLess c v .amount i j = true ↔
        AmountsSettled v.env.decimalPlaces (v.amount i) (v.amount j) := by
    rw [hless, lessThan_amount_iff hc hplaces (by rwa [hnat, hnat]), hnat, hnat]
  have hlarger (i j : Fin v.model.rowCount) (h : v.amount j ≤ v.amount i)
      (hsettled : v.amount j < v.amount i →
        AmountsSettled v.env.decimalPlaces (v.amount j) (v.amount i)) :
      ¬rowLess c v .amount i j = true := by
    rw [hless]
    exact not_lessThan_amount hc hplaces (by rwa [hnat, hnat]) (by rwa [hnat, hnat])
  constructor
  · exact fun h i j hij => (hsmaller i j hij).mp ((h i j).mpr hij)
  · intro h i j
    rcases Nat.lt_or_ge (v.amount i) (v.amount j) with hlt | hge
    · exact iff_of_true ((hsmaller i j hlt).mpr (h i j hlt)) hlt
    · exact iff_of_false (hlarger i j hge (h j i)) (Nat.not_lt.mpr hge)

theorem exists_unlockTime_kind (hdates : ∀ row < v.model.rowCount, ∀ t,
    v.cell row .unlockTime = .dateText t → c.ReadsDate t) (i : Fin v.model.rowCount) :
    ∃ k, Shows c (v.cell i .unlockTime) k ∧ k ≠ .deposit ∧ k ≠ .investment := by
  rcases cell_unlockTime i.isLt with hcell | hcell | ⟨t, hcell⟩
  · exact ⟨.dash, hcell, by decide, by decide⟩
  · exact ⟨.noTime, hcell, by decide, by decide⟩
  · have ht := hdates i i.isLt t hcell
    obtain ⟨seconds, hpos, hseconds⟩ := ht.toDateTime
    exact ⟨.date seconds, ⟨hpos, t, hcell, ht, hcell ▸ hseconds⟩, nofun, nofun⟩

theorem exists_type_kind (hdates : ∀ row < v.model.rowCount, ∀ t,
    v.cell row .unlockTime = .dateText t → c.ReadsDate t) (i : Fin v.model.rowCount) :
    ∃ k, Shows c (v.cell i .type) k := by
  rcases cell_type i.isLt with hcell | hcell | hcell
  · exact ⟨.investment, hcell⟩
  · exact ⟨.deposit, hcell⟩
  · obtain ⟨k, hk, -⟩ := exists_unlockTime_kind hdates i
    exact ⟨k, hcell ▸ hk⟩

/-- A cell shows one thing only. -/
theorem Shows.eq_iff {x : QVariant} {k : Kind} (h : Shows c x k) :
    (k = .deposit ↔ x = .text (qstr "Deposit")) ∧
    (k = .investment ↔ x = .text (qstr "Investment")) ∧ (k = .noTime ↔ x = .dateTime none) := by
  cases k with
  | date s =>
    obtain ⟨-, t, rfl, -⟩ := h
    simp
  | dash =>
    rw [show x = .text (qstr "-") from h]
    decide
  | deposit =>
    rw [show x = .text (qstr "Deposit") from h]
    decide
  | investment =>
    rw [show x = .text (qstr "Investment") from h]
    decide
  | noTime =>
    rw [show x = .dateTime none from h]
    decide

theorem unlockTime_isStrictWeakOrder (hc : c.Documented) (hdates : ∀ row < v.model.rowCount, ∀ t,
    v.cell row .unlockTime = .dateText t → c.ReadsDate t) :
    IsStrictWeakOrder (Fin v.model.rowCount) fun i j => rowLess c v .unlockTime i j = true := by
  have hkinds := exists_unlockTime_kind hdates
  choose kind hkind hdeposit hinvestment using hkinds
  have hless (i j : Fin v.model.rowCount) : rowLess c v .unlockTime i j = (kind i).less (kind j) :=
    lessThan_eq_less hc (hkind i) (hkind j)
  simp only [hless]
  exact Kind.isStrictWeakOrder_of_settled fun i j k _ hj =>
    (hj.elim (hdeposit j) (hinvestment j)).elim

theorem type_isStrictWeakOrder_iff (hc : c.Documented) (hdates : ∀ row < v.model.rowCount, ∀ t,
    v.cell row .unlockTime = .dateText t → c.ReadsDate t) :
    (IsStrictWeakOrder (Fin v.model.rowCount) fun i j => rowLess c v .type i j = true) ↔
      TypesSettled v := by
  have hkinds := exists_type_kind hdates
  choose kind hkind using hkinds
  have hless (i j : Fin v.model.rowCount) : rowLess c v .type i j = (kind i).less (kind j) :=
    lessThan_eq_less hc (hkind i) (hkind j)
  have hsettled : Kind.Settled kind ↔ TypesSettled v := by
    unfold Kind.Settled TypesSettled
    refine forall_congr' fun i => forall_congr' fun j => forall_congr' fun k => ?_
    rw [(hkind i).eq_iff.2.2, (hkind j).eq_iff.1, (hkind j).eq_iff.2.1, (hkind k).eq_iff.2.2]
    refine imp_congr_right fun _ => imp_congr_right fun hj => or_congr_left ?_
    rcases hj with hj | hj
    · rw [hj, (hkind j).eq_iff.1.mpr hj, (hkind k).eq_iff.1]
    · rw [hj, (hkind j).eq_iff.2.1.mpr hj, (hkind k).eq_iff.2.1]
  simp only [hless]
  rw [← hsettled]
  exact ⟨Kind.settled_of_isStrictWeakOrder, Kind.isStrictWeakOrder_of_settled⟩

/-- The rows of a list are ordered as they should be exactly when every amount from a thousand units
on stands in text order with the smaller ones, and the types are settled. -/
theorem rowsOrdered_iff (hc : c.Documented) (hplaces : v.env.decimalPlaces ≤ 12)
    (hamounts : ∀ row < v.model.rowCount, v.amount row < 2 ^ 64)
    (hdates : ∀ row < v.model.rowCount, ∀ t,
      v.cell row .unlockTime = .dateText t → c.ReadsDate t) :
    RowsOrdered c v ↔
      (∀ i j : Fin v.model.rowCount, v.amount i < v.amount j →
        AmountsSettled v.env.decimalPlaces (v.amount i) (v.amount j)) ∧ TypesSettled v := by
  rw [← amount_iff hc hplaces hamounts, ← type_isStrictWeakOrder_iff hc hdates]
  constructor
  · exact fun h => ⟨h.amount, h.weak .type rfl⟩
  · rintro ⟨hamount, htype⟩
    refine ⟨fun column hcolumn => ?_, hamount⟩
    rcases (accepts_iff column).mp hcolumn with rfl | rfl | rfl | rfl
    · exact state_isStrictWeakOrder hc
    · have h : Compares (rowLess c v .amount) fun i => v.amount i := hamount
      exact h.isStrictWeakOrder
    · exact htype
    · exact unlockTime_isStrictWeakOrder hc hdates

end Rows

/-- The number that digits with a point among them stand for. -/
def plainDecimal (s : QString) : Option ℚ :=
  match s.splitOn (qchar '.') with
  | [whole, fraction] =>
    if whole ≠ [] ∧ (whole ++ fraction).all QChar.isDigit then
      some (digitsValue (whole ++ fraction) / 10 ^ fraction.length)
    else none
  | _ => none

def plainInteger : QVariant → ℤ
  | .int n => n
  | _ => 0

/-- Conversions that read plain decimals and no dates. -/
def plainConversions : Conversions where
  type
    | .text _ | .dateText _ | .utf8 _ => .string
    | .dateTime _ => .dateTime
    | .int _ => .uLongLong
    | _ => .other
  toDateTime
    | .dateTime seconds => seconds.map Nat.cast
    | _ => none
  toDouble
    | .text s => ((plainDecimal s).isSome, (plainDecimal s).getD 0)
    | .int n => (true, n)
    | _ => (false, 0)
  toInt := plainInteger
  toLongLong := plainInteger
  toULongLong := plainInteger
  toString
    | .text s => s
    | _ => []

theorem plainDecimal_text (d : Decimal) : plainDecimal d.text = some d.value := by
  have hpoint (l : QString) (hl : ∀ c ∈ l, c.isDigit) : qchar '.' ∉ l :=
    fun hmem => QChar.ne_of_isDigit (hl _ hmem) (by decide) rfl
  have hwhole := hpoint d.whole fun c hc => d.digits c (List.mem_append_left _ hc)
  have hfraction := hpoint d.fraction fun c hc => d.digits c (List.mem_append_right _ hc)
  have hsplit : d.text.splitOn (qchar '.') = [d.whole, d.fraction] := by
    rw [Decimal.text, List.splitOn_append_cons_self_of_not_mem hwhole,
      List.splitOn_eq_singleton hfraction]
  unfold plainDecimal
  rw [hsplit]
  exact if_pos ⟨d.whole_ne_nil, List.all_eq_true.mpr d.digits⟩

theorem plainDecimal_comma {s : QString} (h : qchar ',' ∈ s) : plainDecimal s = none := by
  unfold plainDecimal
  split
  · rename_i whole fraction hsplit
    refine if_neg fun hdigits => ?_
    have hjoin : s = whole ++ qchar '.' :: fraction := by
      have hsame : [qchar '.'].intercalate (s.splitOn (qchar '.')) = s :=
        List.intercalate_splitOn (qchar '.')
      rw [hsplit] at hsame
      rw [← hsame]
      simp [List.intercalate]
    rw [hjoin, List.mem_append, List.mem_cons] at h
    have hdigit (hmem : qchar ',' ∈ whole ++ fraction) : False :=
      absurd (List.all_eq_true.mp hdigits.2 _ hmem) (by decide)
    rcases h with hmem | hmem | hmem
    · exact hdigit (List.mem_append_left _ hmem)
    · exact absurd hmem (by decide)
    · exact hdigit (List.mem_append_right _ hmem)
  · rfl

theorem plainConversions_documented : plainConversions.Documented where
  type_text _ := rfl
  type_dateText _ := rfl
  type_noTime := rfl
  toString_text _ := rfl
  toString_noTime := rfl
  toDateTime_noTime := rfl
  toDateTime_name _ _ := rfl
  toDateTime_amount _ _ := rfl
  toDouble_name := by decide
  toDouble_comma s hs := by
    show (plainDecimal s).isSome = false
    rw [plainDecimal_comma hs]
    rfl
  toDouble_decimal d := by
    show (plainDecimal d.text).isSome = true
    rw [plainDecimal_text]
    rfl
  toDouble_lt d e := by
    show (plainDecimal d.text).getD 0 < (plainDecimal e.text).getD 0 ↔ _
    rw [plainDecimal_text, plainDecimal_text]
    rfl

/-- Two unlocked deposits, of two and of a thousand units. -/
def twoDeposits : View where
  env := Environment.offline
  wallet := some ⟨[], [⟨2000000, 64800, false, 0, WALLET_INVALID_TRANSACTION_ID⟩,
    ⟨1000000000, 64800, false, 0, WALLET_INVALID_TRANSACTION_ID⟩], Wallet.none_lt, Wallet.two_lt⟩
  transactions := TransactionsModel.empty
  model := ⟨2, []⟩

theorem rowsOrdered_iff_twoDeposits : RowsOrdered plainConversions twoDeposits ↔
    (∀ i j : Fin twoDeposits.model.rowCount, twoDeposits.amount i < twoDeposits.amount j →
      AmountsSettled twoDeposits.env.decimalPlaces (twoDeposits.amount i) (twoDeposits.amount j)) ∧
    TypesSettled twoDeposits := by
  refine rowsOrdered_iff plainConversions_documented (by decide) (by decide) ?_
  intro row hrow t ht
  have hnoTime : ∀ row < twoDeposits.model.rowCount,
      twoDeposits.cell row .unlockTime = .dateTime none := by decide +kernel
  rw [hnoTime row hrow] at ht
  cases ht

/-- A thousand units stand below two units. -/
theorem rowsOrdered_fails : plainConversions.Documented ∧
    ¬RowsOrdered plainConversions twoDeposits := by
  refine ⟨plainConversions_documented, fun h => ?_⟩
  have hless : rowLess plainConversions twoDeposits .amount (1 : Fin 2) (0 : Fin 2) = true := by
    decide +kernel
  have hamount : ¬twoDeposits.amount 1 < twoDeposits.amount 0 := by decide +kernel
  exact hamount ((h.amount _ _).mp hless)

end DepositListModel
end ConcealDesktop
