import ConcealDesktop.Library.StableSort
import ConcealDesktop.MessageCells

/-! The tables sorted by date. Both proxies compare the dates of two rows, and the rows themselves
when neither has a date; the recent transactions are the first 25 rows of the sorted table. -/
namespace ConcealDesktop
open StableSort

namespace SortedModel

/-- QVariant::toDateTime of the values that the date role has; no value is an invalid time. -/
def toDateTime : QVariant → Option ℕ
  | .dateTime seconds => seconds
  | _ => none

/-- The comparison of both proxies, with the date role of their source model. -/
def lessThan (date : QModelIndex → QVariant) (left right : QModelIndex) : Bool :=
  let leftDate := toDateTime (date left)
  let rightDate := toDateTime (date right)
  if rightDate = none ∧ leftDate = none then left.row < right.row
  else if leftDate = none then false
  else if rightDate = none then true
  else leftDate.getD 0 < rightDate.getD 0

/-- QSortFilterProxyModel::sort in descending order: the source rows sorted stably, with the
arguments of the comparison swapped. -/
def sortDescending (lessThan : QModelIndex → QModelIndex → Bool) (column : ℤ) (rowCount : ℕ) :
    List ℕ :=
  stableSort (fun a b => lessThan ⟨b, column⟩ ⟨a, column⟩) (List.range rowCount)

end SortedModel

namespace SortedTransactionsModel

variable (env : Environment) (wallet : Option Wallet) (m : TransactionsModel)

def lessThan : QModelIndex → QModelIndex → Bool :=
  SortedModel.lessThan fun index => m.data env wallet index .date

def rows : List ℕ :=
  SortedModel.sortDescending (lessThan env wallet m) TransactionsModel.Column.date.toInt m.rowCount

end SortedTransactionsModel

namespace SortedMessagesModel

variable (fromStdString : StdString → QString) (env : Environment) (wallet : Option Wallet)
  (m : MessagesModel)

def lessThan : QModelIndex → QModelIndex → Bool :=
  SortedModel.lessThan fun index => m.data fromStdString env wallet index .date

def rows : List ℕ :=
  SortedModel.sortDescending (lessThan fromStdString env wallet m) MessagesModel.Column.date.toInt
    m.rowCount

end SortedMessagesModel

namespace RecentTransactionsModel

def filterAcceptsRow (sourceRow : ℤ) : Bool := sourceRow < 25

/-- The rows of the sorted table that the filter accepts, in the order of that table. -/
def rows (env : Environment) (wallet : Option Wallet) (m : TransactionsModel) : List ℕ :=
  ((SortedTransactionsModel.rows env wallet m).zipIdx.filter fun p => filterAcceptsRow p.2).map
    Prod.fst

end RecentTransactionsModel

namespace SortedModel

/-! ### The order -/

/-- Dated rows by date, and above them the undated ones by row. -/
def sortKey (date : Option ℕ) (row : ℤ) : ℕ ×ₗ ℤ :=
  match date with
  | some seconds => toLex (0, seconds)
  | none => toLex (1, row)

theorem sortKey_lt_iff (date date' : Option ℕ) (row row' : ℤ) :
    sortKey date row < sortKey date' row' ↔
      match date, date' with
      | some d, some e => d < e
      | some _, none => True
      | none, some _ => False
      | none, none => row < row' := by
  cases date <;> cases date' <;> simp [sortKey, Prod.Lex.toLex_lt_toLex]

theorem lessThan_compares (date : QModelIndex → QVariant) :
    Compares (lessThan date) fun index => sortKey (toDateTime (date index)) index.row := by
  intro left right
  rw [sortKey_lt_iff, lessThan]
  cases hleft : toDateTime (date left) <;> cases hright : toDateTime (date right) <;> simp

/-- Rows of the same table: dated, the first one newer, or as old and above the second. -/
def Newer (date : ℕ → Option ℕ) (r s : ℕ) : Prop :=
  ∃ d e, date r = some d ∧ date s = some e ∧ (e < d ∨ e = d ∧ r < s)

def undatedRows (date : ℕ → Option ℕ) (rowCount : ℕ) : List ℕ :=
  (List.range rowCount).filter fun r => (date r).isNone

def datedRows (date : ℕ → Option ℕ) (rowCount : ℕ) : List ℕ :=
  (List.range rowCount).filter fun r => (date r).isSome

/-- The undated rows from the last one up, followed by the dated rows from the newest one down. -/
structure UndatedThenNewest (date : ℕ → Option ℕ) (rowCount : ℕ) (rows dated : List ℕ) :
    Prop where
  split : rows = (undatedRows date rowCount).reverse ++ dated
  perm : dated.Perm (datedRows date rowCount)
  newest : dated.Pairwise (Newer date)

/-- The date of a row in the column that the table is sorted by. -/
def rowDate (date : QModelIndex → QVariant) (column : ℤ) (row : ℕ) : Option ℕ :=
  toDateTime (date ⟨row, column⟩)

def descendingKey (date : ℕ → Option ℕ) (row : ℕ) : (ℕ ×ₗ ℤ)ᵒᵈ :=
  OrderDual.toDual (sortKey (date row) row)

theorem descending_compares (date : QModelIndex → QVariant) (column : ℤ) :
    Compares (fun a b : ℕ => lessThan date ⟨b, column⟩ ⟨a, column⟩)
      (descendingKey (rowDate date column)) := fun a b =>
  lessThan_compares date ⟨b, column⟩ ⟨a, column⟩

section Rows

variable {date : ℕ → Option ℕ} {rowCount : ℕ}

theorem pair_sublist_range {r s : ℕ} (h : [r, s].Sublist (List.range rowCount)) : r < s :=
  List.pairwise_iff_forall_sublist.mp List.pairwise_lt_range h

theorem datedRows_sublist : (datedRows date rowCount).Sublist (List.range rowCount) :=
  List.filter_sublist

/-- A row with a date never stands above one without. -/
theorem descendingKey_lt_of_undated {r s : ℕ} (hr : date r = none) {d : ℕ} (hs : date s = some d) :
    descendingKey date r < descendingKey date s := by
  show sortKey (date s) s < sortKey (date r) r
  rw [sortKey_lt_iff, hr, hs]
  trivial

theorem undatedRows_reverse_before :
    (undatedRows date rowCount).reverse.Pairwise
      (Before (descendingKey date) (List.range rowCount)) := by
  rw [List.pairwise_reverse]
  have hrange : (undatedRows date rowCount).Pairwise (· < ·) :=
    List.pairwise_lt_range.sublist List.filter_sublist
  refine hrange.imp_of_mem ?_
  intro r s hr hs hlt
  have hdate : date r = none ∧ date s = none := by
    simpa using And.intro (List.mem_filter.mp hr).2 (List.mem_filter.mp hs).2
  apply Or.inl
  show sortKey (date r) r < sortKey (date s) s
  rw [sortKey_lt_iff, hdate.1, hdate.2]
  exact_mod_cast hlt

theorem newer_of_before {r s : ℕ} (hr : r ∈ datedRows date rowCount)
    (hs : s ∈ datedRows date rowCount)
    (h : Before (descendingKey date) (datedRows date rowCount) r s) : Newer date r s := by
  obtain ⟨d, hd⟩ := Option.isSome_iff_exists.mp (List.mem_filter.mp hr).2
  obtain ⟨e, he⟩ := Option.isSome_iff_exists.mp (List.mem_filter.mp hs).2
  refine ⟨d, e, hd, he, ?_⟩
  rcases h with hlt | ⟨heq, hsub⟩
  · have hkey : sortKey (date s) s < sortKey (date r) r := hlt
    rw [sortKey_lt_iff, hd, he] at hkey
    exact Or.inl hkey
  · have hkey : sortKey (date r) r = sortKey (date s) s := heq
    rw [hd, he] at hkey
    have hsnd : (d : ℤ) = e := congrArg (fun k => (ofLex k).2) hkey
    exact Or.inr ⟨by omega, pair_sublist_range (hsub.trans datedRows_sublist)⟩

/-- A stable sort by the descending key is the undated rows from below and then the newest. -/
theorem stableSort_rows {lt : ℕ → ℕ → Bool} (h : Compares lt (descendingKey date)) :
    ∃ dated, UndatedThenNewest date rowCount (stableSort lt (List.range rowCount)) dated := by
  set dated := stableSort lt (datedRows date rowCount)
  have hperm : dated.Perm (datedRows date rowCount) := stableSort_perm lt _
  have hnodup : (datedRows date rowCount).Nodup := List.nodup_range.sublist datedRows_sublist
  have hbefore : dated.Pairwise (Before (descendingKey date) (datedRows date rowCount)) :=
    stableSort_before h hnodup
  refine ⟨dated, (eq_stableSort h List.nodup_range ?_ ?_).symm, hperm, ?_⟩
  · have hsplit : ((datedRows date rowCount) ++ undatedRows date rowCount).Perm
        (List.range rowCount) := by
      have hnot : (undatedRows date rowCount) =
          (List.range rowCount).filter fun r => !(date r).isSome := by
        unfold undatedRows
        congr 1
        funext r
        cases date r <;> rfl
      rw [hnot]
      exact List.filter_append_perm _ _
    exact ((List.reverse_perm _).append hperm).trans (List.perm_append_comm.trans hsplit)
  · rw [List.pairwise_append]
    refine ⟨undatedRows_reverse_before, ?_, ?_⟩
    · exact hbefore.imp fun hrs => hrs.imp id fun hrs => ⟨hrs.1, hrs.2.trans datedRows_sublist⟩
    · intro r hr s hs
      have hnone : date r = none := by
        simpa using (List.mem_filter.mp (List.mem_reverse.mp hr)).2
      obtain ⟨d, hd⟩ := Option.isSome_iff_exists.mp (List.mem_filter.mp (hperm.subset hs)).2
      exact Or.inl (descendingKey_lt_of_undated hnone hd)
  · refine hbefore.imp_of_mem ?_
    intro r s hr hs hrs
    exact newer_of_before (hperm.subset hr) (hperm.subset hs) hrs

end Rows

theorem sortDescending_rows (date : QModelIndex → QVariant) (column : ℤ) (rowCount : ℕ) :
    ∃ dated, UndatedThenNewest (rowDate date column) rowCount
      (sortDescending (lessThan date) column rowCount) dated :=
  stableSort_rows (descending_compares date column)

end SortedModel

namespace RecentTransactionsModel
open SortedModel

theorem filter_zipIdx (l : List ℕ) (i : ℕ) :
    ((l.zipIdx i).filter fun p => filterAcceptsRow p.2).map Prod.fst = l.take (25 - i) := by
  induction l generalizing i with
  | nil => simp
  | cons r l ih =>
    rw [List.zipIdx_cons, List.filter_cons]
    by_cases hi : i < 25
    · have haccept : filterAcceptsRow i = true := decide_eq_true (by omega)
      have hsucc : 25 - i = 25 - (i + 1) + 1 := by omega
      rw [if_pos haccept, List.map_cons, ih, hsucc, List.take_succ_cons]
    · have hreject : ¬ filterAcceptsRow i = true := by
        simp only [filterAcceptsRow, decide_eq_true_eq]
        omega
      have hzero : 25 - i = 0 := by omega
      rw [if_neg hreject, ih, hzero, show 25 - (i + 1) = 0 by omega, List.take_zero, List.take_zero]

/-- The rows that are kept are the undated ones, followed by the newest ones. -/
theorem rows_of_sorted {env : Environment} {wallet : Option Wallet} {m : TransactionsModel}
    {date : ℕ → Option ℕ} {rowCount : ℕ} {dated : List ℕ}
    (h : UndatedThenNewest date rowCount (SortedTransactionsModel.rows env wallet m) dated) :
    rows env wallet m = (undatedRows date rowCount).reverse.take 25 ++
      dated.take (25 - (undatedRows date rowCount).length) := by
  rw [rows, filter_zipIdx _ 0, h.split, List.take_append, List.length_reverse]

end RecentTransactionsModel

open SortedModel in
/-- The comparisons are strict weak orders, the sorted tables have the undated rows from the last
one up and then the dated ones from the newest down, and the recent transactions are the undated
rows and then the newest ones, 25 at most. -/
theorem sorted_by_date (fromStdString : StdString → QString) (env : Environment)
    (wallet : Option Wallet) (m : TransactionsModel) (messages : MessagesModel) :
    IsStrictWeakOrder QModelIndex
        (fun left right => SortedTransactionsModel.lessThan env wallet m left right = true) ∧
      IsStrictWeakOrder QModelIndex (fun left right =>
        SortedMessagesModel.lessThan fromStdString env wallet messages left right = true) ∧
      (∃ dated, UndatedThenNewest
        (rowDate (fun index => messages.data fromStdString env wallet index .date)
          MessagesModel.Column.date.toInt)
        messages.rowCount (SortedMessagesModel.rows fromStdString env wallet messages) dated) ∧
      ∃ dated,
        let date := rowDate (fun index => m.data env wallet index .date)
          TransactionsModel.Column.date.toInt
        UndatedThenNewest date m.rowCount (SortedTransactionsModel.rows env wallet m) dated ∧
          RecentTransactionsModel.rows env wallet m =
            (undatedRows date m.rowCount).reverse.take 25 ++
              dated.take (25 - (undatedRows date m.rowCount).length) := by
  obtain ⟨dated, hdated⟩ := sortDescending_rows (fun index => m.data env wallet index .date)
    TransactionsModel.Column.date.toInt m.rowCount
  exact ⟨(lessThan_compares _).isStrictWeakOrder, (lessThan_compares _).isStrictWeakOrder,
    sortDescending_rows _ _ _, dated, hdated, RecentTransactionsModel.rows_of_sorted hdated⟩

end ConcealDesktop
