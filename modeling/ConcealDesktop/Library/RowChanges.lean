import Mathlib.Data.List.Basic
import Mathlib.Data.Int.Notation
import Mathlib.Tactic.SplitIfs

/-! A list of rows and an observer that follows it by notifications only. The observer keeps a copy
of its own: it clears it, takes rows out of it by their numbers, and fills a range that has been
inserted with the rows that the list then has there. A notification that does not fit the copy has
no result. -/
namespace RowChanges

inductive Change where
  | clear
  | insert (first last : ℤ)
  | remove (first last : ℤ)
deriving DecidableEq

variable {α σ ι : Type*}

/-- The copy after one notification, while the list holds `rows`. -/
def apply (rows shadow : List α) : Change → Option (List α)
  | .clear => some []
  | .insert first last =>
    if 0 ≤ first ∧ first ≤ shadow.length ∧ first ≤ last ∧ last < rows.length then
      some (shadow.take first.toNat ++ (rows.drop first.toNat).take (last + 1 - first).toNat ++
        shadow.drop first.toNat)
    else none
  | .remove first last =>
    if 0 ≤ first ∧ first ≤ last ∧ last < shadow.length then
      some (shadow.take first.toNat ++ shadow.drop (last + 1).toNat)
    else none

def replay (rows : List α) : List Change → List α → Option (List α)
  | [], shadow => some shadow
  | change :: changes, shadow => (apply rows shadow change).bind (replay rows changes)

theorem replay_append (rows : List α) (changes changes' : List Change) (shadow : List α) :
    replay rows (changes ++ changes') shadow =
      (replay rows changes shadow).bind (replay rows changes') := by
  induction changes generalizing shadow with
  | nil => rfl
  | cons change changes ih =>
    simp only [List.cons_append, replay]
    cases apply rows shadow change with
    | none => rfl
    | some next => exact ih next

@[simp] theorem replay_singleton (rows : List α) (change : Change) (shadow : List α) :
    replay rows [change] shadow = apply rows shadow change := by
  unfold replay
  cases apply rows shadow change <;> rfl

/-- Rows that come between two parts of the list. -/
theorem apply_insert (before inserted after : List α) (h : inserted ≠ []) :
    apply (before ++ inserted ++ after) (before ++ after)
      (.insert before.length (before.length + inserted.length - 1)) =
        some (before ++ inserted ++ after) := by
  have hpos : 0 < inserted.length := List.length_pos_iff.mpr h
  have hcount : ((before.length : ℤ) + inserted.length - 1 + 1 - before.length).toNat =
      inserted.length := by omega
  have hbounds : (0 : ℤ) ≤ before.length ∧ (before.length : ℤ) ≤ (before ++ after).length ∧
      (before.length : ℤ) ≤ before.length + inserted.length - 1 ∧
        (before.length : ℤ) + inserted.length - 1 < (before ++ inserted ++ after).length := by
    simp only [List.length_append]
    omega
  simp only [apply, if_pos hbounds, hcount, Int.toNat_natCast]
  simp

/-- A list that is announced as a whole comes before the rows that the copy has. -/
theorem apply_insert_all {rows : List α} (shadow : List α) (h : rows ≠ []) :
    apply rows shadow (.insert 0 (rows.length - 1)) = some (rows ++ shadow) := by
  have hpos : 0 < rows.length := List.length_pos_iff.mpr h
  have hbounds : (0 : ℤ) ≤ 0 ∧ (0 : ℤ) ≤ shadow.length ∧ (0 : ℤ) ≤ rows.length - 1 ∧
      (rows.length : ℤ) - 1 < rows.length := by omega
  have hcount : ((rows.length : ℤ) - 1 + 1 - 0).toNat = rows.length := by omega
  simp only [apply, if_pos hbounds, hcount, Int.toNat_zero, List.drop_zero, List.take_zero,
    List.take_length, List.nil_append]

/-- A row that goes from between two parts of the list. -/
theorem apply_remove (rows before after : List α) (a : α) :
    apply rows (before ++ a :: after) (.remove before.length before.length) =
      some (before ++ after) := by
  have hbounds : (0 : ℤ) ≤ before.length ∧ (before.length : ℤ) ≤ before.length ∧
      (before.length : ℤ) < (before ++ a :: after).length := by
    simp only [List.length_append, List.length_cons]
    omega
  have hnext : ((before.length : ℤ) + 1).toNat = before.length + 1 := by omega
  simp only [apply, if_pos hbounds, hnext, Int.toNat_natCast]
  simp

/-- A loop that appends rows and counts them: its count is the number of the rows that are new. -/
theorem foldl_appends (rows : σ → List α) (take : σ × ℕ → ι → σ × ℕ)
    (hstep : ∀ acc i, ∃ new, rows (take acc i).1 = rows acc.1 ++ new ∧
      (take acc i).2 = acc.2 + new.length) (is : List ι) (acc : σ × ℕ) :
    ∃ new, rows (is.foldl take acc).1 = rows acc.1 ++ new ∧
      (is.foldl take acc).2 = acc.2 + new.length := by
  induction is generalizing acc with
  | nil => exact ⟨[], by simp, by simp⟩
  | cons i is ih =>
    obtain ⟨first, hrows, hcount⟩ := hstep acc i
    obtain ⟨rest, hrows', hcount'⟩ := ih (take acc i)
    refine ⟨first ++ rest, ?_, ?_⟩
    · rw [List.foldl_cons, hrows', hrows, List.append_assoc]
    · rw [List.foldl_cons, hcount', hcount, List.length_append, Nat.add_assoc]

end RowChanges
