import Mathlib.Data.List.Basic
import Mathlib.Tactic.Common

/-! Reading a text item by item until the reader fails, as an iterator over an input stream does.
The relation says what is read, the function reads it; a reader that consumes something at each
item needs no more rounds than the text has characters. A text of one kind of characters before
another is read up to the first character of the other kind. -/
namespace Scanner

variable {α β : Type*}

/-- The items that stand at the start of the text, up to the first place without one. -/
inductive Scanned (Item : List α → β → List α → Prop) : List α → List β → Prop
  | stop {s : List α} (h : ∀ v rest, ¬Item s v rest) : Scanned Item s []
  | item {s rest : List α} {v : β} {l : List β} (h : Item s v rest) (hrest : Scanned Item rest l) :
      Scanned Item s (v :: l)

def scan (next : List α → Option (β × List α)) : ℕ → List α → List β
  | 0, _ => []
  | rounds + 1, s =>
    match next s with
    | none => []
    | some (v, rest) => v :: scan next rounds rest

def readAll (next : List α → Option (β × List α)) (s : List α) : List β := scan next s.length s

def Consumes (next : List α → Option (β × List α)) : Prop :=
  ∀ s v rest, next s = some (v, rest) → rest.length < s.length

variable {next : List α → Option (β × List α)}

theorem scan_of_none {s : List α} (h : next s = none) (rounds : ℕ) : scan next rounds s = [] := by
  cases rounds with
  | zero => rfl
  | succ rounds => simp [scan, h]

/-- From the length of the text on, more rounds change nothing. -/
theorem scan_congr (hnext : Consumes next) {m n : ℕ} {s : List α} (hm : s.length ≤ m)
    (hn : s.length ≤ n) : scan next m s = scan next n s := by
  induction m generalizing n s with
  | zero =>
    cases hs : next s with
    | none => rw [scan_of_none hs, scan_of_none hs]
    | some p =>
      have hlt := hnext s p.1 p.2 hs
      omega
  | succ m ih =>
    cases hs : next s with
    | none => rw [scan_of_none hs, scan_of_none hs]
    | some p =>
      have hlt := hnext s p.1 p.2 hs
      obtain ⟨k, rfl⟩ : ∃ k, n = k + 1 := ⟨n - 1, by omega⟩
      simp only [scan, hs]
      rw [ih (n := k) (by omega) (by omega)]

theorem readAll_of_none {s : List α} (h : next s = none) : readAll next s = [] := scan_of_none h _

theorem readAll_of_some (hnext : Consumes next) {s rest : List α} {v : β}
    (h : next s = some (v, rest)) : readAll next s = v :: readAll next rest := by
  have hlt := hnext s v rest h
  obtain ⟨n, hn⟩ : ∃ n, s.length = n + 1 := ⟨s.length - 1, by omega⟩
  rw [readAll, hn]
  simp only [scan, h]
  rw [scan_congr hnext (by omega) (Nat.le_refl _), readAll]

/-- A reader that finds exactly the items reads exactly what stands in the text. -/
theorem scanned_iff (hnext : Consumes next) {Item : List α → β → List α → Prop}
    (hitem : ∀ s v rest, next s = some (v, rest) ↔ Item s v rest) (s : List α) (l : List β) :
    Scanned Item s l ↔ l = readAll next s := by
  constructor
  · intro h
    induction h with
    | @stop s h =>
      have hnone : next s = none := by
        rw [Option.eq_none_iff_forall_ne_some]
        rintro ⟨v, rest⟩ hsome
        exact h v rest ((hitem s v rest).mp hsome)
      rw [readAll_of_none hnone]
    | item h _ ih => rw [readAll_of_some hnext ((hitem _ _ _).mpr h), ih]
  · rintro rfl
    induction hlen : s.length using Nat.strongRecOn generalizing s with
    | ind n ih =>
      cases hs : next s with
      | none =>
        rw [readAll_of_none hs]
        refine .stop fun v rest h => ?_
        rw [(hitem s v rest).mpr h] at hs
        cases hs
      | some p =>
        obtain ⟨v, rest⟩ := p
        rw [readAll_of_some hnext hs]
        have hlt := hnext s v rest hs
        exact .item ((hitem s v rest).mp hs) (ih rest.length (by omega) rest rfl)

/-! ### Up to the first other item -/

section Spans

variable {p : α → Bool} {s rest : List α}

theorem takeWhile_append (hs : ∀ c ∈ s, p c) (hrest : ∀ c, rest.head? = some c → p c = false) :
    (s ++ rest).takeWhile p = s := by
  rw [List.takeWhile_append_of_pos hs]
  cases rest with
  | nil => simp
  | cons c rest => simp [hrest c rfl]

theorem dropWhile_append (hs : ∀ c ∈ s, p c) (hrest : ∀ c, rest.head? = some c → p c = false) :
    (s ++ rest).dropWhile p = rest := by
  rw [List.dropWhile_append_of_pos hs]
  cases rest with
  | nil => rfl
  | cons c rest => simp [hrest c rfl]

theorem head?_dropWhile {c : α} (h : (s.dropWhile p).head? = some c) : p c = false := by
  obtain ⟨rest, hrest⟩ := List.head?_eq_some_iff.mp h
  have hne : s.dropWhile p ≠ [] := by simp [hrest]
  have hhead := List.head_dropWhile_not p hne
  simp only [hrest, List.head_cons] at hhead
  exact hhead

end Spans

end Scanner
