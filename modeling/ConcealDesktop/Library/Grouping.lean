import Mathlib.Data.List.Basic

/-! Sequences written in groups that are counted from their end, with a separator between
neighbouring groups. -/
namespace Grouping

variable {α : Type*}

/-- Groups of `n` items counted from the end: only the first one may be shorter. -/
structure FromEnd (n : ℕ) (first : List α) (rest : List (List α)) : Prop where
  first_ne_nil : first ≠ []
  first_length : first.length ≤ n
  rest_length : ∀ g ∈ rest, g.length = n

/-- The groups with `sep` between them. -/
def joined (sep : α) (first : List α) (rest : List (List α)) : List α :=
  first ++ rest.flatMap (sep :: ·)

theorem FromEnd.single {n : ℕ} {first : List α} (hne : first ≠ []) (hn : first.length ≤ n) :
    FromEnd n first [] :=
  ⟨hne, hn, by simp⟩

/-- A further full group may follow at the end. -/
theorem FromEnd.concat {n : ℕ} {first g : List α} {rest : List (List α)}
    (h : FromEnd n first rest) (hg : g.length = n) : FromEnd n first (rest ++ [g]) := by
  constructor
  · exact h.first_ne_nil
  · exact h.first_length
  · intro g' hg'
    rcases List.mem_append.mp hg' with hg' | hg'
    · exact h.rest_length g' hg'
    · rw [List.mem_singleton.mp hg', hg]

theorem joined_concat (sep : α) (first g : List α) (rest : List (List α)) :
    joined sep first (rest ++ [g]) = joined sep first rest ++ sep :: g := by
  simp [joined]

/-- Without its separators the text is the sequence that was grouped. -/
theorem filter_joined [DecidableEq α] {sep : α} {first : List α} {rest : List (List α)}
    (h : ∀ x ∈ first ++ rest.flatten, x ≠ sep) :
    (joined sep first rest).filter (· != sep) = first ++ rest.flatten := by
  have keep (l : List α) (hl : ∀ x ∈ l, x ∈ first ++ rest.flatten) :
      l.filter (· != sep) = l := by
    apply List.filter_eq_self.mpr
    intro x hx
    simpa using h x (hl x hx)
  unfold joined
  rw [List.filter_append, keep first fun x hx => List.mem_append_left _ hx, List.filter_flatMap]
  congr 1
  rw [List.flatten_eq_flatMap]
  apply List.flatMap_congr
  intro g hg
  have hg' := keep g fun x hx => List.mem_append_right _ (List.mem_flatten.mpr ⟨g, hg, hx⟩)
  simpa using hg'

theorem joined_cons (sep : α) (first g : List α) (rest : List (List α)) :
    joined sep first (g :: rest) = first ++ sep :: joined sep g rest := by
  simp [joined]

/-! ### The lexicographic order -/

theorem append_lt_append_iff [LT α] {u v : List α} (h : u.length = v.length) (s t : List α) :
    u ++ s < v ++ t ↔ u < v ∨ u = v ∧ s < t := by
  induction u generalizing v with
  | nil =>
    rw [List.eq_nil_of_length_eq_zero h.symm]
    simp
  | cons a u ih =>
    cases v with
    | nil => cases h
    | cons b v =>
      rw [List.cons_append, List.cons_append, List.cons_lt_cons_iff, List.cons_lt_cons_iff,
        ih (Nat.succ.inj h), List.cons.injEq, and_or_left, or_assoc, and_assoc]

/-- Sequences in groups of the same lengths compare like the sequences, and what follows them
decides between equal ones. -/
theorem joined_lt_joined_iff [LT α] {sep : α} (hsep : ¬sep < sep) {n : ℕ} {f f' : List α}
    {r r' : List (List α)} (hf : f.length = f'.length) (hr : r.length = r'.length)
    (hn : ∀ g ∈ r, g.length = n) (hn' : ∀ g ∈ r', g.length = n) (s t : List α) :
    joined sep f r ++ s < joined sep f' r' ++ t ↔
      f ++ r.flatten < f' ++ r'.flatten ∨ f ++ r.flatten = f' ++ r'.flatten ∧ s < t := by
  induction r generalizing f f' r' with
  | nil =>
    rw [List.eq_nil_of_length_eq_zero hr.symm]
    simp only [joined, List.flatMap_nil, List.flatten_nil, List.append_nil]
    exact append_lt_append_iff hf s t
  | cons g r ih =>
    cases r' with
    | nil => cases hr
    | cons g' r' =>
      have hg : g.length = g'.length :=
        (hn g List.mem_cons_self).trans (hn' g' List.mem_cons_self).symm
      have hinner := ih hg (Nat.succ.inj hr) (fun x hx => hn x (List.mem_cons_of_mem g hx))
        (fun x hx => hn' x (List.mem_cons_of_mem g' hx))
      have heq : f ++ (g ++ r.flatten) = f' ++ (g' ++ r'.flatten) ↔
          f = f' ∧ g ++ r.flatten = g' ++ r'.flatten :=
        ⟨fun h => List.append_inj h hf, fun ⟨h, h'⟩ => by rw [h, h']⟩
      rw [joined_cons, joined_cons, List.append_assoc, List.append_assoc,
        append_lt_append_iff hf, List.cons_append, List.cons_append, List.cons_lt_cons_iff, hinner,
        List.flatten_cons, List.flatten_cons, append_lt_append_iff hf, heq]
      simp only [hsep, false_or, true_and, and_or_left, or_assoc, and_assoc]

end Grouping
