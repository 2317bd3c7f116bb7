import Mathlib.Data.List.Sort
import Mathlib.Data.Prod.Lex
import Mathlib.Order.RelClasses

/-! Stable sorting by a strict comparison that compares keys: the result is ordered by the keys, and
elements with equal keys keep their order, which determines it. -/
namespace StableSort

variable {α κ : Type*} [LinearOrder κ] {lt : α → α → Bool} {key : α → κ}

/-- A stable sort: an element stands before another unless the other one is smaller. -/
def stableSort (lt : α → α → Bool) (l : List α) : List α := l.mergeSort fun a b => !lt b a

/-- The comparison is that of the keys. -/
def Compares (lt : α → α → Bool) (key : α → κ) : Prop := ∀ a b, lt a b = true ↔ key a < key b

theorem Compares.isStrictWeakOrder (h : Compares lt key) :
    IsStrictWeakOrder α fun a b => lt a b = true where
  irrefl a := fun ha => lt_irrefl _ ((h a a).mp ha)
  trans a b c hab hbc := (h a c).mpr (((h a b).mp hab).trans ((h b c).mp hbc))
  incomp_trans a b c hab hbc := by
    simp only [h a b, h b a, h b c, h c b, h a c, h c a, not_lt] at *
    exact ⟨hbc.1.trans hab.1, hab.2.trans hbc.2⟩

theorem Compares.not_iff (h : Compares lt key) (a b : α) :
    (!lt b a) = true ↔ key a ≤ key b := by
  rw [Bool.not_eq_true', Bool.eq_false_iff, ne_eq, h, not_lt]

theorem stableSort_perm (lt : α → α → Bool) (l : List α) : (stableSort lt l).Perm l :=
  List.mergeSort_perm l _

theorem Compares.trans (h : Compares lt key) (a b c : α) (hab : (!lt b a) = true)
    (hbc : (!lt c b) = true) : (!lt c a) = true := by
  rw [h.not_iff] at *
  exact hab.trans hbc

theorem Compares.total (h : Compares lt key) (a b : α) : (!lt b a || !lt a b) = true := by
  rw [Bool.or_eq_true, h.not_iff, h.not_iff]
  exact le_total _ _

theorem stableSort_pairwise (h : Compares lt key) (l : List α) :
    (stableSort lt l).Pairwise fun a b => key a ≤ key b :=
  (List.pairwise_mergeSort h.trans h.total l).imp fun hab => (h.not_iff _ _).mp hab

theorem pair_sublist_stableSort (h : Compares lt key) {a b : α} {l : List α}
    (hab : key a ≤ key b) (hl : [a, b].Sublist l) : [a, b].Sublist (stableSort lt l) :=
  List.pair_sublist_mergeSort h.trans h.total ((h.not_iff a b).mpr hab) hl

/-- Smaller keys first, and elements with equal keys as they stood in the list. -/
def Before (key : α → κ) (l : List α) (a b : α) : Prop :=
  key a < key b ∨ key a = key b ∧ [a, b].Sublist l

/-- Two elements of a list without repetitions stand in one order only. -/
theorem not_pair_sublist {a b : α} {l : List α} (hl : l.Nodup) (hab : [a, b].Sublist l) :
    ¬ [b, a].Sublist l := by
  intro hba
  induction l with
  | nil => cases hab
  | cons c l ih =>
    obtain ⟨hc, hl⟩ := List.nodup_cons.mp hl
    cases hab with
    | cons _ hab =>
      cases hba with
      | cons _ hba => exact ih hl hab hba
      | cons_cons _ hba => exact hc (hab.subset (by simp))
    | cons_cons _ hab =>
      cases hba with
      | cons _ hba => exact hc (hba.subset (by simp))
      | cons_cons _ hba => exact hc (hba.subset (by simp))

theorem pair_sublist_total {a b : α} {l : List α} (ha : a ∈ l) (hb : b ∈ l) (hne : a ≠ b) :
    [a, b].Sublist l ∨ [b, a].Sublist l := by
  induction l with
  | nil => cases ha
  | cons c l ih =>
    rcases List.mem_cons.mp ha with rfl | hal
    · have hbl : b ∈ l := (List.mem_cons.mp hb).resolve_left hne.symm
      exact Or.inl ((List.singleton_sublist.mpr hbl).cons_cons a)
    · rcases List.mem_cons.mp hb with rfl | hbl
      · exact Or.inr ((List.singleton_sublist.mpr hal).cons_cons b)
      · exact (ih hal hbl).imp (·.cons c) (·.cons c)

/-- The sorted list is ordered by the keys, and elements with equal keys stand as before. -/
theorem stableSort_before (h : Compares lt key) {l : List α} (hl : l.Nodup) :
    (stableSort lt l).Pairwise (Before key l) := by
  have hnodup : (stableSort lt l).Nodup := (stableSort_perm lt l).nodup_iff.mpr hl
  rw [List.pairwise_iff_forall_sublist]
  intro a b hab
  have hle := List.pairwise_iff_forall_sublist.mp (stableSort_pairwise h l) hab
  rcases hle.lt_or_eq with hlt | heq
  · exact Or.inl hlt
  · refine Or.inr ⟨heq, ?_⟩
    have hne : a ≠ b := List.pairwise_iff_forall_sublist.mp hnodup hab
    have hmem : ∀ c ∈ [a, b], c ∈ l := fun c hc =>
      (stableSort_perm lt l).subset (hab.subset hc)
    rcases pair_sublist_total (hmem a (by simp)) (hmem b (by simp)) hne with hl' | hl'
    · exact hl'
    · exact absurd (pair_sublist_stableSort h heq.ge hl') (not_pair_sublist hnodup hab)

/-- The order of a stably sorted list is the only one. -/
theorem eq_stableSort (h : Compares lt key) {l r : List α} (hl : l.Nodup) (hperm : r.Perm l)
    (hr : r.Pairwise (Before key l)) : r = stableSort lt l := by
  refine List.Perm.eq_of_pairwise ?_ hr (stableSort_before h hl)
    (hperm.trans (stableSort_perm lt l).symm)
  rintro a b - - (hab | ⟨hab, hsub⟩) (hba | ⟨hba, hsub'⟩)
  · exact absurd hab hba.asymm
  · exact absurd hba hab.ne'
  · exact absurd hab hba.ne'
  · exact absurd hsub' (not_pair_sublist hl hsub)

end StableSort
