import Mathlib.Data.List.Basic
import Mathlib.Data.List.Infix

/-! First occurrences in lists, and fields that a delimiter ends. Both are stated without a search,
so that a program that searches can be compared with them. -/
namespace Occurrences

variable {α : Type*} {needle s : List α} {c d : α} {pos p : ℕ}

/-- From `pos` on, `needle` occurs in `s` first at `p`. -/
def FirstAt (needle s : List α) (pos p : ℕ) : Prop :=
  pos ≤ p ∧ needle <+: s.drop p ∧ ∀ q, pos ≤ q → q < p → ¬ needle <+: s.drop q

/-- The part of `s` before the first `d`. -/
structure Field (d : α) (field s : List α) : Prop where
  not_mem : d ∉ field
  ended : field ++ [d] <+: s

theorem FirstAt.unique {p' : ℕ} (h : FirstAt needle s pos p) (h' : FirstAt needle s pos p') :
    p = p' := by
  obtain ⟨hle, hat, hbefore⟩ := h
  obtain ⟨hle', hat', hbefore'⟩ := h'
  rcases lt_trichotomy p p' with hlt | heq | hgt
  · exact absurd hat (hbefore' p hle hlt)
  · exact heq
  · exact absurd hat' (hbefore p' hle' hgt)

theorem firstAt_cons_iff : FirstAt needle (c :: s) 0 p ↔
    needle <+: c :: s ∧ p = 0 ∨
      ¬ needle <+: c :: s ∧ ∃ q, FirstAt needle s 0 q ∧ q + 1 = p := by
  constructor
  · rintro ⟨-, hat, hbefore⟩
    cases p with
    | zero => exact .inl ⟨hat, rfl⟩
    | succ p =>
      refine .inr ⟨hbefore 0 le_rfl p.succ_pos, p, ⟨p.zero_le, hat, ?_⟩, rfl⟩
      exact fun q _ hq => hbefore (q + 1) (Nat.zero_le _) (Nat.succ_lt_succ hq)
  · rintro (⟨hat, rfl⟩ | ⟨hhead, q, ⟨-, hat, hbefore⟩, rfl⟩)
    · exact ⟨le_rfl, hat, fun q _ hq => absurd hq q.not_lt_zero⟩
    · refine ⟨Nat.zero_le _, hat, ?_⟩
      rintro (_ | r) - hr
      · exact hhead
      · exact hbefore r r.zero_le (Nat.lt_of_succ_lt_succ hr)

theorem firstAt_drop_iff : FirstAt needle (s.drop pos) 0 p ↔ FirstAt needle s pos (pos + p) := by
  unfold FirstAt
  rw [List.drop_drop]
  constructor
  · rintro ⟨-, hat, hbefore⟩
    refine ⟨Nat.le_add_right pos p, hat, ?_⟩
    intro q hq hlt
    have hnot := hbefore (q - pos) (Nat.zero_le _) (by omega)
    rwa [List.drop_drop, Nat.add_sub_cancel' hq] at hnot
  · rintro ⟨-, hat, hbefore⟩
    refine ⟨p.zero_le, hat, ?_⟩
    intro q _ hlt
    rw [List.drop_drop]
    exact hbefore (pos + q) (Nat.le_add_right pos q) (by omega)

/-- What occurs at a position fits into the list. -/
theorem FirstAt.add_length_le (h : FirstAt needle s pos p) (hne : needle ≠ []) :
    p + needle.length ≤ s.length := by
  have hlength := h.2.1.length_le
  have hpos := List.length_pos_iff.mpr hne
  rw [List.length_drop] at hlength
  omega

theorem singleton_prefix_drop_iff : [d] <+: s.drop p ↔ s[p]? = some d := by
  rw [← List.head?_drop]
  cases s.drop p with
  | nil => simp
  | cons c t => simp [eq_comm]

/-- A field ends where the delimiter first occurs. -/
theorem Field.firstAt {field : List α} (h : Field d field s) :
    FirstAt [d] s 0 field.length := by
  obtain ⟨rest, rfl⟩ := h.ended
  refine ⟨Nat.zero_le _, ?_, ?_⟩
  · rw [singleton_prefix_drop_iff]
    simp
  · intro q _ hq hat
    rw [singleton_prefix_drop_iff, List.append_assoc, List.getElem?_append_left hq] at hat
    exact h.not_mem (List.mem_of_getElem? hat)

theorem FirstAt.field (h : FirstAt [d] s 0 p) : Field d (s.take p) s := by
  obtain ⟨-, hat, hbefore⟩ := h
  rw [singleton_prefix_drop_iff] at hat
  constructor
  · intro hmem
    obtain ⟨q, hq, hd⟩ := List.mem_iff_getElem.mp hmem
    rw [List.length_take] at hq
    apply hbefore q q.zero_le (by omega)
    rw [singleton_prefix_drop_iff, List.getElem?_eq_getElem (by omega), ← hd, List.getElem_take]
  · obtain ⟨hp, hd⟩ := List.getElem?_eq_some_iff.mp hat
    rw [← hd, List.take_append_getElem hp]
    exact List.take_prefix _ _

theorem Field.unique {field field' : List α} (h : Field d field s) (h' : Field d field' s) :
    field = field' := by
  have hlength := h.firstAt.unique h'.firstAt
  have hfront := (List.prefix_append field [d]).trans h.ended
  have hfront' := (List.prefix_append field' [d]).trans h'.ended
  rw [List.prefix_iff_eq_take.mp hfront, List.prefix_iff_eq_take.mp hfront', hlength]

/-- There is a field exactly when there is a delimiter. -/
theorem exists_field_iff : (∃ field, Field d field s) ↔ d ∈ s := by
  constructor
  · rintro ⟨field, -, rest, rfl⟩
    simp
  · intro hmem
    obtain ⟨before, rest, rfl, hbefore⟩ := List.eq_append_cons_of_mem hmem
    exact ⟨before, hbefore, rest, by simp⟩

end Occurrences
