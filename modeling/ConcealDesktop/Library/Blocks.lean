import Mathlib.Algebra.BigOperators.Group.List.Basic
import Mathlib.Algebra.GroupWithZero.Nat
import Mathlib.Algebra.Order.Group.Nat
import Mathlib.Data.List.Induction

/-! Numbered blocks laid out one after another. Each element of the flattened list carries the
number of its block, and a block occupies the rows from the total length of those before it. -/
namespace EventDriven.Blocks

variable {α : Type*}

/-- The elements of the blocks in order, each with the number of its block. -/
def rows (blocks : List (List α)) : List (ℕ × α) :=
  blocks.zipIdx.flatMap fun block => block.1.map (block.2, ·)

/-- The row at which a block starts. -/
def offset (blocks : List (List α)) (k : ℕ) : ℕ := ((blocks.take k).map List.length).sum

@[simp] theorem rows_concat (blocks : List (List α)) (block : List α) :
    rows (blocks ++ [block]) = rows blocks ++ block.map (blocks.length, ·) := by
  simp [rows, List.zipIdx_append]

theorem length_rows (blocks : List (List α)) : (rows blocks).length = offset blocks blocks.length := by
  induction blocks using List.reverseRecOn with
  | nil => rfl
  | append_singleton blocks block ih =>
    rw [rows_concat, List.length_append, ih, List.length_map]
    simp [offset]

theorem offset_concat {blocks : List (List α)} {k : ℕ} (h : k ≤ blocks.length) (block : List α) :
    offset (blocks ++ [block]) k = offset blocks k := by
  rw [offset, offset, List.take_append_of_le_length h]

theorem offset_succ {blocks : List (List α)} {k : ℕ} {block : List α} (h : blocks[k]? = some block) :
    offset blocks (k + 1) = offset blocks k + block.length := by
  simp [offset, List.take_add_one, h]

theorem offset_mono (blocks : List (List α)) {j k : ℕ} (h : j ≤ k) :
    offset blocks j ≤ offset blocks k := by
  obtain ⟨i, rfl⟩ := Nat.exists_eq_add_of_le h
  rw [offset, offset, List.take_add, List.map_append, List.sum_append]
  exact Nat.le_add_right _ _

theorem offset_add_le {blocks : List (List α)} {k : ℕ} {block : List α}
    (h : blocks[k]? = some block) : offset blocks k + block.length ≤ (rows blocks).length := by
  have hlt : k < blocks.length := (List.getElem?_eq_some_iff.mp h).1
  rw [length_rows, ← offset_succ h]
  exact offset_mono blocks hlt

theorem fst_lt_of_mem_rows {blocks : List (List α)} {p : ℕ × α} (h : p ∈ rows blocks) :
    p.1 < blocks.length := by
  obtain ⟨block, hblock, hmem⟩ := List.mem_flatMap.mp h
  obtain ⟨a, -, rfl⟩ := List.mem_map.mp hmem
  simpa using List.snd_lt_of_mem_zipIdx hblock

/-- Another block leaves the rows of the earlier ones where they are. -/
theorem getElem?_rows_concat_of_lt {blocks : List (List α)} {k : ℕ} (h : k < blocks.length)
    (last : List α) (r : ℕ) (a : α) :
    (rows (blocks ++ [last]))[r]? = some (k, a) ↔ (rows blocks)[r]? = some (k, a) := by
  rw [rows_concat]
  rcases Nat.lt_or_ge r (rows blocks).length with hr | hr
  · rw [List.getElem?_append_left hr]
  · rw [List.getElem?_append_right hr, List.getElem?_eq_none hr]
    simp [h.ne']

/-- The last block is at the end. -/
theorem getElem?_rows_concat_length {blocks : List (List α)} (last : List α) (r : ℕ) (a : α) :
    (rows (blocks ++ [last]))[r]? = some (blocks.length, a) ↔
      (rows blocks).length ≤ r ∧ last[r - (rows blocks).length]? = some a := by
  rw [rows_concat]
  rcases Nat.lt_or_ge r (rows blocks).length with hr | hr
  · rw [List.getElem?_append_left hr]
    constructor
    · intro h
      exact absurd (fst_lt_of_mem_rows (List.mem_of_getElem? h)) (lt_irrefl _)
    · rintro ⟨h, -⟩
      exact absurd h (not_le.mpr hr)
  · rw [List.getElem?_append_right hr]
    simp [hr]

/-- The rows that carry the number of a block are exactly those that it occupies. -/
theorem getElem?_rows_iff {blocks : List (List α)} {k : ℕ} {block : List α}
    (h : blocks[k]? = some block) (r : ℕ) :
    (∃ a, (rows blocks)[r]? = some (k, a)) ↔
      offset blocks k ≤ r ∧ r < offset blocks k + block.length := by
  induction blocks using List.reverseRecOn with
  | nil => simp at h
  | append_singleton blocks last ih =>
    rcases Nat.lt_or_ge k blocks.length with hk | hk
    · rw [offset_concat hk.le]
      simp only [getElem?_rows_concat_of_lt hk]
      exact ih (by rwa [List.getElem?_append_left hk] at h)
    · obtain ⟨rfl, rfl⟩ : k = blocks.length ∧ last = block := by
        rw [List.getElem?_append_right hk, List.getElem?_singleton] at h
        split_ifs at h with hzero
        exact ⟨by omega, Option.some.inj h⟩
      rw [offset_concat le_rfl, ← length_rows]
      simp only [getElem?_rows_concat_length]
      simp only [List.getElem?_eq_some_iff]
      constructor
      · rintro ⟨_, hr, hlt, -⟩
        exact ⟨hr, by omega⟩
      · rintro ⟨hr, hlt⟩
        exact ⟨_, hr, by omega, rfl⟩

end EventDriven.Blocks
