import Mathlib.Data.List.InsertIdx
import Mathlib.Data.List.Nodup

/-! Lists whose elements have distinct keys, and the removal of the last element that a test
accepts. The removed element is the first accepted one from the back, and its key is gone. -/
namespace KeyedLists

variable {α κ : Type*} {p : α → Bool} {l : List α}

/-- Removes the last element that `p` accepts. -/
def eraseLast (p : α → Bool) (l : List α) : List α := (l.reverse.eraseP p).reverse

/-- A list is left as it is, or loses the element that is found from the back. -/
theorem eraseLast_cases (p : α → Bool) (l : List α) :
    (l.reverse.find? p = none ∧ eraseLast p l = l) ∨
      ∃ a before after, l.reverse.find? p = some a ∧ l = before ++ a :: after ∧
        eraseLast p l = before ++ after := by
  unfold eraseLast
  cases hfind : l.reverse.find? p with
  | none =>
    apply Or.inl
    have hno : ∀ a ∈ l.reverse, ¬ p a := List.find?_eq_none.mp hfind
    rw [List.eraseP_of_forall_not hno, List.reverse_reverse]
    exact ⟨rfl, rfl⟩
  | some a =>
    apply Or.inr
    obtain ⟨hpa, front, back, hsplit, hfront⟩ := List.find?_eq_some_iff_append.mp hfind
    refine ⟨a, back.reverse, front.reverse, rfl, ?_, ?_⟩
    · rw [← List.reverse_reverse l, hsplit]
      simp
    · have hno : ∀ b ∈ front, ¬ p b := fun b hb => by simpa using hfront b hb
      rw [hsplit, List.eraseP_append_right _ hno, List.eraseP_cons_of_pos hpa]
      simp

theorem eraseLast_sublist (p : α → Bool) (l : List α) : (eraseLast p l).Sublist l := by
  rcases eraseLast_cases p l with ⟨_, h⟩ | ⟨a, before, after, _, hl, h⟩
  · rw [h]
  · rw [h, hl]
    exact (List.sublist_cons_self a after).append_left before

/-- An element that the removal has taken is the one that is found from the back. -/
theorem find?_of_erased {a : α} (ha : a ∈ l) (hno : a ∉ eraseLast p l) :
    l.reverse.find? p = some a := by
  rcases eraseLast_cases p l with ⟨_, h⟩ | ⟨b, before, after, hfind, hl, h⟩
  · rw [h] at hno
    exact absurd ha hno
  · rw [h, List.mem_append, not_or] at hno
    rw [hl, List.mem_append, List.mem_cons] at ha
    rcases ha with ha | rfl | ha
    · exact absurd ha hno.1
    · exact hfind
    · exact absurd ha hno.2

/-- Where nothing is found before the first element of a kind that is found, the element found is
of this kind. -/
theorem find?_of_takeWhile {q : α → Bool} {a : α} (hkind : ∀ b, q b = true → p b = true)
    (hbefore : ∀ b ∈ l.takeWhile (!q ·), p b = false) (hfind : l.find? p = some a) :
    q a = true := by
  induction l with
  | nil => cases hfind
  | cons b l ih =>
    cases hq : q b with
    | true =>
      rw [List.find?_cons_of_pos (hkind b hq)] at hfind
      rwa [← Option.some.inj hfind]
    | false =>
      rw [List.takeWhile_cons_of_pos (by rw [hq]; rfl)] at hbefore
      obtain ⟨hb, hbefore⟩ := List.forall_mem_cons.mp hbefore
      rw [List.find?_cons_of_neg (Bool.eq_false_iff.mp hb)] at hfind
      exact ih hbefore hfind

/-- With distinct keys no other element has the key of the removed one. -/
theorem key_not_mem_eraseLast {key : α → κ} {a : α} (hkeys : (l.map key).Nodup)
    (hfind : l.reverse.find? p = some a) : key a ∉ (eraseLast p l).map key := by
  rcases eraseLast_cases p l with ⟨hnone, _⟩ | ⟨b, before, after, hb, hl, h⟩
  · rw [hnone] at hfind
    cases hfind
  · rw [hfind] at hb
    cases hb
    rw [hl, List.map_append, List.map_cons, List.nodup_middle] at hkeys
    rw [h, List.map_append]
    exact (List.nodup_cons.mp hkeys).1

/-- The position from the front of an element that is found from the back. -/
theorem eraseIdx_eq_eraseLast {k : ℕ} (hfind : l.reverse.findIdx? p = some k) :
    l.eraseIdx (l.length - 1 - k) = eraseLast p l := by
  have hk : k < l.length := by
    have := (List.findIdx?_eq_some_iff_findIdx_eq.mp hfind).1
    rwa [List.length_reverse] at this
  unfold eraseLast
  rw [List.eraseP_eq_eraseIdx, hfind]
  show l.eraseIdx _ = (l.reverse.eraseIdx k).reverse
  rw [List.eraseIdx_eq_take_drop_succ, List.eraseIdx_eq_take_drop_succ, List.reverse_append,
    List.take_reverse, List.drop_reverse, List.reverse_reverse, List.reverse_reverse]
  congr 2 <;> omega

theorem eraseLast_of_findIdx? (hfind : l.reverse.findIdx? p = none) : eraseLast p l = l := by
  rcases eraseLast_cases p l with ⟨_, h⟩ | ⟨a, _, _, ha, _, _⟩
  · exact h
  · have hpa := List.find?_some ha
    have hmem := List.mem_of_find?_eq_some ha
    exact absurd hpa (by simpa using List.findIdx?_eq_none_iff.mp hfind a hmem)

/-! ### Appending and replacing -/

theorem nodup_keys_append_iff {key : α → κ} (hkeys : (l.map key).Nodup) (a : α) :
    ((l ++ [a]).map key).Nodup ↔ ∀ b ∈ l, key b ≠ key a := by
  rw [List.map_append, List.map_singleton, List.nodup_append]
  constructor
  · rintro ⟨-, -, hne⟩ b hb
    exact hne (key b) (List.mem_map_of_mem hb) (key a) (List.mem_singleton_self _)
  · intro hne
    refine ⟨hkeys, List.nodup_singleton _, fun k hk k' hk' => ?_⟩
    obtain ⟨b, hb, rfl⟩ := List.mem_map.mp hk
    rw [List.mem_singleton.mp hk']
    exact hne b hb

/-- An element may take the place of another one whose key no third element has. -/
theorem nodup_keys_replace {key : α → κ} (hkeys : (l.map key).Nodup) {i : ℕ} {a : α}
    (hother : ∀ j b, l[j]? = some b → key b = key a → j = i) :
    ((l.eraseIdx i ++ [a]).map key).Nodup := by
  have hrest : ((l.eraseIdx i).map key).Nodup := by
    rw [← List.eraseIdx_map]
    exact hkeys.eraseIdx i
  apply (nodup_keys_append_iff hrest a).mpr
  intro b hb heq
  obtain ⟨j, hj, hbj⟩ := List.mem_eraseIdx_iff_getElem?.mp hb
  exact hj (hother j b hbj heq)

end KeyedLists
