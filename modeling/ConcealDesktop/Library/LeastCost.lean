import Mathlib.Data.List.Induction
import Mathlib.Data.List.MinMax

/-! The search of a list for the candidate of least cost, kept beside the cost of the best one so
far. The search begins with a bound on every cost in place of a candidate. -/
namespace LeastCost

variable {ι κ γ : Type*} [LinearOrder κ] {cost : ι → κ} {bound : κ}

/-- One round of the search. -/
def better (cost : ι → κ) (candidate : ι → γ) (best : κ × Option γ) (i : ι) : κ × Option γ :=
  if cost i < best.1 then (cost i, some (candidate i)) else best

def search (cost : ι → κ) (candidate : ι → γ) (bound : κ) (l : List ι) : κ × Option γ :=
  l.foldl (better cost candidate) (bound, none)

/-- The search finds the first of the cheapest candidates. -/
theorem search_eq (candidate : ι → γ) {l : List ι} (hbound : ∀ i ∈ l, cost i < bound) :
    search cost candidate bound l = match l.argmin cost with
      | none => (bound, none)
      | some i => (cost i, some (candidate i)) := by
  induction l using List.reverseRecOn with
  | nil => rfl
  | append_singleton l i ih =>
    have hinit : ∀ j ∈ l, cost j < bound := fun j hj => hbound j (List.mem_append_left _ hj)
    have hi : cost i < bound := hbound i (List.mem_append_right _ List.mem_cons_self)
    have hsearch : search cost candidate bound (l ++ [i]) =
        better cost candidate (search cost candidate bound l) i := List.foldl_concat _ _ _ _
    rw [hsearch, ih hinit, List.argmin_concat]
    unfold better
    cases l.argmin cost with
    | none => exact if_pos hi
    | some j =>
      by_cases hlt : cost i < cost j
      · simp only [if_pos hlt]
      · simp only [if_neg hlt]

theorem idxOf_range {n i : ℕ} (hi : i < n) : (List.range n).idxOf i = i := by
  have hlength : i < (List.range n).length := by rwa [List.length_range]
  have hget := List.nodup_range.idxOf_getElem i hlength
  rwa [List.getElem_range] at hget

/-- What is found costs at most as much as the others, and less than those before it. -/
theorem search_range {cost : ℕ → κ} {candidate : ℕ → γ} {n : ℕ} (hn : 0 < n)
    (hbound : ∀ i < n, cost i < bound) :
    ∃ i < n, (search cost candidate bound (List.range n)).2 = some (candidate i) ∧
      (∀ j < n, cost i ≤ cost j) ∧ ∀ j < i, cost i < cost j := by
  have hsearch := search_eq candidate (l := List.range n) fun i hi =>
    hbound i (List.mem_range.mp hi)
  cases hleast : (List.range n).argmin cost with
  | none =>
    have hnil := List.argmin_eq_none.mp hleast
    exact absurd (List.range_eq_nil.mp hnil) (Nat.ne_of_gt hn)
  | some i =>
    rw [hleast] at hsearch
    obtain ⟨hi, hle, hfirst⟩ := List.argmin_eq_some_iff.mp hleast
    have hlt : i < n := List.mem_range.mp hi
    refine ⟨i, hlt, by rw [hsearch], fun j hj => hle j (List.mem_range.mpr hj), ?_⟩
    intro j hj
    have hjn : j < n := hj.trans hlt
    refine lt_of_not_ge fun hge => absurd (hfirst j (List.mem_range.mpr hjn) hge) ?_
    rw [idxOf_range hlt, idxOf_range hjn]
    exact Nat.not_le_of_lt hj

end LeastCost
