import Mathlib.Data.List.Basic

/-! Logs in which two uses of one thing never follow each other without a release in between.
A log lists its entries latest first. -/
namespace EventDriven

variable {α : Type*} {conflicts releases : α → α → Prop}

/-- Every use that `later` conflicts with was released after it was made. -/
def MayFollow (conflicts releases : α → α → Prop) (later : α) (log : List α) : Prop :=
  ∀ between earlier before, log = between ++ earlier :: before → conflicts later earlier →
    ∃ r ∈ between, releases r earlier

/-- Between two conflicting uses the earlier one is released. -/
def Separated (conflicts releases : α → α → Prop) : List α → Prop
  | [] => True
  | x :: log => MayFollow conflicts releases x log ∧ Separated conflicts releases log

/-- Separation in terms of positions: whatever stands before the later use. -/
theorem Separated.between {log : List α} (h : Separated conflicts releases log)
    {since between before : List α} {later earlier : α}
    (hlog : log = since ++ later :: (between ++ earlier :: before))
    (hc : conflicts later earlier) : ∃ r ∈ between, releases r earlier := by
  induction since generalizing log with
  | nil =>
    subst hlog
    exact h.1 between earlier before rfl hc
  | cons x since ih =>
    subst hlog
    exact ih h.2 rfl

theorem mayFollow_nil (x : α) : MayFollow conflicts releases x [] := by
  intro between earlier before h
  simp at h

/-- A later entry may be ignored, unless it is itself a use that is not yet released. -/
theorem MayFollow.cons {x y : α} {log : List α} (h : MayFollow conflicts releases x log)
    (hy : ¬ conflicts x y) : MayFollow conflicts releases x (y :: log) := by
  intro between earlier before hlog hc
  cases between with
  | nil =>
    obtain ⟨rfl, rfl⟩ := List.cons.inj hlog
    exact absurd hc hy
  | cons z between =>
    obtain ⟨rfl, rfl⟩ := List.cons.inj hlog
    obtain ⟨r, hr, hrel⟩ := h between earlier before rfl hc
    exact ⟨r, List.mem_cons_of_mem _ hr, hrel⟩

/-- An entry that releases every earlier conflicting use opens the way for the next one. -/
theorem MayFollow.of_release {x y : α} {log : List α} (hy : ¬ conflicts x y)
    (hrel : ∀ earlier ∈ log, conflicts x earlier → releases y earlier) :
    MayFollow conflicts releases x (y :: log) := by
  intro between earlier before hlog hc
  cases between with
  | nil =>
    obtain ⟨rfl, rfl⟩ := List.cons.inj hlog
    exact absurd hc hy
  | cons z between =>
    obtain ⟨rfl, rfl⟩ := List.cons.inj hlog
    exact ⟨y, List.mem_cons_self, hrel earlier (by simp) hc⟩

/-- In a separated log only the last conflicting use needs a release: the uses before it were
released before it was made. -/
theorem Separated.mayFollow_of_last {x y last : α} {between before : List α}
    (h : Separated conflicts releases (between ++ last :: before))
    (htrans : ∀ earlier, conflicts x earlier → conflicts last earlier)
    (hlast : ∀ z ∈ between, ¬ conflicts x z) (hy : ¬ conflicts x y) (hrel : releases y last) :
    MayFollow conflicts releases x (y :: (between ++ last :: before)) := by
  intro mid earlier rest hlog hc
  cases mid with
  | nil =>
    obtain ⟨rfl, rfl⟩ := List.cons.inj hlog
    exact absurd hc hy
  | cons z mid =>
    have heq := (List.cons.inj hlog).2
    have hz : y = z := (List.cons.inj hlog).1
    subst hz
    rcases List.append_eq_append_iff.mp heq with ⟨gap, rfl, htail⟩ | ⟨gap, rfl, htail⟩
    · cases gap with
      | nil =>
        obtain ⟨rfl, rfl⟩ := List.cons.inj htail
        exact ⟨y, List.mem_cons_self, hrel⟩
      | cons w gap =>
        obtain ⟨rfl, rfl⟩ := List.cons.inj htail
        obtain ⟨r, hr, hrr⟩ := h.between rfl (htrans earlier hc)
        exact ⟨r, by simp [hr], hrr⟩
    · cases gap with
      | nil =>
        obtain ⟨rfl, rfl⟩ := List.cons.inj htail
        exact ⟨y, List.mem_cons_self, hrel⟩
      | cons w gap =>
        obtain ⟨rfl, rfl⟩ := List.cons.inj htail
        exact absurd hc (hlast _ (by simp))

end EventDriven
