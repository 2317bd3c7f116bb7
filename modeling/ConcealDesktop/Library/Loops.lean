import Mathlib.Data.Nat.Init
import Mathlib.Data.Option.Basic
import Mathlib.Tactic.SplitIfs

/-! Loops. A pass of the body either goes on with a new state or leaves the loop, so the condition
of the loop is part of its body. A loop whose passes lower a measure is left after at most as many
passes as the measure says. -/
namespace Loops

variable {σ : Type*} (body : σ → Option σ)

/-- The state that the loop has reached after `n` passes, if it gets that far. -/
def reached (s : σ) : ℕ → Option σ
  | 0 => some s
  | n + 1 => (reached s n).bind body

/-- The loop is entered in `s` and left in `t`. -/
def LeftIn (s t : σ) : Prop := ∃ n, reached body s n = some t ∧ body t = none

/-- The loop cut off after a number of passes. -/
def run : ℕ → σ → σ
  | 0, s => s
  | n + 1, s => match body s with
    | none => s
    | some t => run n t

@[simp] theorem reached_zero (s : σ) : reached body s 0 = some s := rfl

theorem reached_succ (s : σ) (n : ℕ) : reached body s (n + 1) = (reached body s n).bind body := rfl

variable {body} {s t : σ}

/-- The first pass can be taken off the front of a run. -/
theorem reached_succ_of_step (h : body s = some t) (n : ℕ) :
    reached body s (n + 1) = reached body t n := by
  induction n with
  | zero => exact h
  | succ n ih => rw [reached_succ, ih, ← reached_succ]

theorem reached_eq_none_of_left {n : ℕ} (hs : reached body s n = some t) (ht : body t = none)
    (k : ℕ) : reached body s (n + 1 + k) = none := by
  induction k with
  | zero =>
    rw [Nat.add_zero, reached_succ, hs]
    exact ht
  | succ k ih => rw [← Nat.add_assoc, reached_succ, ih, Option.bind_none]

/-- A loop is left in one state only. -/
theorem LeftIn.unique {t' : σ} (h : LeftIn body s t) (h' : LeftIn body s t') : t = t' := by
  obtain ⟨n, hn, hleft⟩ := h
  obtain ⟨m, hm, hleft'⟩ := h'
  have hge {n m : ℕ} {t t' : σ} (hn : reached body s n = some t) (ht : body t = none)
      (hm : reached body s m = some t') : m ≤ n := by
    by_contra hlt
    obtain ⟨k, rfl⟩ : ∃ k, m = n + 1 + k := ⟨m - (n + 1), by omega⟩
    rw [reached_eq_none_of_left hn ht] at hm
    cases hm
  obtain rfl : n = m := Nat.le_antisymm (hge hm hleft' hn) (hge hn hleft hm)
  exact Option.some.inj (hn.symm.trans hm)

/-- What a pass keeps holds of every state that is reached. -/
theorem reached_invariant {I : ℕ → σ → Prop} (hinit : I 0 s)
    (hstep : ∀ n t u, I n t → body t = some u → I (n + 1) u) {n : ℕ}
    (h : reached body s n = some t) : I n t := by
  induction n generalizing t with
  | zero =>
    cases h
    exact hinit
  | succ n ih =>
    obtain ⟨u, hu, hbody⟩ := Option.bind_eq_some_iff.mp h
    exact hstep n u t (ih hu) hbody

/-- A run that never leaves the loop reaches each of its states. -/
theorem reached_of_forever {states : ℕ → σ} (h : ∀ n, body (states n) = some (states (n + 1)))
    (n : ℕ) : reached body (states 0) n = some (states n) := by
  induction n with
  | zero => rfl
  | succ n ih =>
    rw [reached_succ, ih]
    exact h n

/-- A loop that is left has no run that goes on for ever. -/
theorem LeftIn.not_forever (h : LeftIn body s t) :
    ¬ ∃ states : ℕ → σ, states 0 = s ∧ ∀ n, body (states n) = some (states (n + 1)) := by
  rintro ⟨states, rfl, hstates⟩
  obtain ⟨n, hn, hleft⟩ := h
  rw [reached_of_forever hstates, Option.some.injEq] at hn
  rw [← hn, hstates] at hleft
  cases hleft

/-- The induction is on the measure. -/
theorem exists_left {μ : σ → ℕ} (hμ : ∀ s t, body s = some t → μ t < μ s) (s : σ) :
    ∃ n ≤ μ s, ∃ t, reached body s n = some t ∧ body t = none := by
  induction hk : μ s using Nat.strongRecOn generalizing s with
  | ind k ih =>
    cases hs : body s with
    | none => exact ⟨0, Nat.zero_le k, s, rfl, hs⟩
    | some u =>
      have hlt : μ u < k := hk ▸ hμ s u hs
      obtain ⟨n, hn, t, ht, hleft⟩ := ih (μ u) hlt u rfl
      exact ⟨n + 1, by omega, t, by rw [reached_succ_of_step hs, ht], hleft⟩

theorem run_of_left {n : ℕ} (hs : reached body s n = some t) (ht : body t = none) {fuel : ℕ}
    (hfuel : n ≤ fuel) : run body fuel s = t := by
  induction fuel generalizing s n with
  | zero =>
    obtain rfl : n = 0 := Nat.le_zero.mp hfuel
    exact Option.some.inj hs
  | succ fuel ih =>
    rw [run]
    cases hbody : body s with
    | none =>
      cases n with
      | zero => exact Option.some.inj hs
      | succ n =>
        have hnone := reached_eq_none_of_left (n := 0) (s := s) rfl hbody n
        rw [Nat.zero_add, Nat.add_comm, hs] at hnone
        cases hnone
    | some u =>
      cases n with
      | zero =>
        cases hs
        rw [ht] at hbody
        cases hbody
      | succ n =>
        rw [reached_succ_of_step hbody] at hs
        exact ih hs (Nat.le_of_succ_le_succ hfuel)

/-! A loop that counts up while a condition holds. -/

section Counting

variable {p : ℕ → Prop} [DecidablePred p]

/-- The body of the counting loop. -/
def count (p : ℕ → Prop) [DecidablePred p] (i : ℕ) : Option ℕ := if p i then some (i + 1) else none

theorem reached_count_iff {a n b : ℕ} :
    reached (count p) a n = some b ↔ b = a + n ∧ ∀ i, a ≤ i → i < b → p i := by
  induction n generalizing b with
  | zero =>
    rw [reached_zero, Option.some.injEq]
    constructor
    · rintro rfl
      exact ⟨rfl, fun i hi hlt => absurd hlt (by omega)⟩
    · exact fun h => h.1.symm
  | succ n ih =>
    rw [reached_succ, Option.bind_eq_some_iff]
    simp only [ih, count]
    constructor
    · rintro ⟨c, ⟨rfl, hp⟩, hc⟩
      split_ifs at hc with hlast
      cases hc
      refine ⟨by omega, fun i hi hlt => ?_⟩
      by_cases heq : i = a + n
      · rw [heq]
        exact hlast
      · exact hp i hi (by omega)
    · rintro ⟨rfl, hp⟩
      refine ⟨a + n, ⟨rfl, fun i hi hlt => hp i hi (by omega)⟩, ?_⟩
      rw [if_pos (hp (a + n) (by omega) (by omega))]
      rfl

/-- The counting loop is left at the first number without the property. -/
theorem leftIn_count_iff {a b : ℕ} :
    LeftIn (count p) a b ↔ a ≤ b ∧ (∀ i, a ≤ i → i < b → p i) ∧ ¬ p b := by
  have hleft : count p b = none ↔ ¬ p b := by
    unfold count
    split_ifs with h <;> simp [h]
  unfold LeftIn
  simp only [reached_count_iff, hleft]
  constructor
  · rintro ⟨n, ⟨rfl, hp⟩, hb⟩
    exact ⟨by omega, hp, hb⟩
  · rintro ⟨hle, hp, hb⟩
    exact ⟨b - a, ⟨by omega, hp⟩, hb⟩

end Counting
end Loops
