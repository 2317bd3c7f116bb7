import Mathlib.LinearAlgebra.Vandermonde
import ConcealDesktop.Library.ShiftRegister

/-! Words whose values vanish at consecutive powers of one element. Two of them that differ are
far apart, so a word that is damaged in few places still belongs to one of them only. -/
namespace Syndromes
open ShiftRegister

section Distance

variable {α : Type*} [DecidableEq α]

/-- The number of places at which two words differ. -/
def differences (u v : List α) : ℕ := (List.zip u v).countP fun p => p.1 ≠ p.2

theorem differences_cons (a b : α) (u v : List α) :
    differences (a :: u) (b :: v) = (if a = b then 0 else 1) + differences u v := by
  unfold differences
  rw [List.zip_cons_cons, List.countP_cons, Nat.add_comm]
  split_ifs with h <;> simp_all

theorem differences_comm (u v : List α) : differences u v = differences v u := by
  induction u generalizing v with
  | nil => cases v <;> rfl
  | cons a u ih =>
    cases v with
    | nil => rfl
    | cons b v =>
      rw [differences_cons, differences_cons, ih]
      simp only [eq_comm]

theorem differences_triangle {u v w : List α} (huv : u.length = v.length)
    (hvw : v.length = w.length) : differences u w ≤ differences u v + differences v w := by
  induction u generalizing v w with
  | nil => exact Nat.zero_le _
  | cons a u ih =>
    obtain ⟨b, v, rfl⟩ := List.exists_cons_of_length_eq_add_one huv.symm
    obtain ⟨c, w, rfl⟩ := List.exists_cons_of_length_eq_add_one hvw.symm
    have h := ih (Nat.succ.inj huv) (Nat.succ.inj hvw)
    rw [differences_cons, differences_cons, differences_cons]
    by_cases hab : a = b
    · subst hab
      omega
    · by_cases hac : a = c
      · rw [if_pos hac]
        omega
      · rw [if_neg hac, if_neg hab]
        omega

theorem differences_map {β : Type*} [DecidableEq β] {f : α → β} (hf : Function.Injective f)
    (u v : List α) : differences (u.map f) (v.map f) = differences u v := by
  induction u generalizing v with
  | nil => rfl
  | cons a u ih =>
    cases v with
    | nil => rfl
    | cons b v =>
      rw [List.map_cons, List.map_cons, differences_cons, differences_cons, ih]
      simp only [hf.eq_iff]

theorem differences_le_length (u v : List α) : differences u v ≤ u.length := by
  unfold differences
  apply List.countP_le_length.trans
  rw [List.length_zip]
  exact Nat.min_le_left _ _

end Distance

section Field

variable {K : Type*} [Field K]

/-- Every value of the word vanishes at the first `n` powers of `g`. -/
def Vanishes (g : K) (n : ℕ) (word : List K) : Prop := ∀ j < n, value (g ^ j) word = 0

/-- The powers of `g` below `m` differ. -/
def Distinct (g : K) (m : ℕ) : Prop := ∀ i < m, ∀ j < m, g ^ i = g ^ j → i = j

/-- The coefficients of a word, each with the power of `g` that it belongs to. -/
def located (g : K) : List K → List (K × K)
  | [] => []
  | c :: word => (g ^ word.length, c) :: located g word

variable {g : K} {n : ℕ} {word : List K}

theorem value_pow (g : K) (j : ℕ) (word : List K) :
    value (g ^ j) word = ((located g word).map fun p => p.2 * p.1 ^ j).sum := by
  induction word with
  | nil => rfl
  | cons c word ih =>
    rw [value_cons, ih, located, List.map_cons, List.sum_cons, pow_right_comm]

theorem mem_located_fst {p : K × K} (h : p ∈ located g word) :
    ∃ i < word.length, p.1 = g ^ i := by
  induction word with
  | nil => cases h
  | cons c word ih =>
    rcases List.mem_cons.mp h with rfl | htail
    · exact ⟨word.length, Nat.lt_succ_self _, rfl⟩
    · obtain ⟨i, hi, hp⟩ := ih htail
      exact ⟨i, Nat.lt_succ_of_lt hi, hp⟩

theorem map_snd_located (g : K) (word : List K) : (located g word).map Prod.snd = word := by
  induction word with
  | nil => rfl
  | cons c word ih => rw [located, List.map_cons, ih]

theorem Distinct.mono {m : ℕ} (h : Distinct g m) (hle : n ≤ m) : Distinct g n :=
  fun i hi j hj => h i (hi.trans_le hle) j (hj.trans_le hle)

theorem nodup_located (hg : Distinct g word.length) :
    ((located g word).map Prod.fst).Nodup := by
  induction word with
  | nil => exact List.nodup_nil
  | cons c word ih =>
    rw [located, List.map_cons, List.nodup_cons]
    constructor
    · intro hmem
      obtain ⟨p, hp, heq⟩ := List.mem_map.mp hmem
      obtain ⟨i, hi, hpow⟩ := mem_located_fst hp
      have h := hg i (Nat.lt_succ_of_lt hi) word.length (Nat.lt_succ_self _) (hpow.symm.trans heq)
      omega
    · exact ih (hg.mono (Nat.le_succ _))

/-- Power sums with as many equations as terms leave no coefficient but zero. -/
theorem eq_zero_of_power_sums {terms : List (K × K)} (hnodup : (terms.map Prod.fst).Nodup)
    (hsum : ∀ j < terms.length, (terms.map fun p => p.2 * p.1 ^ j).sum = 0) :
    ∀ p ∈ terms, p.2 = 0 := by
  have hinj : Function.Injective fun t : Fin terms.length => (terms.get t).1 := by
    intro s t hst
    have heq := List.inj_on_of_nodup_map hnodup (terms.get_mem s) (terms.get_mem t) hst
    exact List.nodup_iff_injective_get.mp hnodup.of_map heq
  have hzero := Matrix.eq_zero_of_forall_pow_sum_mul_pow_eq_zero
    (v := fun t : Fin terms.length => (terms.get t).2) hinj (by
      intro j
      have h := hsum j j.isLt
      rwa [← Fin.sum_univ_fun_getElem] at h)
  intro p hp
  obtain ⟨t, rfl⟩ := List.get_of_mem hp
  exact congrFun hzero t

section Decidable

variable [DecidableEq K]

/-- Coefficients that are zero add nothing to a power sum. -/
theorem sum_filter (terms : List (K × K)) (j : ℕ) :
    ((terms.filter fun p => p.2 ≠ 0).map fun p => p.2 * p.1 ^ j).sum =
      (terms.map fun p => p.2 * p.1 ^ j).sum := by
  induction terms with
  | nil => rfl
  | cons p terms ih =>
    by_cases hp : p.2 = 0
    · rw [List.filter_cons_of_neg (by simpa using hp), ih, List.map_cons, List.sum_cons, hp,
        zero_mul, zero_add]
    · rw [List.filter_cons_of_pos (by simpa using hp), List.map_cons, List.sum_cons, ih,
        List.map_cons, List.sum_cons]

/-- A word that vanishes at `n` powers and has at most `n` coefficients other than zero is zero. -/
theorem eq_zero_of_vanishes (hg : Distinct g word.length) (hv : Vanishes g n word)
    (hfew : word.countP (fun c => c ≠ 0) ≤ n) : ∀ c ∈ word, c = 0 := by
  set terms := (located g word).filter fun p => p.2 ≠ 0 with hterms
  have hlength : terms.length = word.countP fun c => c ≠ 0 := by
    rw [hterms, ← List.countP_eq_length_filter]
    nth_rewrite 2 [← map_snd_located g word]
    rw [List.countP_map]
    rfl
  have hnodup : (terms.map Prod.fst).Nodup :=
    (nodup_located hg).sublist (List.filter_sublist.map Prod.fst)
  have hzero := eq_zero_of_power_sums hnodup (by
    intro j hj
    rw [hterms, sum_filter, ← value_pow]
    exact hv j (by omega))
  intro c hc
  by_contra hne
  rw [← map_snd_located g word] at hc
  obtain ⟨p, hp, rfl⟩ := List.mem_map.mp hc
  exact hne (hzero p (List.mem_filter.mpr ⟨hp, by simpa using hne⟩))

theorem countP_zipWith (u v : List K) :
    (List.zipWith (fun a b => a + -1 * b) u v).countP (fun c => c ≠ 0) = differences u v := by
  induction u generalizing v with
  | nil => rfl
  | cons a u ih =>
    cases v with
    | nil => rfl
    | cons b v =>
      have hzero : a + -1 * b = 0 ↔ a = b := by
        rw [neg_one_mul, ← sub_eq_add_neg, sub_eq_zero]
      rw [List.zipWith_cons_cons, List.countP_cons, ih, differences_cons, Nat.add_comm]
      simp only [ne_eq, hzero, decide_not, Bool.not_eq_true', decide_eq_false_iff_not, ite_not]

/-- Two words of one length with the same values at `n` powers are equal or differ at more than
`n` places. -/
theorem eq_of_differences_le {u v : List K} (hlength : u.length = v.length)
    (hg : Distinct g u.length) (hvalue : ∀ j < n, value (g ^ j) u = value (g ^ j) v)
    (hfew : differences u v ≤ n) : u = v := by
  set word := List.zipWith (fun a b => a + -1 * b) u v with hword
  have hwordLength : word.length = u.length := by
    rw [hword, List.length_zipWith, ← hlength, Nat.min_self]
  have hvanishes : Vanishes g n word := by
    intro j hj
    rw [hword, value_zipWith _ _ hlength, hvalue j hj, neg_one_mul, add_neg_cancel]
  have hzero := eq_zero_of_vanishes (hwordLength ▸ hg) hvanishes
    (by rw [hword, countP_zipWith]; exact hfew)
  apply List.ext_getElem hlength
  intro i hi hj
  have hget := hzero word[i] (List.getElem_mem (hwordLength ▸ hi))
  rw [List.getElem_zipWith, neg_one_mul, ← sub_eq_add_neg] at hget
  exact sub_eq_zero.mp hget

/-- A word that is damaged at few places comes from one word only. -/
theorem eq_of_damaged {u v received : List K} (hu : Vanishes g n u) (hv : Vanishes g n v)
    (hulength : u.length = received.length) (hvlength : v.length = received.length)
    (hg : Distinct g received.length) (hfew : 2 * differences u received ≤ n)
    (hfew' : 2 * differences v received ≤ n) : u = v := by
  have htriangle := differences_triangle hulength hvlength.symm
  rw [differences_comm received] at htriangle
  exact eq_of_differences_le (hulength.trans hvlength.symm) (hulength ▸ hg)
    (fun j hj => (hu j hj).trans (hv j hj).symm) (by omega)

end Decidable
end Field
end Syndromes
