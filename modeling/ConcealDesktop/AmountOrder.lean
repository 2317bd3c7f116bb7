import Mathlib.Data.Nat.Log
import ConcealDesktop.AmountText

/-! The texts of two amounts compared as texts. With equally many digits before the point they
compare like the amounts; otherwise the commas and the points stand at different places, and what
decides is the digits before the first difference. -/
namespace ConcealDesktop

theorem QChar.lt_iff_of_isDigit {c d : QChar} (hc : c.isDigit) (hd : d.isDigit) :
    c < d ↔ c.digitValue < d.digitValue := by
  simp only [isDigit, Bool.and_eq_true, decide_eq_true_eq, UInt16.le_iff_toNat_le] at hc hd
  have hzero : (0x30 : UInt16).toNat = 0x30 := rfl
  unfold digitValue
  rw [UInt16.lt_iff_toNat_lt]
  omega

theorem QChar.eq_iff_of_isDigit {c d : QChar} (hc : c.isDigit) (hd : d.isDigit) :
    c = d ↔ c.digitValue = d.digitValue := by
  simp only [isDigit, Bool.and_eq_true, decide_eq_true_eq, UInt16.le_iff_toNat_le] at hc hd
  have hzero : (0x30 : UInt16).toNat = 0x30 := rfl
  unfold digitValue
  rw [← UInt16.toNat_inj]
  omega

theorem QChar.digitValue_lt {c : QChar} (hc : c.isDigit) : c.digitValue < 10 := by
  simp only [isDigit, Bool.and_eq_true, decide_eq_true_eq, UInt16.le_iff_toNat_le] at hc
  have hnine : (0x39 : UInt16).toNat = 0x39 := rfl
  unfold digitValue
  omega

namespace QString

theorem digitsValue_cons (c : QChar) (s : QString) :
    digitsValue (c :: s) = 10 ^ s.length * c.digitValue + digitsValue s := by
  have hone : digitsValue [c] = c.digitValue := by simp [digitsValue]
  rw [← List.singleton_append, digitsValue_append, hone]

/-- The leading digit decides. -/
theorem leading_lt {p a b m n : ℕ} (hab : a < b) (hm : m < p) : p * a + m < p * b + n :=
  calc p * a + m < p * (a + 1) := by rw [Nat.mul_succ]; omega
    _ ≤ p * b := Nat.mul_le_mul_left p hab
    _ ≤ p * b + n := Nat.le_add_right _ _

/-- Between equal leading digits the others decide. -/
theorem leading_lt_iff {p a b m n : ℕ} (hm : m < p) (hn : n < p) :
    (p * a + m < p * b + n ↔ a < b ∨ a = b ∧ m < n) ∧
      (p * a + m = p * b + n ↔ a = b ∧ m = n) := by
  rcases Nat.lt_trichotomy a b with hab | hab | hab
  · have hlt := leading_lt (n := n) hab hm
    omega
  · subst hab
    omega
  · have hlt := leading_lt (n := m) hab hn
    omega

theorem digitsValue_lt {s : QString} (hs : ∀ c ∈ s, c.isDigit) : digitsValue s < 10 ^ s.length := by
  induction s with
  | nil => decide
  | cons c s ih =>
    have hrest := ih fun d hd => hs d (List.mem_cons_of_mem c hd)
    have hc := QChar.digitValue_lt (hs c List.mem_cons_self)
    rw [digitsValue_cons, List.length_cons, Nat.pow_succ]
    exact leading_lt (n := 0) hc hrest

/-- Digit strings of one length compare like their values. -/
theorem digits_lt_iff {s t : QString} (hs : ∀ c ∈ s, c.isDigit) (ht : ∀ c ∈ t, c.isDigit)
    (h : s.length = t.length) :
    (s < t ↔ digitsValue s < digitsValue t) ∧ (s = t ↔ digitsValue s = digitsValue t) := by
  induction s generalizing t with
  | nil =>
    rw [List.eq_nil_of_length_eq_zero h.symm]
    simp
  | cons c s ih =>
    cases t with
    | nil => cases h
    | cons d t =>
      have hs' : ∀ x ∈ s, x.isDigit := fun x hx => hs x (List.mem_cons_of_mem c hx)
      have ht' : ∀ x ∈ t, x.isDigit := fun x hx => ht x (List.mem_cons_of_mem d hx)
      have hlen : s.length = t.length := Nat.succ.inj h
      have hc := hs c List.mem_cons_self
      have hd := ht d List.mem_cons_self
      obtain ⟨hlt, heq⟩ := ih hs' ht' hlen
      obtain ⟨hltValue, heqValue⟩ := leading_lt_iff (a := c.digitValue) (b := d.digitValue)
        (hlen ▸ digitsValue_lt hs') (digitsValue_lt ht')
      rw [digitsValue_cons, digitsValue_cons, hlen, hltValue, heqValue, List.cons_lt_cons_iff,
        List.cons.injEq, QChar.lt_iff_of_isDigit hc hd, QChar.eq_iff_of_isDigit hc hd, hlt, heq]
      exact ⟨Iff.rfl, Iff.rfl⟩

/-- The value of fraction digits in units of the last of `places` places. -/
def scaledValue (places : ℕ) (s : QString) : ℕ := digitsValue s * 10 ^ (places - s.length)

theorem scaledValue_cons {places : ℕ} {c : QChar} {s : QString} (h : s.length ≤ places) :
    scaledValue (places + 1) (c :: s) = 10 ^ places * c.digitValue + scaledValue places s := by
  have hpow : 10 ^ places = 10 ^ s.length * 10 ^ (places - s.length) := by
    rw [← pow_add, Nat.add_sub_cancel' h]
  unfold scaledValue
  rw [digitsValue_cons, List.length_cons, Nat.add_sub_add_right, Nat.add_mul, hpow]
  ring

theorem scaledValue_lt {places : ℕ} {s : QString} (hs : ∀ c ∈ s, c.isDigit)
    (h : s.length ≤ places) : scaledValue places s < 10 ^ places := by
  have hpow : 10 ^ places = 10 ^ s.length * 10 ^ (places - s.length) := by
    rw [← pow_add, Nat.add_sub_cancel' h]
  unfold scaledValue
  rw [hpow]
  exact Nat.mul_lt_mul_of_pos_right (digitsValue_lt hs) (Nat.pow_pos (by decide))

/-- Fractions compare as texts like their values, also with different numbers of digits. -/
theorem fraction_lt {places : ℕ} {s t : QString} (hs : ∀ c ∈ s, c.isDigit)
    (ht : ∀ c ∈ t, c.isDigit) (hsp : s.length ≤ places) (htp : t.length ≤ places)
    (h : scaledValue places s < scaledValue places t) : s < t := by
  induction s generalizing t places with
  | nil =>
    cases t with
    | nil => exact absurd h (lt_irrefl _)
    | cons d t => exact List.nil_lt_cons d t
  | cons c s ih =>
    cases t with
    | nil => exact absurd h (by simp [scaledValue, digitsValue])
    | cons d t =>
      obtain ⟨n, rfl⟩ : ∃ n, places = n + 1 := ⟨places - 1, by rw [List.length_cons] at hsp; omega⟩
      have hsn : s.length ≤ n := Nat.le_of_succ_le_succ hsp
      have htn : t.length ≤ n := Nat.le_of_succ_le_succ htp
      have hs' : ∀ x ∈ s, x.isDigit := fun x hx => hs x (List.mem_cons_of_mem c hx)
      have ht' : ∀ x ∈ t, x.isDigit := fun x hx => ht x (List.mem_cons_of_mem d hx)
      have hc := hs c List.mem_cons_self
      have hd := ht d List.mem_cons_self
      rw [scaledValue_cons hsn, scaledValue_cons htn,
        (leading_lt_iff (scaledValue_lt hs' hsn) (scaledValue_lt ht' htn)).1] at h
      rw [List.cons_lt_cons_iff, QChar.lt_iff_of_isDigit hc hd, QChar.eq_iff_of_isDigit hc hd]
      exact h.imp id fun h => ⟨h.1, ih hs' ht' hsn htn h.2⟩

/-- How many digits a number is written with. -/
def digitCount (n : ℕ) : ℕ := Nat.log 10 n + 1

/-- How many of them stand before the first comma. -/
def firstGroup (n : ℕ) : ℕ := (digitCount n - 1) % 3 + 1

/-- The number that the first `k` digits form. -/
def leading (k n : ℕ) : ℕ := n / 10 ^ (digitCount n - k)

theorem length_eq_digitCount {s : QString} (hs : ∀ c ∈ s, c.isDigit) (hne : s ≠ [])
    (hzero : s.head? = some (qchar '0') → s = [qchar '0']) :
    s.length = digitCount (digitsValue s) := by
  obtain ⟨c, s, rfl⟩ := List.exists_cons_of_ne_nil hne
  by_cases hc : c = qchar '0'
  · subst hc
    rw [hzero rfl]
    simp [digitCount, digitsValue, QChar.digitValue, qchar]
  · have hdigit := hs c List.mem_cons_self
    have hpos : 0 < c.digitValue := by
      by_contra h
      exact hc ((QChar.eq_iff_of_isDigit hdigit rfl).mpr (Nat.eq_zero_of_not_pos h))
    have hlow : 10 ^ s.length ≤ digitsValue (c :: s) := by
      rw [digitsValue_cons]
      exact (Nat.le_mul_of_pos_right _ hpos).trans (Nat.le_add_right _ _)
    have hne0 : digitsValue (c :: s) ≠ 0 :=
      Nat.ne_of_gt ((Nat.pow_pos (by decide)).trans_le hlow)
    have hlog : Nat.log 10 (digitsValue (c :: s)) = s.length :=
      (Nat.log_eq_iff (Or.inr ⟨by decide, hne0⟩)).mpr ⟨hlow, digitsValue_lt hs⟩
    rw [digitCount, hlog, List.length_cons]

/-- The first digits of a text form the leading digits of its value. -/
theorem digitsValue_leading {s t : QString} (ht : ∀ c ∈ t, c.isDigit)
    (hcount : (s ++ t).length = digitCount (digitsValue (s ++ t))) :
    digitsValue s = leading s.length (digitsValue (s ++ t)) := by
  have hlen : digitCount (digitsValue (s ++ t)) - s.length = t.length := by
    rw [← hcount, List.length_append]
    omega
  rw [leading, hlen, digitsValue_append, Nat.mul_add_div (Nat.pow_pos (by decide)),
    Nat.div_eq_of_lt (digitsValue_lt ht), Nat.add_zero]

end QString

namespace CurrencyAdapter
open QString

/-- Whole parts, the first not above the second, whose texts stand in that order up to the point. -/
def InTextOrder (x y : ℕ) : Prop :=
  digitCount x = digitCount y ∨
  firstGroup x = firstGroup y ∧ x < leading (digitCount x) y ∨
  firstGroup x < firstGroup y ∧ leading (firstGroup x) x ≤ leading (firstGroup x) y ∨
  firstGroup y < firstGroup x ∧ leading (firstGroup y) x < leading (firstGroup y) y

instance (x y : ℕ) : Decidable (InTextOrder x y) :=
  inferInstanceAs (Decidable (_ ∨ _ ∨ _ ∨ _))

namespace AmountText

variable {places a b : ℕ}

theorem amount_eq (t : AmountText places a) :
    10 ^ places * digitsValue t.whole + scaledValue places t.fraction = a := by
  have hpow : 10 ^ places = 10 ^ t.fraction.length * 10 ^ (places - t.fraction.length) := by
    rw [← pow_add, Nat.add_sub_cancel' t.max_fraction]
  have hvalue := t.value
  rw [digitsValue_append] at hvalue
  change (10 ^ t.fraction.length * digitsValue t.whole + _) * _ = a at hvalue
  refine Eq.trans ?_ hvalue
  rw [scaledValue, hpow]
  ring

theorem digitsValue_whole (t : AmountText places a) : digitsValue t.whole = a / 10 ^ places := by
  have hlt := scaledValue_lt t.isDigit_fraction t.max_fraction
  have heq := t.amount_eq
  symm
  apply Nat.div_eq_of_lt_le
  · rw [Nat.mul_comm]
    omega
  · rw [Nat.mul_comm, Nat.mul_succ]
    omega

theorem scaledValue_fraction (t : AmountText places a) :
    scaledValue places t.fraction = a % 10 ^ places := by
  have hlt := scaledValue_lt t.isDigit_fraction t.max_fraction
  have hmod := congrArg (· % 10 ^ places) t.amount_eq
  simp only [Nat.mul_add_mod, Nat.mod_eq_of_lt hlt] at hmod
  exact hmod

theorem length_whole (t : AmountText places a) :
    t.whole.length = digitCount (a / 10 ^ places) := by
  rw [← t.digitsValue_whole]
  refine length_eq_digitCount t.isDigit_whole t.whole_ne_nil fun h => t.no_leading_zero ?_
  rwa [whole, List.head?_append_of_ne_nil _ t.groups.first_ne_nil] at h

theorem length_flatten {rest : List QString} (h : ∀ g ∈ rest, g.length = 3) :
    rest.flatten.length = 3 * rest.length := by
  induction rest with
  | nil => rfl
  | cons g rest ih =>
    rw [List.flatten_cons, List.length_append, List.length_cons, h g List.mem_cons_self,
      ih fun x hx => h x (List.mem_cons_of_mem g hx)]
    omega

theorem length_groups (t : AmountText places a) :
    t.first.length = firstGroup (a / 10 ^ places) ∧
      digitCount (a / 10 ^ places) = t.first.length + 3 * t.rest.length := by
  have hlen := t.length_whole
  have hpos := List.length_pos_of_ne_nil t.groups.first_ne_nil
  have hmax := t.groups.first_length
  rw [whole, List.length_append, length_flatten t.groups.rest_length] at hlen
  unfold firstGroup
  omega

/-- What follows the first group; it begins with a comma or with the point. -/
def afterFirst (t : AmountText places a) : QString :=
  t.rest.flatMap (qchar ',' :: ·) ++ qchar '.' :: t.fraction

theorem text_eq (t : AmountText places a) : t.text = t.first ++ t.afterFirst :=
  List.append_assoc _ _ _

theorem afterFirst_lt (t : AmountText places a) {d : QChar} (hd : d.isDigit) (r : QString) :
    t.afterFirst < d :: r ∧ ¬d :: r < t.afterFirst := by
  have hbelow (c : QChar) (hc : c < 0x30) (s : QString) : c :: s < d :: r ∧ ¬d :: r < c :: s := by
    simp only [QChar.isDigit, Bool.and_eq_true, decide_eq_true_eq, UInt16.le_iff_toNat_le] at hd
    rw [UInt16.lt_iff_toNat_lt] at hc
    have hlt : c < d := by
      rw [UInt16.lt_iff_toNat_lt]
      omega
    refine ⟨List.cons_lt_cons_iff.mpr (Or.inl hlt), ?_⟩
    rw [List.cons_lt_cons_iff]
    rintro (hdc | ⟨rfl, -⟩)
    · exact UInt16.lt_asymm hdc hlt
    · exact UInt16.lt_irrefl _ hlt
  unfold afterFirst
  cases t.rest with
  | nil => exact hbelow _ (by decide) _
  | cons g rest => exact hbelow _ (by decide) _

theorem isDigit_first (t : AmountText places a) : ∀ c ∈ t.first, c.isDigit :=
  fun c hc => t.isDigit_whole c (List.mem_append_left _ hc)

theorem digitsValue_first (t : AmountText places a) {u v : QString} (h : t.first = u ++ v) :
    digitsValue u = leading u.length (a / 10 ^ places) := by
  have hwhole : t.whole = u ++ (v ++ t.rest.flatten) := by
    rw [whole, h, List.append_assoc]
  have hlen := t.length_whole
  have hrest : ∀ c ∈ v ++ t.rest.flatten, c.isDigit := by
    intro c hc
    apply t.isDigit_whole
    rw [hwhole]
    exact List.mem_append_right _ hc
  rw [← t.digitsValue_whole, hwhole] at hlen ⊢
  exact digitsValue_leading hrest hlen

/-- The text cut at one of its commas: whole groups, whose digits are leading ones, and the rest. -/
theorem exists_groups (t : AmountText places a) {k : ℕ} (hk : k < t.rest.length) :
    ∃ r after, r.length = k ∧ (∀ g ∈ r, g.length = 3) ∧
      (∀ c ∈ t.first ++ r.flatten, c.isDigit) ∧
      t.text = Grouping.joined (qchar ',') t.first r ++ qchar ',' :: after ∧
      digitsValue (t.first ++ r.flatten) =
        leading (t.first ++ r.flatten).length (a / 10 ^ places) := by
  obtain ⟨r, g, r', hsplit, hr⟩ : ∃ r g r', t.rest = r ++ g :: r' ∧ r.length = k := by
    refine ⟨t.rest.take k, t.rest[k], t.rest.drop (k + 1), ?_, by simp; omega⟩
    rw [← List.drop_eq_getElem_cons hk, List.take_append_drop]
  have hwhole : t.whole = (t.first ++ r.flatten) ++ (g :: r').flatten := by
    rw [whole, hsplit, List.flatten_append, List.append_assoc]
  have hrest : ∀ c ∈ (g :: r').flatten, c.isDigit := fun c hc =>
    t.isDigit_whole c (by rw [hwhole]; exact List.mem_append_right _ hc)
  refine ⟨r, g ++ r'.flatMap (qchar ',' :: ·) ++ qchar '.' :: t.fraction, hr, ?_, ?_, ?_, ?_⟩
  · exact fun x hx => t.groups.rest_length x (by rw [hsplit]; exact List.mem_append_left _ hx)
  · exact fun c hc => t.isDigit_whole c (by rw [hwhole]; exact List.mem_append_left _ hc)
  · simp [text, Grouping.joined, hsplit]
  · have hcounts := t.length_whole
    rw [← t.digitsValue_whole, hwhole] at hcounts ⊢
    exact digitsValue_leading hrest hcounts

section Compare

variable (s : AmountText places a) (t : AmountText places b)

/-- With equally many digits before the point the texts compare like the amounts. -/
theorem text_lt_of_sameCount (h : a < b)
    (hcount : digitCount (a / 10 ^ places) = digitCount (b / 10 ^ places)) : s.text < t.text := by
  have hfirst : s.first.length = t.first.length := by
    rw [s.length_groups.1, t.length_groups.1, firstGroup, firstGroup, hcount]
  have hrest : s.rest.length = t.rest.length := by
    have hs := s.length_groups.2
    have ht := t.length_groups.2
    omega
  have hlen : s.whole.length = t.whole.length := by
    rw [s.length_whole, t.length_whole, hcount]
  obtain ⟨hlt, heq⟩ := digits_lt_iff s.isDigit_whole t.isDigit_whole hlen
  rw [digitsValue_whole, digitsValue_whole] at hlt heq
  refine (Grouping.joined_lt_joined_iff (by decide) hfirst hrest s.groups.rest_length
    t.groups.rest_length _ _).mpr ?_
  change s.whole < t.whole ∨ s.whole = t.whole ∧ _
  rw [hlt, heq]
  rcases Nat.lt_or_ge (a / 10 ^ places) (b / 10 ^ places) with hwhole | hwhole
  · exact Or.inl hwhole
  · have hle := Nat.div_le_div_right (c := 10 ^ places) h.le
    have hsame : a / 10 ^ places = b / 10 ^ places := by omega
    have ha := Nat.div_add_mod a (10 ^ places)
    have hb := Nat.div_add_mod b (10 ^ places)
    have hfraction : scaledValue places s.fraction < scaledValue places t.fraction := by
      rw [s.scaledValue_fraction, t.scaledValue_fraction]
      rw [hsame] at ha
      omega
    exact Or.inr ⟨hsame, List.cons_lt_cons_iff.mpr (Or.inr ⟨rfl, fraction_lt s.isDigit_fraction
      t.isDigit_fraction s.max_fraction t.max_fraction hfraction⟩)⟩

/-- The shorter text is in order when its digits are below those that the longer one begins with;
where they agree, the point stands against a comma. -/
theorem text_lt_iff_sameGroup
    (hcount : digitCount (a / 10 ^ places) < digitCount (b / 10 ^ places))
    (hgroup : firstGroup (a / 10 ^ places) = firstGroup (b / 10 ^ places)) :
    s.text < t.text ↔
      a / 10 ^ places < leading (digitCount (a / 10 ^ places)) (b / 10 ^ places) := by
  have hfirst : s.first.length = t.first.length := by
    rw [s.length_groups.1, t.length_groups.1, hgroup]
  have hs := s.length_groups.2
  have ht := t.length_groups.2
  obtain ⟨r, after, hr, hlengths, hstart, htext, hlead⟩ :=
    t.exists_groups (k := s.rest.length) (by omega)
  have hlen : s.whole.length = (t.first ++ r.flatten).length := by
    rw [whole, List.length_append, List.length_append, hfirst,
      length_flatten s.groups.rest_length, length_flatten hlengths, hr]
  rw [← hlen, s.length_whole] at hlead
  have hpoint (u v : QString) : ¬qchar '.' :: u < qchar ',' :: v := by
    rw [List.cons_lt_cons_iff]
    exact fun h => h.elim (by decide) fun h => absurd h.1 (by decide)
  rw [htext, text, Grouping.joined_lt_joined_iff (by decide) hfirst hr.symm s.groups.rest_length
    hlengths]
  change s.whole < _ ∨ s.whole = _ ∧ _ ↔ _
  rw [(digits_lt_iff s.isDigit_whole hstart hlen).1, s.digitsValue_whole, hlead]
  exact or_iff_left fun h => hpoint _ _ h.2

/-- The first group of the one text ends inside that of the other: a comma or the point stands
against a digit, and is below it. -/
theorem text_lt_iff_shorterGroup (hgroup : s.first.length < t.first.length) :
    (s.text < t.text ↔ leading s.first.length (a / 10 ^ places) ≤
      leading s.first.length (b / 10 ^ places)) ∧
    (t.text < s.text ↔ leading s.first.length (b / 10 ^ places) <
      leading s.first.length (a / 10 ^ places)) := by
  obtain ⟨u, d, v, hsplit, hu⟩ : ∃ u d v, t.first = u ++ d :: v ∧ s.first.length = u.length := by
    refine ⟨t.first.take s.first.length, t.first[s.first.length],
      t.first.drop (s.first.length + 1), ?_, by simp; omega⟩
    rw [← List.drop_eq_getElem_cons hgroup, List.take_append_drop]
  have hmem (c : QChar) (hc : c ∈ u ++ d :: v) : c.isDigit :=
    t.isDigit_first c (by rw [hsplit]; exact hc)
  have hd := hmem d (by simp)
  have hstart : ∀ c ∈ u, c.isDigit := fun c hc => hmem c (List.mem_append_left _ hc)
  obtain ⟨hlt, heq⟩ := digits_lt_iff s.isDigit_first hstart hu
  obtain ⟨hgt, -⟩ := digits_lt_iff hstart s.isDigit_first hu.symm
  obtain ⟨hbelow, hnot⟩ := s.afterFirst_lt hd (v ++ t.afterFirst)
  have htext : t.text = u ++ (d :: (v ++ t.afterFirst)) := by
    rw [t.text_eq, hsplit, List.append_assoc, List.cons_append]
  have hs := s.digitsValue_first (v := []) (List.append_nil _).symm
  have ht := t.digitsValue_first hsplit
  rw [← hu] at ht
  rw [htext, s.text_eq, Grouping.append_lt_append_iff hu, Grouping.append_lt_append_iff hu.symm,
    hlt, heq, hgt, hs, ht]
  constructor
  · rw [and_iff_left hbelow]
    omega
  · exact or_iff_left fun h => hnot h.2

/-- Exactly in text order: the texts of two amounts compare like the amounts. -/
theorem text_lt_iff (h : a < b) :
    s.text < t.text ↔ InTextOrder (a / 10 ^ places) (b / 10 ^ places) := by
  have hle : a / 10 ^ places ≤ b / 10 ^ places := Nat.div_le_div_right h.le
  have hcounts : digitCount (a / 10 ^ places) ≤ digitCount (b / 10 ^ places) :=
    Nat.succ_le_succ (Nat.log_mono_right hle)
  unfold InTextOrder
  rcases hcounts.eq_or_lt with hcount | hcount
  · exact iff_of_true (s.text_lt_of_sameCount t h hcount) (Or.inl hcount)
  · rw [or_iff_right hcount.ne]
    rcases Nat.lt_trichotomy (firstGroup (a / 10 ^ places)) (firstGroup (b / 10 ^ places)) with
      hgroup | hgroup | hgroup
    · have hlen := hgroup
      rw [← s.length_groups.1, ← t.length_groups.1] at hlen
      rw [(s.text_lt_iff_shorterGroup t hlen).1, s.length_groups.1]
      omega
    · rw [s.text_lt_iff_sameGroup t hcount hgroup]
      omega
    · have hlen := hgroup
      rw [← s.length_groups.1, ← t.length_groups.1] at hlen
      rw [(t.text_lt_iff_shorterGroup s hlen).2, t.length_groups.1]
      omega

end Compare

end AmountText
end CurrencyAdapter
end ConcealDesktop
