import Mathlib.Tactic.Ring
import ConcealDesktop.Library.Grouping
import ConcealDesktop.CurrencyAdapter

/-! The text of an amount. The canonical text is stated by its parts alone, formatAmount is
shown to write it, and parseAmount to read every canonical text back. -/
namespace ConcealDesktop

theorem QChar.not_isSpace_of_isDigit {c : QChar} (h : c.isDigit) : c.isSpace = false := by
  simp only [QChar.isDigit, Bool.and_eq_true, decide_eq_true_eq, UInt16.le_iff_toNat_le] at h
  simp [QChar.isSpace, UInt16.le_iff_toNat_le, ← UInt16.toNat_inj] at *
  omega

theorem QChar.ne_of_isDigit {c d : QChar} (h : c.isDigit) (hd : d.isDigit = false) : c ≠ d := by
  rintro rfl
  rw [h] at hd
  cases hd

namespace QString

theorem indexOf_append {w t : QString} {c : QChar} (hw : ∀ d ∈ w, d ≠ c) :
    indexOf (w ++ c :: t) c = some w.length := by
  unfold indexOf
  induction w with
  | nil => rw [List.nil_append, List.findIdx?_cons, if_pos (beq_self_eq_true c)]; rfl
  | cons d w ih =>
    have hd : ¬ (d == c) = true := by simpa using hw d List.mem_cons_self
    rw [List.cons_append, List.findIdx?_cons, if_neg hd,
      ih fun x hx => hw x (List.mem_cons_of_mem d hx)]
    rfl

theorem insertIdx_append (w t : QString) (c : QChar) :
    (w ++ t).insertIdx w.length c = w ++ c :: t := by
  induction w with
  | nil => rfl
  | cons d w ih => rw [List.cons_append, List.length_cons, List.insertIdx_succ_cons, ih]; rfl

theorem digitsValue_foldl (s : QString) (n : ℕ) :
    s.foldl (fun n c => 10 * n + c.digitValue) n = 10 ^ s.length * n + digitsValue s := by
  unfold digitsValue
  induction s generalizing n with
  | nil => simp
  | cons c s ih =>
    rw [List.foldl_cons, ih, List.foldl_cons, ih (10 * 0 + c.digitValue), List.length_cons]
    ring

theorem digitsValue_append (s t : QString) :
    digitsValue (s ++ t) = 10 ^ t.length * digitsValue s + digitsValue t := by
  rw [← digitsValue_foldl, digitsValue, List.foldl_append]
  rfl

theorem digitsValue_zeros (n : ℕ) : digitsValue (List.replicate n (qchar '0')) = 0 := by
  induction n with
  | zero => rfl
  | succ n ih =>
    rw [List.replicate_succ', digitsValue_append, ih]
    rfl

theorem qchar_digitChar : ∀ d < 10, (qchar d.digitChar).isDigit ∧
    (qchar d.digitChar).digitValue = d ∧ (qchar d.digitChar = qchar '0' → d = 0) := by
  decide

theorem number_of_lt {n : ℕ} (hn : n < 10) : number n = [qchar n.digitChar] := by
  rw [number, Nat.toDigits_of_lt_base hn, List.map_singleton]

theorem number_of_le {n : ℕ} (hn : 10 ≤ n) :
    number n = number (n / 10) ++ [qchar (n % 10).digitChar] := by
  rw [number, Nat.toDigits_of_base_le (by omega) hn, List.map_append, List.map_singleton]
  rfl

theorem isDigit_of_mem_number (n : ℕ) : ∀ c ∈ number n, c.isDigit := by
  induction n using Nat.strong_induction_on with
  | _ n ih =>
    by_cases hn : n < 10
    · rw [number_of_lt hn]
      simpa using (qchar_digitChar n hn).1
    · have hlast := (qchar_digitChar (n % 10) (by omega)).1
      rw [number_of_le (by omega)]
      intro c hc
      rcases List.mem_append.mp hc with hc | hc
      · exact ih (n / 10) (by omega) c hc
      · rw [List.mem_singleton.mp hc, hlast]

theorem digitsValue_number (n : ℕ) : digitsValue (number n) = n := by
  induction n using Nat.strong_induction_on with
  | _ n ih =>
    by_cases hn : n < 10
    · rw [number_of_lt hn]
      show 10 * 0 + (qchar n.digitChar).digitValue = n
      rw [(qchar_digitChar n hn).2.1]
      omega
    · have hlast := (qchar_digitChar (n % 10) (by omega)).2.1
      rw [number_of_le (by omega), digitsValue_append, ih (n / 10) (by omega)]
      show 10 ^ 1 * (n / 10) + (10 * 0 + (qchar (n % 10).digitChar).digitValue) = n
      omega

/-- Only zero is written with a leading zero. -/
theorem number_head {n : ℕ} (h : (number n).head? = some (qchar '0')) : n = 0 := by
  induction n using Nat.strong_induction_on with
  | _ n ih =>
    by_cases hn : n < 10
    · rw [number_of_lt hn, List.head?_cons, Option.some.injEq] at h
      exact (qchar_digitChar n hn).2.2 h
    · have hne : number (n / 10) ≠ [] := by
        unfold number
        simp
      rw [number_of_le (by omega), List.head?_append_of_ne_nil _ hne] at h
      have := ih (n / 10) (by omega) h
      omega

/-- A digit string is converted to its value when that fits 64 bits. -/
theorem toULongLong_digits {s : QString} (hne : s ≠ []) (hs : ∀ c ∈ s, c.isDigit) {n : UInt64}
    (hn : digitsValue s = n.toNat) : s.toULongLong = n := by
  have hhead : ∀ c, s.head? = some c → c.isDigit := fun c hc => hs c (List.mem_of_mem_head? hc)
  have htrim : s.trimmed = s := by
    apply trimmed_eq_self
    · exact fun c hc => QChar.not_isSpace_of_isDigit (hhead c hc)
    · exact fun c hc => QChar.not_isSpace_of_isDigit (hs c (List.mem_of_getLast? hc))
  have hplus : ¬ (s.head? == some (qchar '+')) = true := by
    intro h
    exact QChar.ne_of_isDigit (hhead _ (by simpa using h)) (by decide) rfl
  have hlt : digitsValue s < 2 ^ 64 := hn ▸ n.toNat_lt
  unfold toULongLong
  simp only [htrim, hplus]
  rw [if_neg Bool.false_ne_true, if_pos ⟨hne, by simpa using hs, hlt⟩, hn, UInt64.ofNat_toNat]

end QString

namespace CurrencyAdapter

/-- The canonical text of `amount / 10 ^ places`, given by its parts. -/
structure AmountText (places amount : ℕ) where
  first : QString
  rest : List QString
  fraction : QString
  groups : Grouping.FromEnd 3 first rest
  digits : ∀ c ∈ first ++ rest.flatten ++ fraction, c.isDigit
  no_leading_zero : first.head? = some (qchar '0') → first ++ rest.flatten = [qchar '0']
  min_fraction : min places 2 ≤ fraction.length
  max_fraction : fraction.length ≤ places
  no_trailing_zero : 2 < fraction.length → fraction.getLast? ≠ some (qchar '0')
  value : QString.digitsValue (first ++ rest.flatten ++ fraction) * 10 ^ (places - fraction.length)
    = amount

namespace AmountText

variable {places amount : ℕ}

def whole (t : AmountText places amount) : QString := t.first ++ t.rest.flatten

/-- The parts with their commas and the point. -/
def text (t : AmountText places amount) : QString :=
  Grouping.joined (qchar ',') t.first t.rest ++ qchar '.' :: t.fraction

theorem whole_ne_nil (t : AmountText places amount) : t.whole ≠ [] :=
  List.append_ne_nil_of_left_ne_nil t.groups.first_ne_nil _

end AmountText

/-- The trimming loop drops zeros from the end and stops two places after the point, at a
digit other than zero, or at the end of a shorter text. -/
theorem removeTrailingZeros_spec (dotPos pos : ℕ) (s : QString) (hs : s.length = pos + 1) :
    ∃ k, s = removeTrailingZeros dotPos pos s ++ List.replicate k (qchar '0') ∧
      min (pos + 1) (dotPos + 2) ≤ (removeTrailingZeros dotPos pos s).length ∧
      (dotPos + 2 < (removeTrailingZeros dotPos pos s).length →
        (removeTrailingZeros dotPos pos s).getLast? ≠ some (qchar '0')) := by
  induction pos generalizing s with
  | zero =>
    unfold removeTrailingZeros
    exact ⟨0, by simp, by omega, fun h => by omega⟩
  | succ pos ih =>
    have hlast : s.getLast? = s[pos + 1]? := by rw [List.getLast?_eq_getElem?, hs]; rfl
    unfold removeTrailingZeros
    split_ifs with hzero
    · have hne : s ≠ [] := List.ne_nil_of_length_pos (by omega)
      have hdrop : s.eraseIdx (pos + 1) = s.dropLast := by
        rw [List.dropLast_eq_eraseIdx hs.symm]
      have hend : s.getLast hne = qchar '0' := by
        rw [← Option.some.injEq, ← List.getLast?_eq_some_getLast, hlast, hzero.2]
      obtain ⟨k, hk, hmin, hnz⟩ := ih s.dropLast (by rw [List.length_dropLast, hs]; rfl)
      rw [hdrop]
      refine ⟨k + 1, ?_, by omega, hnz⟩
      calc s = s.dropLast ++ [s.getLast hne] := (List.dropLast_append_getLast hne).symm
        _ = _ := by rw [hend, List.replicate_succ', ← List.append_assoc, ← hk]
    · rw [hlast]
      refine ⟨0, by simp, by omega, fun hlen hz => hzero ⟨by omega, hz⟩⟩

theorem groupThousands_of_pos {pos : ℕ} (hpos : 0 < pos) (s : QString) :
    groupThousands pos s = groupThousands (pos - 3) (insertComma pos s) := by
  match pos with
  | 1 => rfl
  | 2 => rfl
  | pos + 3 => rfl

theorem insertComma_append {w : QString} (hne : w ≠ []) (hw : ∀ c ∈ w, c.isDigit)
    (t : QString) : insertComma w.length (w ++ t) = w ++ qchar ',' :: t := by
  have hpos : 0 < w.length := List.length_pos_of_ne_nil hne
  have hdigit : (w ++ t)[w.length - 1]?.any QChar.isDigit := by
    rw [List.getElem?_append_left (by omega), List.getElem?_eq_getElem (by omega)]
    exact hw _ (List.getElem_mem _)
  rw [insertComma, if_pos hdigit, QString.insertIdx_append]

/-- The grouping loop cuts the integer part into threes, whatever follows it. -/
theorem groupThousands_spec (w : QString) (hne : w ≠ []) (hw : ∀ c ∈ w, c.isDigit)
    (t : QString) : ∃ first rest, Grouping.FromEnd 3 first rest ∧ first ++ rest.flatten = w ∧
      groupThousands (w.length - 3) (w ++ t) = Grouping.joined (qchar ',') first rest ++ t := by
  induction hn : w.length using Nat.strong_induction_on generalizing w t with
  | _ n ih =>
    by_cases hshort : n ≤ 3
    · refine ⟨w, [], Grouping.FromEnd.single hne (by omega), by simp, ?_⟩
      rw [Nat.sub_eq_zero_of_le hshort]
      simp [groupThousands, Grouping.joined]
    · -- the last three digits are cut off, and the loop goes on before them
      obtain ⟨v, g, hcut, hv⟩ : ∃ v g, w = v ++ g ∧ v.length = n - 3 :=
        ⟨w.take (n - 3), w.drop (n - 3), (List.take_append_drop _ w).symm, by simp; omega⟩
      have hg : g.length = 3 := by
        have := congrArg List.length hcut
        rw [List.length_append] at this
        omega
      have hvne : v ≠ [] := List.ne_nil_of_length_pos (by omega)
      have hvd : ∀ c ∈ v, c.isDigit :=
        fun c hc => hw c (by rw [hcut]; exact List.mem_append_left _ hc)
      obtain ⟨first, rest, hgroups, hflat, hloop⟩ :=
        ih (n - 3) (by omega) v hvne hvd (qchar ',' :: (g ++ t)) hv
      refine ⟨first, rest ++ [g], hgroups.concat hg, ?_, ?_⟩
      · rw [List.flatten_concat, ← List.append_assoc, hflat, hcut]
      · rw [groupThousands_of_pos (by omega), hcut, List.append_assoc, ← hv,
          insertComma_append hvne hvd, hv, hloop, Grouping.joined_concat, List.append_assoc]
        rfl

/-- The digits of an amount, padded so that at least one stands before the point. -/
def paddedDigits (places : ℕ) (amount : UInt64) : QString :=
  (QString.number amount.toNat).rightJustified (places + 1) (qchar '0')

structure PaddedFacts (places : ℕ) (amount : ℕ) (s : QString) : Prop where
  digits : ∀ c ∈ s, c.isDigit
  value : QString.digitsValue s = amount
  length : places + 1 ≤ s.length
  leading : s.head? = some (qchar '0') → s.length = places + 1

theorem paddedDigits_facts (places : ℕ) (amount : UInt64) :
    PaddedFacts places amount.toNat (paddedDigits places amount) := by
  unfold paddedDigits QString.rightJustified
  constructor
  · intro c hc
    rcases List.mem_append.mp hc with hc | hc
    · rw [(List.mem_replicate.mp hc).2]
      rfl
    · exact QString.isDigit_of_mem_number _ c hc
  · rw [QString.digitsValue_append, QString.digitsValue_zeros, QString.digitsValue_number]
    omega
  · rw [List.length_append, List.length_replicate]
    omega
  · intro hhead
    rw [List.length_append, List.length_replicate]
    by_cases hlen : (QString.number amount.toNat).length ≤ places + 1
    · omega
    · -- no padding: the text starts with the digits themselves, so the amount is zero
      rw [Nat.sub_eq_zero_of_le (by omega), List.replicate_zero, List.nil_append] at hhead
      rw [QString.number_head hhead, QString.number_of_lt (by omega)] at hlen
      simp at hlen

theorem formatAmount_eq (places : ℕ) (amount : UInt64) :
    formatAmount places amount =
      let s := paddedDigits places amount
      groupThousands (s.length - places - 3)
        ((removeTrailingZeros (s.length - places) (s.length - 1) s).insertIdx
          (s.length - places) (qchar '.')) := by
  unfold formatAmount paddedDigits
  by_cases hlen : (QString.number amount.toNat).length < places + 1
  · simp only [hlen, ↓reduceIte]
  · have hpad : (QString.number amount.toNat).rightJustified (places + 1) (qchar '0') =
        QString.number amount.toNat := by
      rw [QString.rightJustified, Nat.sub_eq_zero_of_le (by omega), List.replicate_zero,
        List.nil_append]
    simp only [hlen, ↓reduceIte, hpad]

theorem formatAmount_text (places : ℕ) (amount : UInt64) :
    ∃ t : AmountText places amount.toNat, formatAmount places amount = t.text := by
  have facts := paddedDigits_facts places amount
  rw [formatAmount_eq]
  set s := paddedDigits places amount with hs
  show ∃ t : AmountText places amount.toNat, groupThousands _ _ = t.text
  set dotPos := s.length - places with hdot
  have hlen := facts.length
  obtain ⟨k, hcut, hmin, hlast⟩ := removeTrailingZeros_spec dotPos (s.length - 1) s (by omega)
  set r := removeTrailingZeros dotPos (s.length - 1) s with hr
  -- the trimmed text is the integer part and what is left of the fraction
  obtain ⟨w, f, hwf, hw⟩ : ∃ w f, r = w ++ f ∧ w.length = dotPos :=
    ⟨r.take dotPos, r.drop dotPos, (List.take_append_drop _ r).symm, by simp; omega⟩
  have hsplit : s = w ++ (f ++ List.replicate k (qchar '0')) := by
    rw [← List.append_assoc, ← hwf, ← hcut]
  have hrlen : r.length = dotPos + f.length := by rw [hwf, List.length_append, hw]
  have hslen : s.length = dotPos + f.length + k := by
    rw [hcut, List.length_append, hrlen, List.length_replicate]
  have hne : w ≠ [] := List.ne_nil_of_length_pos (by omega)
  have hwd : ∀ c ∈ w, c.isDigit := fun c hc =>
    facts.digits c (by rw [hsplit]; exact List.mem_append_left _ hc)
  obtain ⟨first, rest, hgroups, hflat, hloop⟩ := groupThousands_spec w hne hwd (qchar '.' :: f)
  have hfirst : w.head? = first.head? := by
    rw [← hflat, List.head?_append_of_ne_nil _ hgroups.first_ne_nil]
  have hhead : s.head? = w.head? := by
    rw [hsplit, List.head?_append_of_ne_nil _ hne]
  have hout : groupThousands (dotPos - 3) (r.insertIdx dotPos (qchar '.')) =
      Grouping.joined (qchar ',') first rest ++ qchar '.' :: f := by
    rw [hwf, ← hw, QString.insertIdx_append, hloop]
  refine ⟨⟨first, rest, f, hgroups, ?_, ?_, by omega, by omega, ?_, ?_⟩, hout⟩
  · rw [hflat]
    intro c hc
    apply facts.digits
    rw [hsplit, ← List.append_assoc]
    exact List.mem_append_left _ hc
  · intro hzero
    rw [← hfirst] at hzero
    have hone : w.length = 1 := by
      have := facts.leading (hhead.trans hzero)
      omega
    obtain ⟨c, hc⟩ := List.length_eq_one_iff.mp hone
    rw [hc, List.head?_cons, Option.some.injEq] at hzero
    rw [hflat, hc, hzero]
  · intro hlong
    have hfne : f ≠ [] := List.ne_nil_of_length_pos (by omega)
    rw [← List.getLast?_append_of_ne_nil w hfne, ← hwf]
    exact hlast (by omega)
  · have hzeros : places - f.length = k := by omega
    have hvalue := facts.value
    rw [hsplit, ← List.append_assoc, QString.digitsValue_append, QString.digitsValue_zeros,
      List.length_replicate] at hvalue
    rw [hflat, hzeros, ← hvalue]
    ring

namespace AmountText

variable {places amount : ℕ}

theorem isDigit_whole (t : AmountText places amount) : ∀ c ∈ t.whole, c.isDigit :=
  fun c hc => t.digits c (List.mem_append_left _ hc)

theorem isDigit_fraction (t : AmountText places amount) : ∀ c ∈ t.fraction, c.isDigit :=
  fun c hc => t.digits c (List.mem_append_right _ hc)

/-- The text starts with a digit and ends with a digit or the point. -/
theorem trimmed_text (t : AmountText places amount) : t.text.trimmed = t.text := by
  have hfirst := t.groups.first_ne_nil
  apply QString.trimmed_eq_self
  · intro c hc
    unfold text Grouping.joined at hc
    rw [List.append_assoc, List.head?_append_of_ne_nil _ hfirst] at hc
    apply QChar.not_isSpace_of_isDigit
    apply t.isDigit_whole
    exact List.mem_append_left _ (List.mem_of_mem_head? hc)
  · intro c hc
    unfold text at hc
    rw [List.getLast?_append_of_ne_nil _ (List.cons_ne_nil _ _), List.getLast?_cons] at hc
    cases hlast : t.fraction.getLast? with
    | none =>
      rw [hlast, Option.getD_none, Option.some.injEq] at hc
      rw [← hc]
      decide
    | some d =>
      rw [hlast, Option.getD_some, Option.some.injEq] at hc
      rw [← hc]
      exact QChar.not_isSpace_of_isDigit (t.isDigit_fraction d (List.mem_of_getLast? hlast))

theorem remove_text (t : AmountText places amount) :
    t.text.remove (qchar ',') = t.whole ++ qchar '.' :: t.fraction := by
  have hwhole : ∀ c ∈ t.first ++ t.rest.flatten, c ≠ qchar ',' :=
    fun c hc => QChar.ne_of_isDigit (t.isDigit_whole c hc) (by decide)
  have hfraction : (qchar '.' :: t.fraction).filter (· != qchar ',') = qchar '.' :: t.fraction := by
    apply List.filter_eq_self.mpr
    intro c hc
    rcases List.mem_cons.mp hc with rfl | hc
    · decide
    · simpa using QChar.ne_of_isDigit (t.isDigit_fraction c hc) (by decide)
  unfold QString.remove text
  rw [List.filter_append, Grouping.filter_joined hwhole, hfraction]
  rfl

end AmountText

theorem dropExcessZeros_of_le {places n : ℕ} (hn : n ≤ places) (s : QString) :
    dropExcessZeros places n s = (n, s) := by
  cases n with
  | zero => rfl
  | succ n => rw [dropExcessZeros, if_neg (by omega)]

/-- Every canonical text is read as the amount it shows. -/
theorem parseAmount_text {places : ℕ} {amount : UInt64} (t : AmountText places amount.toNat) :
    parseAmount places t.text = amount := by
  have hpoint : (t.whole ++ qchar '.' :: t.fraction).indexOf (qchar '.') = some t.whole.length :=
    QString.indexOf_append fun c hc => QChar.ne_of_isDigit (t.isDigit_whole c hc) (by decide)
  have hsize : (t.whole ++ qchar '.' :: t.fraction).length - t.whole.length - 1 =
      t.fraction.length := by
    rw [List.length_append, List.length_cons]
    omega
  have herase : (t.whole ++ qchar '.' :: t.fraction).eraseIdx t.whole.length =
      t.whole ++ t.fraction := by
    rw [List.eraseIdx_append_of_length_le le_rfl, Nat.sub_self, List.eraseIdx_cons_zero]
  have hne : t.whole ++ t.fraction ≠ [] := List.append_ne_nil_of_left_ne_nil t.whole_ne_nil _
  have hmax := t.max_fraction
  unfold parseAmount
  simp only [t.trimmed_text, t.remove_text, hpoint, hsize, dropExcessZeros_of_le hmax, herase]
  rw [if_neg (by omega), padAndConvert, if_neg hne]
  apply QString.toULongLong_digits
  · exact List.append_ne_nil_of_left_ne_nil hne _
  · intro c hc
    rcases List.mem_append.mp hc with hc | hc
    · exact t.digits c hc
    · rw [(List.mem_replicate.mp hc).2]
      rfl
  · rw [QString.digitsValue_append, QString.digitsValue_zeros, List.length_replicate, Nat.add_zero,
      Nat.mul_comm]
    exact t.value

/-- The formatter writes the canonical text of every amount, and the parser reads it back. -/
theorem formatAmount_canonical (places : ℕ) (amount : UInt64) :
    (∃ t : AmountText places amount.toNat, formatAmount places amount = t.text) ∧
      parseAmount places (formatAmount places amount) = amount := by
  obtain ⟨t, ht⟩ := formatAmount_text places amount
  exact ⟨⟨t, ht⟩, by rw [ht, parseAmount_text t]⟩

end CurrencyAdapter
end ConcealDesktop
