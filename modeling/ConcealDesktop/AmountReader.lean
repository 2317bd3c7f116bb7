import ConcealDesktop.AmountText

/-! The amount field. A decimal text is digits with at most one point; parseAmount edits the text
before a lenient conversion reads it, and so reads some texts that are no decimal text. -/
namespace ConcealDesktop

namespace QString

theorem indexOf_eq_none {s : QString} {c : QChar} (h : ∀ d ∈ s, d ≠ c) : s.indexOf c = none := by
  apply List.findIdx?_eq_none_iff.mpr
  intro d hd
  simpa using h d hd

/-- Trimming cuts blanks off both ends. -/
theorem trimmed_split (s : QString) :
    ∃ left right, s = left ++ s.trimmed ++ right ∧ ∀ c ∈ left ++ right, c.isSpace := by
  refine ⟨s.takeWhile QChar.isSpace, (s.dropWhile QChar.isSpace).rtakeWhile QChar.isSpace, ?_, ?_⟩
  · rw [List.append_assoc, trimmed, List.rdropWhile_append_rtakeWhile,
      List.takeWhile_append_dropWhile]
  · intro c hc
    rcases List.mem_append.mp hc with hc | hc
    · exact List.mem_takeWhile_imp hc
    · exact List.mem_rtakeWhile_imp hc

theorem rdropWhile_append {right : QString} (hright : ∀ c ∈ right, c.isSpace) (s : QString) :
    (s ++ right).rdropWhile QChar.isSpace = s.rdropWhile QChar.isSpace := by
  induction right using List.reverseRecOn with
  | nil => rw [List.append_nil]
  | append_singleton right c ih =>
    rw [← List.append_assoc, List.rdropWhile_concat_pos _ _ _ (hright c (by simp)),
      ih fun d hd => hright d (by simp [hd])]

theorem trimmed_between {left s right : QString} (hblank : ∀ c ∈ left ++ right, c.isSpace)
    (hne : s ≠ []) (hhead : ∀ c, s.head? = some c → c.isSpace = false)
    (hlast : ∀ c, s.getLast? = some c → c.isSpace = false) :
    (left ++ s ++ right).trimmed = s := by
  have hleft : ∀ c ∈ left, c.isSpace := fun c hc => hblank c (List.mem_append_left _ hc)
  have hright : ∀ c ∈ right, c.isSpace := fun c hc => hblank c (List.mem_append_right _ hc)
  have hdrop : (s ++ right).dropWhile QChar.isSpace = s ++ right := by
    cases s with
    | nil => exact absurd rfl hne
    | cons c s => rw [List.cons_append, List.dropWhile_cons, if_neg (by simp [hhead c rfl])]
  rw [trimmed, List.append_assoc, List.dropWhile_append_of_pos hleft, hdrop,
    rdropWhile_append hright]
  apply List.rdropWhile_eq_self_iff.mpr
  intro _
  rw [hlast _ (List.getLast?_eq_some_getLast hne)]
  decide

theorem toULongLong_of_digits {s : QString} (hs : ∀ c ∈ s, c.isDigit) :
    s.toULongLong = if digitsValue s < 2 ^ 64 then UInt64.ofNat (digitsValue s) else 0 := by
  by_cases hne : s = []
  · rw [hne]
    rfl
  split_ifs with hlt
  · apply toULongLong_digits hne hs
    rw [UInt64.toNat_ofNat_of_lt' hlt]
  · have hsigned : ¬ (s.head? == some (qchar '+')) = true := by
      intro hplus
      have hdigit := hs _ (List.mem_of_mem_head? (by simpa using hplus))
      revert hdigit
      decide
    have htrim : s.trimmed = s := by
      apply trimmed_eq_self
      · exact fun c hc => QChar.not_isSpace_of_isDigit (hs c (List.mem_of_mem_head? hc))
      · exact fun c hc => QChar.not_isSpace_of_isDigit (hs c (List.mem_of_getLast? hc))
    unfold toULongLong
    simp only [htrim, hsigned]
    rw [if_neg fun h => hlt h.2.2]

end QString

namespace CurrencyAdapter
open QString

/-! ### Decimal texts -/

/-- What parseAmount looks for a number in. -/
def plainText (amountString : QString) : QString := amountString.trimmed.remove (qchar ',')

def wholePart (t : QString) : QString := t.takeWhile (· != qchar '.')

/-- The text after the first point. -/
def fractionPart (t : QString) : QString := (t.dropWhile (· != qchar '.')).tail

/-- Digits with at most one point and at least one digit, and only zeros beyond the places. -/
def IsDecimal (places : ℕ) (t : QString) : Prop :=
  wholePart t ++ fractionPart t ≠ [] ∧
    (∀ c ∈ wholePart t ++ fractionPart t, c.isDigit) ∧
    ∀ c ∈ (fractionPart t).drop places, c = qchar '0'

instance (places : ℕ) (t : QString) : Decidable (IsDecimal places t) :=
  inferInstanceAs (Decidable (_ ∧ _ ∧ _))

/-- The value of a decimal text times `10 ^ places`. -/
def decimalValue (places : ℕ) (t : QString) : ℕ :=
  digitsValue (wholePart t ++ fractionPart t) * 10 ^ places / 10 ^ (fractionPart t).length

/-- The reference reader: the value of a decimal text when it fits 64 bits, and zero otherwise. -/
def readDecimal (places : ℕ) (t : QString) : UInt64 :=
  if IsDecimal places t ∧ decimalValue places t < 2 ^ 64 then UInt64.ofNat (decimalValue places t)
  else 0

/-- The text without its first point and without the fraction digits beyond the places, filled
with zeros up to the places. -/
def scaledText (places : ℕ) (t : QString) : QString :=
  wholePart t ++ (fractionPart t).take places ++
    List.replicate (places - (fractionPart t).length) (qchar '0')

/-- A number that fits 64 bits behind a plus sign or between blanks. -/
def Disguised (x : QString) : Prop :=
  ∃ left sign digits right, x = left ++ sign ++ digits ++ right ∧ left ++ sign ++ right ≠ [] ∧
    (∀ c ∈ left ++ right, c.isSpace) ∧ (sign = [] ∨ sign = [qchar '+']) ∧
    (∀ c ∈ digits, c.isDigit) ∧ 0 < digitsValue digits ∧ digitsValue digits < 2 ^ 64

/-! ### The edited text -/

theorem wholePart_ne_point (t : QString) : ∀ c ∈ wholePart t, c ≠ qchar '.' := fun c hc => by
  simpa using List.mem_takeWhile_imp hc

/-- A text has no point, or is cut in two at the first one. -/
theorem split_at_point (t : QString) :
    (∀ c ∈ t, c ≠ qchar '.') ∧ t = wholePart t ∧ fractionPart t = [] ∨
      t = wholePart t ++ qchar '.' :: fractionPart t := by
  have hsplit : wholePart t ++ t.dropWhile (· != qchar '.') = t := List.takeWhile_append_dropWhile
  unfold fractionPart
  cases hdrop : t.dropWhile (· != qchar '.') with
  | nil =>
    rw [hdrop, List.append_nil] at hsplit
    refine Or.inl ⟨?_, hsplit.symm, rfl⟩
    rw [← hsplit]
    exact wholePart_ne_point t
  | cons c rest =>
    have hc : c = qchar '.' := by
      have hhead := Scanner.head?_dropWhile (congrArg List.head? hdrop)
      simpa using hhead
    rw [hdrop, hc] at hsplit
    exact Or.inr hsplit.symm

theorem endsWith_concat (s : QString) (c d : QChar) : (s ++ [c]).endsWith d = (c == d) := by
  rw [endsWith, List.getLast?_concat]
  rfl

theorem dropExcessZeros_concat (places : ℕ) (p f : QString) (c : QChar) :
    dropExcessZeros places (f ++ [c]).length (p ++ (f ++ [c])) =
      if places < f.length + 1 ∧ c = qchar '0' then dropExcessZeros places f.length (p ++ f)
      else (f.length + 1, p ++ (f ++ [c])) := by
  rw [List.length_append, List.length_singleton, dropExcessZeros, ← List.append_assoc,
    endsWith_concat, List.dropLast_concat]
  simp only [beq_iff_eq]

/-- The loop cuts the fraction to the places when only zeros stand beyond them. -/
theorem dropExcessZeros_of_zeros {places : ℕ} (p : QString) {f : QString}
    (h : ∀ c ∈ f.drop places, c = qchar '0') :
    dropExcessZeros places f.length (p ++ f) = (min f.length places, p ++ f.take places) := by
  induction f using List.reverseRecOn with
  | nil => simp [dropExcessZeros]
  | append_singleton f c ih =>
    rw [dropExcessZeros_concat]
    by_cases hlong : places < f.length + 1
    · have hdrop : (f ++ [c]).drop places = f.drop places ++ [c] :=
        List.drop_append_of_le_length (by omega)
      have htake : (f ++ [c]).take places = f.take places :=
        List.take_append_of_le_length (by omega)
      have hlen : min (f ++ [c]).length places = min f.length places := by
        rw [List.length_append, List.length_singleton]
        omega
      rw [hdrop] at h
      rw [if_pos ⟨hlong, h c (by simp)⟩, ih fun x hx => h x (by simp [hx]), htake, hlen]
    · have hlen : (f ++ [c]).length = f.length + 1 := List.length_append
      rw [if_neg fun hc => hlong hc.1, hlen, List.take_of_length_le (by omega),
        min_eq_left (by omega)]

/-- Otherwise it leaves too many fraction digits. -/
theorem dropExcessZeros_of_not_zeros {places : ℕ} (p : QString) {f : QString}
    (h : ¬ ∀ c ∈ f.drop places, c = qchar '0') :
    places < (dropExcessZeros places f.length (p ++ f)).1 := by
  induction f using List.reverseRecOn with
  | nil => exact absurd (by simp) h
  | append_singleton f c ih =>
    have hlong : places < f.length + 1 := by
      by_contra hshort
      apply h
      rw [List.drop_eq_nil_of_le (by simp; omega)]
      simp
    rw [dropExcessZeros_concat]
    split_ifs with hc
    · apply ih
      intro hzeros
      apply h
      rw [List.drop_append_of_le_length (by omega)]
      intro x hx
      rcases List.mem_append.mp hx with hx | hx
      · exact hzeros x hx
      · rw [List.mem_singleton.mp hx, hc.2]
    · exact hlong

theorem toULongLong_zeros (n : ℕ) : toULongLong (List.replicate n (qchar '0')) = 0 := by
  cases n with
  | zero => rfl
  | succ n =>
    apply toULongLong_digits
    · simp
    · intro c hc
      rw [(List.mem_replicate.mp hc).2]
      rfl
    · rw [digitsValue_zeros]
      rfl

theorem padAndConvert_eq (places n : ℕ) (s : QString) : padAndConvert places n s =
    (s ++ List.replicate (places - n) (qchar '0')).toULongLong := by
  unfold padAndConvert
  split_ifs with hs
  · rw [hs, List.nil_append, toULongLong_zeros]
  · rfl

theorem parseAmount_of_no_point (places : ℕ) {s : QString}
    (h : ∀ c ∈ plainText s, c ≠ qchar '.') : parseAmount places s =
      (plainText s ++ List.replicate places (qchar '0')).toULongLong := by
  have hplain : QString.remove (QString.trimmed s) (qchar ',') = plainText s := rfl
  unfold parseAmount
  simp only [hplain, indexOf_eq_none h]
  exact padAndConvert_eq places 0 _

theorem all_zeros_iff (f : QString) :
    f.all (· == qchar '0') = true ↔ ∀ c ∈ f, c = qchar '0' := by
  simp

theorem parseAmount_of_point (places : ℕ) {s w f : QString}
    (hplain : QString.remove (QString.trimmed s) (qchar ',') = w ++ qchar '.' :: f)
    (hw : ∀ c ∈ w, c ≠ qchar '.') : parseAmount places s =
      if (f.drop places).all (· == qchar '0') then
        (w ++ f.take places ++ List.replicate (places - f.length) (qchar '0')).toULongLong
      else 0 := by
  have hsize : (w ++ qchar '.' :: f).length - w.length - 1 = f.length := by
    rw [List.length_append, List.length_cons]
    omega
  unfold parseAmount
  simp only [hplain, indexOf_append hw, hsize]
  rw [List.append_cons]
  by_cases hzeros : ∀ c ∈ f.drop places, c = qchar '0'
  · have herase : (w ++ [qchar '.'] ++ f.take places).eraseIdx w.length = w ++ f.take places := by
      rw [← List.append_cons, List.eraseIdx_append_of_length_le le_rfl, Nat.sub_self,
        List.eraseIdx_cons_zero]
    have hpad : places - min f.length places = places - f.length := by omega
    rw [if_pos ((all_zeros_iff _).mpr hzeros), dropExcessZeros_of_zeros _ hzeros,
      if_neg (by simp), herase, padAndConvert_eq, hpad]
  · rw [if_neg (mt (all_zeros_iff _).mp hzeros), if_pos (dropExcessZeros_of_not_zeros _ hzeros)]

/-- The parser converts the scaled text, or returns zero when digits other than zero stand beyond
the places. -/
theorem parseAmount_eq (places : ℕ) (s : QString) : parseAmount places s =
    if ((fractionPart (plainText s)).drop places).all (· == qchar '0') then
      (scaledText places (plainText s)).toULongLong
    else 0 := by
  unfold scaledText
  rcases split_at_point (plainText s) with ⟨hno, hwhole, hfraction⟩ | hsplit
  · rw [hfraction, ← hwhole, parseAmount_of_no_point places hno]
    simp
  · exact parseAmount_of_point places hsplit (wholePart_ne_point _)

/-- The digits of toULongLong stand behind nothing or a plus sign. -/
theorem signed_split (t : QString) : ∃ sign, (sign = [] ∨ sign = [qchar '+']) ∧
    t = sign ++ if t.head? == some (qchar '+') then t.tail else t := by
  cases t with
  | nil => exact ⟨[], Or.inl rfl, rfl⟩
  | cons c t =>
    by_cases hc : c = qchar '+'
    · exact ⟨[qchar '+'], Or.inr rfl, by simp [hc]⟩
    · exact ⟨[], Or.inl rfl, by simp [hc]⟩

theorem signed_digits {sign digits : QString} (hsign : sign = [] ∨ sign = [qchar '+'])
    (hdigits : ∀ c ∈ digits, c.isDigit) :
    (if (sign ++ digits).head? == some (qchar '+') then (sign ++ digits).tail
      else sign ++ digits) = digits := by
  rcases hsign with rfl | rfl
  · cases digits with
    | nil => rfl
    | cons c digits =>
      have hc : c ≠ qchar '+' := QChar.ne_of_isDigit (hdigits c List.mem_cons_self) (by decide)
      simp [hc]
  · rfl

/-- Blanks around a number and a plus sign before it make no difference. -/
theorem toULongLong_between {left sign digits right : QString}
    (hblank : ∀ c ∈ left ++ right, c.isSpace) (hsign : sign = [] ∨ sign = [qchar '+'])
    (hne : digits ≠ []) (hdigits : ∀ c ∈ digits, c.isDigit) (hlt : digitsValue digits < 2 ^ 64) :
    (left ++ sign ++ digits ++ right).toULongLong = UInt64.ofNat (digitsValue digits) := by
  have hsigned : ∀ c ∈ sign ++ digits, c.isSpace = false := by
    intro c hc
    rcases List.mem_append.mp hc with hc | hc
    · rcases hsign with rfl | rfl
      · cases hc
      · rw [List.mem_singleton.mp hc]
        decide
    · exact QChar.not_isSpace_of_isDigit (hdigits c hc)
  have htrim : (left ++ sign ++ digits ++ right).trimmed = sign ++ digits := by
    rw [List.append_assoc left]
    apply trimmed_between hblank (List.append_ne_nil_of_right_ne_nil _ hne)
    · exact fun c hc => hsigned c (List.mem_of_mem_head? hc)
    · exact fun c hc => hsigned c (List.mem_of_getLast? hc)
  unfold toULongLong
  simp only [htrim, signed_digits hsign hdigits]
  exact if_pos ⟨hne, by simpa using hdigits, hlt⟩

/-- On a text that is not all digits the conversion finds a disguised number or nothing. -/
theorem toULongLong_ne_zero_iff {x : QString} (hx : ¬ ∀ c ∈ x, c.isDigit) :
    x.toULongLong ≠ 0 ↔ Disguised x := by
  constructor
  · intro hne
    obtain ⟨left, right, hsplit, hblank⟩ := trimmed_split x
    obtain ⟨sign, hsign, hsigned⟩ := signed_split x.trimmed
    unfold toULongLong at hne
    simp only at hne
    set digits := if x.trimmed.head? == some (qchar '+') then x.trimmed.tail else x.trimmed
    obtain ⟨hcond, hvalue⟩ := ite_ne_right_iff.mp hne
    have hall : ∀ c ∈ digits, c.isDigit := by simpa using hcond.2.1
    refine ⟨left, sign, digits, right, ?_, ?_, hblank, hsign, hall, ?_, hcond.2.2⟩
    · rw [List.append_assoc left, ← hsigned]
      exact hsplit
    · intro hnil
      obtain ⟨hleft, hright⟩ := List.append_eq_nil_iff.mp hnil
      apply hx
      rw [hsplit, hsigned, ← List.append_assoc, hleft, hright, List.append_nil, List.nil_append]
      exact hall
    · apply Nat.pos_of_ne_zero
      intro hzero
      exact hvalue (by rw [hzero]; rfl)
  · rintro ⟨left, sign, digits, right, rfl, -, hblank, hsign, hdigits, hpos, hlt⟩
    have hne : digits ≠ [] := by
      rintro rfl
      exact absurd hpos (by decide)
    rw [toULongLong_between hblank hsign hne hdigits hlt]
    intro hzero
    have hvalue := congrArg UInt64.toNat hzero
    rw [UInt64.toNat_ofNat_of_lt' hlt] at hvalue
    exact absurd hvalue (by show digitsValue digits ≠ 0; omega)

/-! ### Both readers -/

theorem digitsValue_take {places : ℕ} {w f : QString}
    (h : ∀ c ∈ f.drop places, c = qchar '0') :
    digitsValue (w ++ f) = 10 ^ (f.length - places) * digitsValue (w ++ f.take places) := by
  have hdrop : f.drop places = List.replicate (f.length - places) (qchar '0') := by
    rw [← List.length_drop]
    exact List.eq_replicate_of_mem h
  have hf : w ++ f = w ++ f.take places ++ List.replicate (f.length - places) (qchar '0') := by
    rw [← hdrop, List.append_assoc, List.take_append_drop]
  rw [hf, digitsValue_append, digitsValue_zeros, List.length_replicate, Nat.add_zero]

/-- The value of a decimal text has no digits beyond the places. -/
theorem decimalValue_exact {places : ℕ} {t : QString}
    (h : ∀ c ∈ (fractionPart t).drop places, c = qchar '0') :
    decimalValue places t * 10 ^ (fractionPart t).length =
      digitsValue (wholePart t ++ fractionPart t) * 10 ^ places := by
  apply Nat.div_mul_cancel
  by_cases hlong : (fractionPart t).length ≤ places
  · exact (Nat.pow_dvd_pow 10 hlong).mul_left _
  · have hlen : 10 ^ (fractionPart t).length =
        10 ^ ((fractionPart t).length - places) * 10 ^ places := by
      rw [← pow_add, Nat.sub_add_cancel (by omega)]
    rw [digitsValue_take h, hlen]
    exact Nat.mul_dvd_mul (Nat.dvd_mul_right _ _) dvd_rfl

theorem digitsValue_scaledText {places : ℕ} {t : QString}
    (h : ∀ c ∈ (fractionPart t).drop places, c = qchar '0') :
    digitsValue (scaledText places t) = decimalValue places t := by
  have hpow : 0 < 10 ^ (fractionPart t).length := Nat.pow_pos (by decide)
  apply Nat.eq_of_mul_eq_mul_right hpow
  rw [decimalValue_exact h, digitsValue_take h, scaledText, digitsValue_append,
    digitsValue_zeros, List.length_replicate, Nat.add_zero, Nat.mul_right_comm, ← pow_add,
    Nat.mul_right_comm, ← pow_add]
  congr 2
  omega

theorem scaledText_isDigit_iff {places : ℕ} {t : QString}
    (h : ∀ c ∈ (fractionPart t).drop places, c = qchar '0') :
    (∀ c ∈ scaledText places t, c.isDigit) ↔
      ∀ c ∈ wholePart t ++ fractionPart t, c.isDigit := by
  have hfill : ∀ c ∈ List.replicate (places - (fractionPart t).length) (qchar '0'),
      c.isDigit := by
    intro c hc
    rw [(List.mem_replicate.mp hc).2]
    rfl
  have hdrop : ∀ c ∈ (fractionPart t).drop places, c.isDigit := by
    intro c hc
    rw [h c hc]
    rfl
  unfold scaledText
  conv_rhs => rw [← List.take_append_drop places (fractionPart t)]
  simp only [List.forall_mem_append]
  tauto

theorem readDecimal_of_digits {places : ℕ} {t : QString}
    (hdigits : ∀ c ∈ wholePart t ++ fractionPart t, c.isDigit)
    (hzeros : ∀ c ∈ (fractionPart t).drop places, c = qchar '0') :
    readDecimal places t =
      if decimalValue places t < 2 ^ 64 then UInt64.ofNat (decimalValue places t) else 0 := by
  unfold readDecimal
  by_cases hne : wholePart t ++ fractionPart t = []
  · have hvalue : decimalValue places t = 0 := by
      rw [decimalValue, hne]
      simp [digitsValue]
    rw [if_neg fun h => h.1.1 hne, hvalue]
    rfl
  · exact if_congr (and_iff_right ⟨hne, hdigits, hzeros⟩) rfl rfl

theorem not_digits_of_disguised {x : QString} (h : Disguised x) : ¬ ∀ c ∈ x, c.isDigit := by
  obtain ⟨left, sign, digits, right, rfl, hframe, hblank, hsign, -⟩ := h
  intro hall
  obtain ⟨c, hc⟩ := List.exists_mem_of_ne_nil _ hframe
  have hdigit : c.isDigit := by
    apply hall
    simp only [List.mem_append] at hc ⊢
    tauto
  have hother : c.isSpace ∨ c = qchar '+' := by
    rcases List.mem_append.mp hc with hc | hc
    · rcases List.mem_append.mp hc with hc | hc
      · exact Or.inl (hblank c (List.mem_append_left _ hc))
      · rcases hsign with rfl | rfl
        · cases hc
        · exact Or.inr (List.mem_singleton.mp hc)
    · exact Or.inl (hblank c (List.mem_append_right _ hc))
  rcases hother with hspace | hplus
  · rw [QChar.not_isSpace_of_isDigit hdigit] at hspace
    cases hspace
  · exact QChar.ne_of_isDigit hdigit (by decide) hplus

/-- The parser agrees with the reference reader exactly when the text, without its first point, is
no number in disguise. -/
theorem parseAmount_eq_readDecimal_iff (places : ℕ) (s : QString) :
    parseAmount places s = readDecimal places (plainText s) ↔
      ¬ ((∀ c ∈ (fractionPart (plainText s)).drop places, c = qchar '0') ∧
        Disguised (scaledText places (plainText s))) := by
  rw [parseAmount_eq]
  set t := plainText s
  by_cases hzeros : ∀ c ∈ (fractionPart t).drop places, c = qchar '0'
  · rw [if_pos ((all_zeros_iff _).mpr hzeros)]
    by_cases hdigits : ∀ c ∈ scaledText places t, c.isDigit
    · rw [toULongLong_of_digits hdigits, digitsValue_scaledText hzeros,
        readDecimal_of_digits ((scaledText_isDigit_iff hzeros).mp hdigits) hzeros]
      exact iff_of_true rfl fun h => not_digits_of_disguised h.2 hdigits
    · have hnone : readDecimal places t = 0 :=
        if_neg fun h => hdigits ((scaledText_isDigit_iff hzeros).mpr h.1.2.1)
      rw [hnone, and_iff_right hzeros, ← toULongLong_ne_zero_iff hdigits, not_not]
  · rw [if_neg (mt (all_zeros_iff _).mp hzeros), readDecimal, if_neg fun h => hzeros h.1.2.2]
    exact iff_of_true rfl fun h => hzeros h.1

/-- A plus sign, or a comma or point that hid a blank, is read as if it were not there. -/
theorem parseAmount_disguised :
    parseAmount 6 (qstr "+5") = 5000000 ∧ readDecimal 6 (plainText (qstr "+5")) = 0 ∧
      parseAmount 6 (qstr "1.12345 ,") = 112345 ∧
      readDecimal 6 (plainText (qstr "1.12345 ,")) = 0 := by
  decide +kernel

end CurrencyAdapter
end ConcealDesktop
