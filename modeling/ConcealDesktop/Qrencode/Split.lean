import ConcealDesktop.Qrencode.Segments

/-! How libqrencode splits a string into entries. A string is the list of its bytes and ends
before the first zero byte or with the list; `*p` is the first byte of what is left, or zero. The
hint is QR_MODE_8, so no characters are looked at as kanji, and the string is case sensitive. -/
namespace ConcealDesktop.Qrencode
open QRencodeMode

section Source

def isdigit (c : UInt8) : Bool := c - 48 < 10

def isalnum (c : UInt8) : Bool := 0 ≤ QRinput_lookAnTable c

def Split_identifyMode (string : List UInt8) : QRencodeMode :=
  let c := string.headD 0
  if c = 0 then QR_MODE_NUL
  else if isdigit c then QR_MODE_NUM
  else if isalnum c then QR_MODE_AN
  else QR_MODE_8

end Source

/-- The characters of a C string. -/
def cString (string : List UInt8) : List UInt8 := string.takeWhile (· ≠ 0)

section Characters

theorem isdigit_isalnum {c : UInt8} (h : isdigit c = true) : isalnum c = true := by
  have hall : ∀ n < 256, isdigit (UInt8.ofNat n) = true → isalnum (UInt8.ofNat n) = true := by
    decide +kernel
  have hc := hall c.toNat c.toNat_lt
  rw [UInt8.ofNat_toNat] at hc
  exact hc h

theorem isdigit_iff (c : UInt8) : isdigit c = true ↔ ¬(c < 48 ∨ c > 57) := by
  have hall : ∀ n < 256, isdigit (UInt8.ofNat n) = true ↔
      ¬(UInt8.ofNat n < 48 ∨ UInt8.ofNat n > 57) := by
    decide +kernel
  have hc := hall c.toNat c.toNat_lt
  rwa [UInt8.ofNat_toNat] at hc

theorem isalnum_ne_zero {c : UInt8} (h : isalnum c = true) : c ≠ 0 := by
  rintro rfl
  exact absurd h (by decide)

theorem isdigit_ne_zero {c : UInt8} (h : isdigit c = true) : c ≠ 0 :=
  isalnum_ne_zero (isdigit_isalnum h)

theorem identifyMode_num {p : List UInt8} (h : Split_identifyMode p = QR_MODE_NUM) :
    isdigit (p.headD 0) = true := by
  unfold Split_identifyMode at h
  simp only at h
  split_ifs at h with _ hdigit
  exact hdigit

theorem identifyMode_an {p : List UInt8} (h : Split_identifyMode p = QR_MODE_AN) :
    isalnum (p.headD 0) = true ∧ isdigit (p.headD 0) = false := by
  unfold Split_identifyMode at h
  simp only at h
  split_ifs at h with _ hdigit halnum
  exact ⟨halnum, Bool.eq_false_iff.mpr hdigit⟩

theorem length_dropWhile_lt {f : UInt8 → Bool} (hf : ∀ c, f c = true → c ≠ 0) {p : List UInt8}
    (h : f (p.headD 0) = true) : (p.dropWhile f).length < p.length := by
  cases p with
  | nil => exact absurd rfl (hf 0 h)
  | cons c rest =>
    have hc : f c = true := h
    rw [List.dropWhile_cons_of_pos hc]
    exact Nat.lt_succ_of_le (List.dropWhile_sublist f).length_le

theorem length_tail_lt {p : List UInt8} (h : p.headD 0 ≠ 0) : p.tail.length < p.length := by
  cases p with
  | nil => exact absurd rfl h
  | cons c rest => exact Nat.lt_succ_self _

end Characters

section Source

/-- The value `dif` in the loop of Split_eat8: `run` bytes behind, `length` characters in front
that another mode with a count of `l` bits writes in `bits` bits, and `q` after them. -/
def eat8Dif (version run length bits l : ℕ) (q : List UInt8) : ℤ :=
  let l8 := QRspec_lengthIndicator QR_MODE_8 version
  let swcost := if Split_identifyMode q = QR_MODE_8 then 4 + l8 else 0
  QRinput_estimateBitsMode8 run + bits + 4 + l + swcost - QRinput_estimateBitsMode8 (run + length)

def eat8DifNum (version run : ℕ) (p : List UInt8) : ℤ :=
  let length := (p.takeWhile isdigit).length
  eat8Dif version run length (QRinput_estimateBitsModeNum length)
    (QRspec_lengthIndicator QR_MODE_NUM version) (p.dropWhile isdigit)

def eat8DifAn (version run : ℕ) (p : List UInt8) : ℤ :=
  let length := (p.takeWhile isalnum).length
  eat8Dif version run length (QRinput_estimateBitsModeAn length)
    (QRspec_lengthIndicator QR_MODE_AN version) (p.dropWhile isalnum)

/-- The loop of Split_eat8 from `p` on, where `run` is `p - string`; its result is `run` at the
end. -/
def eat8Run (version run : ℕ) (p : List UInt8) : ℕ :=
  if p.headD 0 = 0 then run
  else if Split_identifyMode p = QR_MODE_NUM then
    if eat8DifNum version run p < 0 then run
    else eat8Run version (run + (p.takeWhile isdigit).length) (p.dropWhile isdigit)
  else if Split_identifyMode p = QR_MODE_AN then
    if eat8DifAn version run p < 0 then run
    else eat8Run version (run + (p.takeWhile isalnum).length) (p.dropWhile isalnum)
  else eat8Run version (run + 1) p.tail
termination_by p.length
decreasing_by
  · exact length_dropWhile_lt (fun _ => isdigit_ne_zero) (identifyMode_num ‹_›)
  · exact length_dropWhile_lt (fun _ => isalnum_ne_zero) (identifyMode_an ‹_›).1
  · exact length_tail_lt ‹_›

def Split_eat8 (string : List UInt8) (input : QRinput) : Option (QRinput × ℕ) :=
  let run := eat8Run input.version 1 string.tail
  (QRinput_append input QR_MODE_8 (string.take run)).map fun input => (input, run)

/-- The value `dif` in the loop of Split_eatAn before the digits at `p`. -/
def eatAnDif (version run : ℕ) (p : List UInt8) : ℤ :=
  let ln := QRspec_lengthIndicator QR_MODE_NUM version
  let length := (p.takeWhile isdigit).length
  QRinput_estimateBitsModeAn run + QRinput_estimateBitsModeNum length + 4 + ln +
    (if isalnum ((p.dropWhile isdigit).headD 0) then 4 + ln else 0) -
    QRinput_estimateBitsModeAn (run + length)

/-- The loop of Split_eatAn from `p` on. -/
def eatAnRun (version run : ℕ) (p : List UInt8) : ℕ :=
  if isalnum (p.headD 0) then
    if isdigit (p.headD 0) then
      if eatAnDif version run p < 0 then run
      else eatAnRun version (run + (p.takeWhile isdigit).length) (p.dropWhile isdigit)
    else eatAnRun version (run + 1) p.tail
  else run
termination_by p.length
decreasing_by
  · exact length_dropWhile_lt (fun _ => isdigit_ne_zero) ‹_›
  · exact length_tail_lt (isalnum_ne_zero ‹_›)

def Split_eatAn (string : List UInt8) (input : QRinput) : Option (QRinput × ℕ) :=
  let la := QRspec_lengthIndicator QR_MODE_AN input.version
  let run := eatAnRun input.version 0 string
  let p := string.drop run
  let dif : ℤ := QRinput_estimateBitsModeAn run + 4 + la + QRinput_estimateBitsMode8 1 -
    QRinput_estimateBitsMode8 (run + 1)
  if (p.headD 0 ≠ 0 ∧ isalnum (p.headD 0) = false) ∧ dif > 0 then Split_eat8 string input
  else (QRinput_append input QR_MODE_AN (string.take run)).map fun input => (input, run)

def Split_eatNum (string : List UInt8) (input : QRinput) : Option (QRinput × ℕ) :=
  let ln := QRspec_lengthIndicator QR_MODE_NUM input.version
  let run := (string.takeWhile isdigit).length
  let mode := Split_identifyMode (string.dropWhile isdigit)
  let dif8 : ℤ := QRinput_estimateBitsModeNum run + 4 + ln + QRinput_estimateBitsMode8 1 -
    QRinput_estimateBitsMode8 (run + 1)
  let difAn : ℤ := QRinput_estimateBitsModeNum run + 4 + ln + QRinput_estimateBitsModeAn 1 -
    QRinput_estimateBitsModeAn (run + 1)
  if mode = QR_MODE_8 ∧ dif8 > 0 then Split_eat8 string input
  else if mode = QR_MODE_AN ∧ difAn > 0 then Split_eatAn string input
  else (QRinput_append input QR_MODE_NUM (string.take run)).map fun input => (input, run)

/-- One round of Split_splitString. -/
def eatSome (string : List UInt8) (input : QRinput) : Option (QRinput × ℕ) :=
  let mode := Split_identifyMode string
  if mode = QR_MODE_NUM then Split_eatNum string input
  else if mode = QR_MODE_AN then Split_eatAn string input
  else Split_eat8 string input

/-- Split_splitString; `none` is the result -1. -/
def Split_splitString (string : List UInt8) (input : QRinput) : Option QRinput :=
  if string.headD 0 = 0 then some input
  else
    match eatSome string input with
    | none => none
    | some (input, length) =>
      if length = 0 then some input else Split_splitString (string.drop length) input
termination_by string.length
decreasing_by
  have hlt := length_tail_lt ‹string.headD 0 ≠ 0›
  rw [List.length_drop]
  omega

/-- Split_splitStringToQRinput of a case sensitive string. -/
def Split_splitStringToQRinput (string : List UInt8) (input : QRinput) : Option QRinput :=
  if string.headD 0 = 0 then none else Split_splitString string input

end Source

section Runs

theorem takeWhile_append {f g : UInt8 → Bool} (hfg : ∀ c, f c = true → g c = true)
    (p : List UInt8) : p.takeWhile g = p.takeWhile f ++ (p.dropWhile f).takeWhile g := by
  induction p with
  | nil => rfl
  | cons c rest ih =>
    cases hc : f c with
    | false =>
      have hneg : ¬f c = true := Bool.eq_false_iff.mp hc
      conv_rhs => rw [List.takeWhile_cons_of_neg hneg, List.dropWhile_cons_of_neg hneg,
        List.nil_append]
    | true =>
      rw [List.takeWhile_cons_of_pos hc, List.dropWhile_cons_of_pos hc,
        List.takeWhile_cons_of_pos (hfg c hc), List.cons_append, ih]

/-- How far `g` holds, counted from behind the characters of `f`. -/
theorem length_takeWhile_add {f g : UInt8 → Bool} (hfg : ∀ c, f c = true → g c = true)
    (p : List UInt8) : (p.takeWhile f).length + ((p.dropWhile f).takeWhile g).length =
      (p.takeWhile g).length := by
  rw [takeWhile_append hfg p, List.length_append]

theorem length_takeWhile_tail {g : UInt8 → Bool} {p : List UInt8} (hne : p.headD 0 ≠ 0)
    (h : g (p.headD 0) = true) :
    (p.tail.takeWhile g).length + 1 = (p.takeWhile g).length := by
  cases p with
  | nil => exact absurd rfl hne
  | cons c rest =>
    have hc : g c = true := h
    rw [List.takeWhile_cons_of_pos hc, List.length_cons, List.tail_cons]

theorem length_takeWhile_pos {g : UInt8 → Bool} {p : List UInt8} (hne : p.headD 0 ≠ 0)
    (h : g (p.headD 0) = true) : 0 < (p.takeWhile g).length := by
  have htail := length_takeWhile_tail hne h
  omega

theorem ne_zero_of_digit (c : UInt8) (h : isdigit c = true) : decide (c ≠ 0) = true :=
  decide_eq_true (isdigit_ne_zero h)

theorem ne_zero_of_alnum (c : UInt8) (h : isalnum c = true) : decide (c ≠ 0) = true :=
  decide_eq_true (isalnum_ne_zero h)

/-- Split_eat8 does not run over the end of the string. -/
theorem eat8Run_range (version run : ℕ) (p : List UInt8) :
    run ≤ eat8Run version run p ∧ eat8Run version run p ≤ run + (cString p).length := by
  unfold cString
  induction run, p using eat8Run.induct version with
  | case1 run p h =>
    rw [eat8Run, if_pos h]
    omega
  | case2 run p h hnum hdif =>
    rw [eat8Run, if_neg h, if_pos hnum, if_pos hdif]
    omega
  | case3 run p h hnum hdif ih =>
    have hlength := length_takeWhile_add ne_zero_of_digit p
    rw [eat8Run, if_neg h, if_pos hnum, if_neg hdif]
    omega
  | case4 run p h hnum han hdif =>
    rw [eat8Run, if_neg h, if_neg hnum, if_pos han, if_pos hdif]
    omega
  | case5 run p h hnum han hdif ih =>
    have hlength := length_takeWhile_add ne_zero_of_alnum p
    rw [eat8Run, if_neg h, if_neg hnum, if_pos han, if_neg hdif]
    omega
  | case6 run p h hnum han ih =>
    have hlength := length_takeWhile_tail (g := fun c => decide (c ≠ 0)) h (decide_eq_true h)
    rw [eat8Run, if_neg h, if_neg hnum, if_neg han]
    omega

/-- Split_eatAn takes only characters of its mode. -/
theorem eatAnRun_range (version run : ℕ) (p : List UInt8) :
    run ≤ eatAnRun version run p ∧
      eatAnRun version run p ≤ run + (p.takeWhile isalnum).length := by
  induction run, p using eatAnRun.induct version with
  | case1 run p halnum hdigit hdif =>
    rw [eatAnRun, if_pos halnum, if_pos hdigit, if_pos hdif]
    omega
  | case2 run p halnum hdigit hdif ih =>
    have hlength := length_takeWhile_add (fun c => isdigit_isalnum (c := c)) p
    rw [eatAnRun, if_pos halnum, if_pos hdigit, if_neg hdif]
    omega
  | case3 run p halnum hdigit ih =>
    have hlength := length_takeWhile_tail (isalnum_ne_zero halnum) halnum
    rw [eatAnRun, if_pos halnum, if_neg hdigit]
    omega
  | case4 run p halnum =>
    rw [eatAnRun, if_neg halnum]
    omega

end Runs

theorem cString_eq_nil_iff {string : List UInt8} : cString string = [] ↔ string.headD 0 = 0 := by
  unfold cString
  constructor
  · intro h
    by_contra hne
    have htail := length_takeWhile_tail (g := fun c => decide (c ≠ 0)) hne (decide_eq_true hne)
    rw [h] at htail
    cases htail
  · intro h
    cases string with
    | nil => rfl
    | cons c rest =>
      have hc : c = 0 := h
      rw [hc]
      rfl

section Entries

/-- What a round of the splitting leaves: it has taken `run` characters into one more entry. -/
structure Eaten (string : List UInt8) (input out : QRinput) (run : ℕ) : Prop where
  pos : 0 < run
  le : run ≤ (cString string).length
  version : out.version = input.version
  level : out.level = input.level
  text : textOf out.entries = textOf input.entries ++ string.take run

theorem eaten_append {string : List UInt8} {input : QRinput} {mode : QRencodeMode} {run : ℕ}
    (hpos : 0 < run) (hle : run ≤ (cString string).length)
    (hcheck : QRinput_check mode (string.take run) = true) :
    ∃ out, (QRinput_append input mode (string.take run)).map (fun input => (input, run)) =
      some (out, run) ∧ Eaten string input out run := by
  unfold QRinput_append
  rw [dif_pos hcheck]
  refine ⟨_, rfl, hpos, hle, rfl, rfl, ?_⟩
  unfold textOf
  rw [List.flatMap_append]
  simp

theorem length_cString_le (string : List UInt8) : (cString string).length ≤ string.length :=
  (List.takeWhile_sublist _).length_le

theorem check_of_all {mode : QRencodeMode} {string : List UInt8} {run : ℕ} (hpos : 0 < run)
    (hle : run ≤ string.length) (hmode : (mode = QR_MODE_8) ∨
      (mode = QR_MODE_NUM ∧ QRinput_checkModeNum (string.take run) = true) ∨
      (mode = QR_MODE_AN ∧ QRinput_checkModeAn (string.take run) = true)) :
    QRinput_check mode (string.take run) = true := by
  have hlength : ¬(string.take run).length ≤ 0 := by
    rw [List.length_take]
    omega
  unfold QRinput_check
  rw [if_neg hlength]
  rcases hmode with rfl | ⟨rfl, h⟩ | ⟨rfl, h⟩
  · rfl
  · exact h
  · exact h

theorem all_take {g : UInt8 → Bool} {string : List UInt8} {run : ℕ}
    (hle : run ≤ (string.takeWhile g).length) : ∀ c ∈ string.take run, g c = true := by
  intro c hc
  have htake : string.take run = (string.takeWhile g).take run := by
    conv_lhs => rw [← List.takeWhile_append_dropWhile (p := g) (l := string)]
    exact List.take_append_of_le_length hle
  rw [htake] at hc
  exact List.all_eq_true.mp List.all_takeWhile c (List.mem_of_mem_take hc)

theorem Split_eat8_eaten {string : List UInt8} (hne : string.headD 0 ≠ 0) (input : QRinput) :
    ∃ out run, Split_eat8 string input = some (out, run) ∧ Eaten string input out run := by
  have hrange := eat8Run_range input.version 1 string.tail
  have htail := length_takeWhile_tail (g := fun c => decide (c ≠ 0)) hne (decide_eq_true hne)
  have hle : eat8Run input.version 1 string.tail ≤ (cString string).length := by
    unfold cString at hrange ⊢
    omega
  have hcheck := check_of_all hrange.1 (hle.trans (length_cString_le string)) (.inl rfl)
  obtain ⟨out, hout⟩ := eaten_append hrange.1 hle hcheck
  exact ⟨out, _, hout⟩

theorem Split_eatAn_eaten {string : List UInt8} (hne : string.headD 0 ≠ 0) {input : QRinput}
    (hpos : 0 < eatAnRun input.version 0 string) :
    ∃ out run, Split_eatAn string input = some (out, run) ∧ Eaten string input out run := by
  unfold Split_eatAn
  simp only
  split_ifs
  · exact Split_eat8_eaten hne input
  · have hrange := (eatAnRun_range input.version 0 string).2
    rw [Nat.zero_add] at hrange
    have hle : eatAnRun input.version 0 string ≤ (cString string).length := by
      have hlength := length_takeWhile_add ne_zero_of_alnum string
      unfold cString
      omega
    have hall := all_take hrange
    have hcheck := check_of_all hpos (hle.trans (length_cString_le string))
      (.inr (.inr ⟨rfl, List.all_eq_true.mpr fun c hc => decide_eq_true
        (not_lt.mpr (of_decide_eq_true (hall c hc)))⟩))
    obtain ⟨out, hout⟩ := eaten_append hpos hle hcheck
    exact ⟨out, _, hout⟩

/-- Split_eatAn goes over the digits in front when Split_eatNum has handed them on: the bits that
Split_eatNum found to be saved are more than the last letter can cost. -/
theorem eatAnRun_pos_of_digits {version : ℕ} {string : List UInt8}
    (hdigit : isdigit (string.headD 0) = true)
    (hmode : Split_identifyMode (string.dropWhile isdigit) = QR_MODE_AN)
    (hdif : (QRinput_estimateBitsModeNum (string.takeWhile isdigit).length + 4 +
      QRspec_lengthIndicator QR_MODE_NUM version + QRinput_estimateBitsModeAn 1 -
      QRinput_estimateBitsModeAn ((string.takeWhile isdigit).length + 1) : ℤ) > 0) :
    0 < eatAnRun version 0 string := by
  have hpos := length_takeWhile_pos (isdigit_ne_zero hdigit) hdigit
  have hgo : ¬eatAnDif version 0 string < 0 := by
    unfold eatAnDif
    simp only
    rw [if_pos (identifyMode_an hmode).1]
    simp only [QRinput_estimateBitsModeAn_eq] at hdif ⊢
    omega
  have hrange := (eatAnRun_range version (0 + (string.takeWhile isdigit).length)
    (string.dropWhile isdigit)).1
  rw [eatAnRun, if_pos (isdigit_isalnum hdigit), if_pos hdigit, if_neg hgo]
  omega

theorem eatSome_eaten {string : List UInt8} (hne : string.headD 0 ≠ 0) (input : QRinput) :
    ∃ out run, eatSome string input = some (out, run) ∧ Eaten string input out run := by
  unfold eatSome
  simp only
  split_ifs with hnum han
  · have hdigit := identifyMode_num hnum
    unfold Split_eatNum
    simp only
    split_ifs with h8 hAn
    · exact Split_eat8_eaten hne input
    · exact Split_eatAn_eaten hne (eatAnRun_pos_of_digits hdigit hAn.1 hAn.2)
    · have hpos := length_takeWhile_pos hne hdigit
      have hle : (string.takeWhile isdigit).length ≤ (cString string).length := by
        have hlength := length_takeWhile_add ne_zero_of_digit string
        unfold cString
        omega
      have hall : ∀ c ∈ string.take (string.takeWhile isdigit).length, isdigit c = true :=
        all_take le_rfl
      have hcheck := check_of_all hpos (hle.trans (length_cString_le string))
        (.inr (.inl ⟨rfl, List.all_eq_true.mpr fun c hc =>
          decide_eq_true ((isdigit_iff c).mp (hall c hc))⟩))
      obtain ⟨out, hout⟩ := eaten_append hpos hle hcheck
      exact ⟨out, _, hout⟩
  · obtain ⟨halnum, hdigit⟩ := identifyMode_an han
    have hrange := (eatAnRun_range input.version (0 + 1) string.tail).1
    refine Split_eatAn_eaten hne ?_
    rw [eatAnRun, if_pos halnum, if_neg (Bool.eq_false_iff.mp hdigit)]
    omega
  · exact Split_eat8_eaten hne input

end Entries

/-- The entries made of a string carry its characters, all of them and in order, and the version
and the level of the input stay as they were. -/
theorem Split_splitString_text (string : List UInt8) (input : QRinput) :
    ∃ out, Split_splitString string input = some out ∧ out.version = input.version ∧
      out.level = input.level ∧ textOf out.entries = textOf input.entries ++ cString string := by
  induction hlength : string.length using Nat.strong_induction_on generalizing string input with
  | h n ih =>
    subst hlength
    rw [Split_splitString]
    split_ifs with hempty
    · refine ⟨input, rfl, rfl, rfl, ?_⟩
      rw [cString_eq_nil_iff.mpr hempty, List.append_nil]
    · obtain ⟨next, run, heat, heaten⟩ := eatSome_eaten hempty input
      have hle := heaten.le.trans (length_cString_le string)
      have hpos := heaten.pos
      obtain ⟨out, hout, hversion, hlevel, htext⟩ := ih (string.drop run).length
        (by rw [List.length_drop]; omega) (string.drop run) next rfl
      refine ⟨out, ?_, hversion.trans heaten.version, hlevel.trans heaten.level, ?_⟩
      · rw [heat]
        exact (if_neg hpos.ne').trans hout
      · have hcString : cString string = string.take run ++ cString (string.drop run) := by
          have htake : string.take run = (cString string).take run := by
            conv_lhs => rw [← List.takeWhile_append_dropWhile (p := fun c => decide (c ≠ 0))
              (l := string)]
            exact List.take_append_of_le_length heaten.le
          have hall := all_take (g := fun c => decide (c ≠ 0)) heaten.le
          unfold cString
          conv_lhs => rw [← List.take_append_drop run string]
          exact List.takeWhile_append_of_pos hall
        rw [htext, heaten.text, List.append_assoc, ← hcString]

/-- Only the empty string is refused. Any other one is split into entries that carry its
characters, all of them and in order. -/
theorem Split_splitStringToQRinput_spec (string : List UInt8) (input : QRinput) :
    match Split_splitStringToQRinput string input with
    | none => cString string = []
    | some out => cString string ≠ [] ∧ out.version = input.version ∧ out.level = input.level ∧
        textOf out.entries = textOf input.entries ++ cString string := by
  unfold Split_splitStringToQRinput
  by_cases hempty : string.headD 0 = 0
  · rw [if_pos hempty]
    exact cString_eq_nil_iff.mpr hempty
  · obtain ⟨out, hout, hversion, hlevel, htext⟩ := Split_splitString_text string input
    rw [if_neg hempty, hout]
    exact ⟨fun hnil => hempty (cString_eq_nil_iff.mp hnil), hversion, hlevel, htext⟩

end ConcealDesktop.Qrencode
