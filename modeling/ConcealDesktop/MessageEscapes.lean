import Mathlib.Data.List.Chain
import ConcealDesktop.Library.Loops
import ConcealDesktop.MessageCells

/-! The escapes of a message text. The text is read once, from left to right, into characters and
escapes; the message column is compared with the first line of the text that they denote. -/
namespace ConcealDesktop

namespace QString

/-- The unit of the escape that the text starts with, if it starts with one. -/
def escapeAt (s : QString) : Option QChar :=
  let digits := (s.drop 2).take 4
  if s.take 2 = qstr "\\u" ∧ digits.length = 4 ∧ digits.all QChar.isHex then
    some (UInt16.ofNat (hexDigitsValue digits))
  else none

inductive Token where
  | char (c : QChar)
  | escape (unit : QChar)

def Token.unit : Token → QChar
  | .char c => c
  | .escape unit => unit

/-- Reads the text once; the first argument counts the characters of an escape still to skip. -/
def tokens : ℕ → QString → List Token
  | _, [] => []
  | skip + 1, _ :: s => tokens skip s
  | 0, c :: s => match escapeAt (c :: s) with
    | some unit => .escape unit :: tokens 5 s
    | none => .char c :: tokens 0 s

/-- The text with every escape replaced once. -/
def denotedText (s : QString) : QString := (tokens 0 s).map Token.unit

/-- The two units are no backslash before a `u`. -/
def Apart (a b : QChar) : Prop := ¬ (a = qchar '\\' ∧ b = qchar 'u')

/-- In the first line no backslash stands before a `u`, written or denoted: every backslash-u there
is an escape, and no unit of an escape makes a new one with a neighbour. -/
def Settled (s : QString) : Prop :=
  ((tokens 0 s).takeWhile (·.unit != qchar '\n')).IsChain fun a b => Apart a.unit b.unit

instance (a b : QChar) : Decidable (Apart a b) := inferInstanceAs (Decidable (¬ _))

instance (s : QString) : Decidable (Settled s) := inferInstanceAs (Decidable (List.IsChain _ _))

theorem tokens_skip (skip : ℕ) (s : QString) : tokens skip s = tokens 0 (s.drop skip) := by
  induction s generalizing skip with
  | nil => cases skip <;> rfl
  | cons c s ih =>
    cases skip with
    | zero => rfl
    | succ skip => exact ih skip

theorem denotedText_cons (c : QChar) (s : QString) : denotedText (c :: s) =
    match escapeAt (c :: s) with
    | some unit => unit :: denotedText (s.drop 5)
    | none => c :: denotedText s := by
  unfold denotedText
  rw [tokens]
  cases escapeAt (c :: s) with
  | some unit =>
    rw [← tokens_skip]
    rfl
  | none => rfl

theorem settled_iff (s : QString) : Settled s ↔
    ((denotedText s).takeWhile (· != qchar '\n')).IsChain Apart := by
  rw [denotedText, List.takeWhile_map, List.isChain_map]
  rfl

/-! ### The loop -/

theorem indexOfEscape_eq_none_iff (s : QString) : indexOfEscape s = none ↔ s.IsChain Apart := by
  induction s with
  | nil => exact iff_of_true rfl .nil
  | cons c s ih =>
    rw [indexOfEscape, List.isChain_cons]
    by_cases hc : c = qchar '\\' ∧ s.head? = some (qchar 'u')
    · rw [if_pos hc]
      exact iff_of_false (by simp) fun h => h.1 _ hc.2 ⟨hc.1, rfl⟩
    · rw [if_neg hc, Option.map_eq_none_iff, ih]
      refine (and_iff_right ?_).symm
      intro d hd hcd
      exact hc ⟨hcd.1, hcd.2 ▸ hd⟩

theorem indexOfEscape_lt {s : QString} {i : ℕ} (h : indexOfEscape s = some i) :
    i + 2 ≤ s.length := by
  induction s generalizing i with
  | nil => cases h
  | cons c s ih =>
    rw [indexOfEscape] at h
    split_ifs at h with hc
    · have hs : s ≠ [] := by
        rintro rfl
        cases hc.2
      have hlen := List.length_pos_of_ne_nil hs
      cases h
      rw [List.length_cons]
      omega
    · obtain ⟨j, hj, rfl⟩ := Option.map_eq_some_iff.mp h
      have := ih hj
      rw [List.length_cons]
      omega

theorem length_replaceEscape {s : QString} {i : ℕ} (h : indexOfEscape s = some i) :
    (replaceEscape s i).length < s.length := by
  have hlt := indexOfEscape_lt h
  rw [replaceEscape, List.length_append, List.length_take, List.length_cons, List.length_drop]
  omega

/-- A pass of the loop, which is left where no escape is found. -/
def replaceNextEscape (str : QString) : Option QString :=
  (indexOfEscape str).map (replaceEscape str)

theorem replaceNextEscape_eq_none_iff (s : QString) :
    replaceNextEscape s = none ↔ indexOfEscape s = none := Option.map_eq_none_iff

/-- A pass shortens the text, also when fewer than six characters are left to replace and when the
new character makes another escape with its neighbours. -/
theorem length_replaceNextEscape {s t : QString} (h : replaceNextEscape s = some t) :
    t.length < s.length := by
  obtain ⟨i, hi, rfl⟩ := Option.map_eq_some_iff.mp h
  exact length_replaceEscape hi

theorem replaceEscapes_eq_run (steps : ℕ) (s : QString) :
    replaceEscapes steps s = Loops.run replaceNextEscape steps s := by
  induction steps generalizing s with
  | zero => rfl
  | succ steps ih =>
    rw [replaceEscapes, Loops.run, replaceNextEscape]
    cases indexOfEscape s with
    | none => rfl
    | some i => exact ih (replaceEscape s i)

/-- The loop ends by its own condition. -/
theorem indexOfEscape_replaceEscapes {steps : ℕ} {s : QString} (h : s.length ≤ steps) :
    indexOfEscape (replaceEscapes steps s) = none := by
  obtain ⟨n, hn, t, ht, hleft⟩ :=
    Loops.exists_left (fun _ _ => length_replaceNextEscape) s
  rw [replaceEscapes_eq_run, Loops.run_of_left ht hleft (hn.trans h)]
  exact (replaceNextEscape_eq_none_iff t).mp hleft

theorem indexOfEscape_append {line : QString} (hline : line.IsChain Apart) {c : QChar}
    (hc : c ≠ qchar 'u') (s : QString) :
    indexOfEscape (line ++ c :: s) = (indexOfEscape (c :: s)).map (line.length + ·) := by
  induction line with
  | nil => simp
  | cons d line ih =>
    have hhead : ¬ (d = qchar '\\' ∧ (line ++ c :: s).head? = some (qchar 'u')) := by
      rintro ⟨hd, hnext⟩
      cases line with
      | nil => exact hc (by simpa using hnext)
      | cons e line =>
        exact (List.isChain_cons_cons.mp hline).1 ⟨hd, by simpa using hnext⟩
    rw [List.cons_append, indexOfEscape, if_neg hhead, ih hline.tail, Option.map_map]
    congr 1
    funext i
    simp only [Function.comp_apply, List.length_cons]
    omega

theorem replaceEscape_append (line s : QString) (i : ℕ) :
    replaceEscape (line ++ s) (line.length + i) = line ++ replaceEscape s i := by
  simp only [replaceEscape, List.take_length_add_append, Nat.add_assoc,
    List.drop_length_add_append, List.append_assoc]

/-- The loop leaves a line without an escape as it is. -/
theorem replaceEscapes_line {line : QString} (hline : line.IsChain Apart) (steps : ℕ)
    (s : QString) :
    ∃ t, replaceEscapes steps (line ++ qchar '\n' :: s) = line ++ qchar '\n' :: t := by
  induction steps generalizing s with
  | zero => exact ⟨s, rfl⟩
  | succ steps ih =>
    have hfirst : indexOfEscape (qchar '\n' :: s) = (indexOfEscape s).map (· + 1) :=
      if_neg fun h => absurd h.1 (by decide)
    rw [replaceEscapes, indexOfEscape_append hline (by decide) s, hfirst]
    cases indexOfEscape s with
    | none => exact ⟨s, rfl⟩
    | some j =>
      have hstep : replaceEscape (line ++ qchar '\n' :: s) (line.length + (j + 1)) =
          line ++ qchar '\n' :: replaceEscape s j := by
        rw [replaceEscape_append]
        rfl
      obtain ⟨t, ht⟩ := ih (replaceEscape s j)
      refine ⟨t, ?_⟩
      show replaceEscapes steps (replaceEscape _ (line.length + (j + 1))) = _
      rw [hstep, ht]

/-! ### One escape -/

theorem hexDigitsValue_lt (s : QString) : hexDigitsValue s < 16 ^ s.length := by
  induction s using List.reverseRecOn with
  | nil => decide
  | append_singleton s c ih =>
    have hdigit : c.hexValue.getD 0 < 16 := by
      unfold QChar.hexValue
      have hc := c.toNat_lt
      split_ifs with h₁ h₂ h₃
      all_goals simp only [UInt16.le_iff_toNat_le] at *
      all_goals simp at *
      all_goals omega
    have happend : hexDigitsValue (s ++ [c]) = 16 * hexDigitsValue s + c.hexValue.getD 0 := by
      rw [hexDigitsValue, List.foldl_append]
      rfl
    rw [happend, List.length_append, List.length_singleton, pow_succ]
    omega

theorem isHex_iff (c : QChar) : c.isHex ↔ 0x30 ≤ c.toNat ∧ c.toNat ≤ 0x39 ∨
    0x41 ≤ c.toNat ∧ c.toNat ≤ 0x46 ∨ 0x61 ≤ c.toNat ∧ c.toNat ≤ 0x66 := by
  unfold QChar.isHex QChar.hexValue
  simp only [UInt16.le_iff_toNat_le]
  split_ifs with h₁ h₂ h₃
  · exact iff_of_true rfl (Or.inl h₁)
  · exact iff_of_true rfl (Or.inr (Or.inl h₂))
  · exact iff_of_true rfl (Or.inr (Or.inr h₃))
  · exact iff_of_false Bool.false_ne_true fun h => h.elim h₁ fun h => h.elim h₂ h₃

theorem not_isSpace_of_isHex {c : QChar} (h : c.isHex) : c.isSpace = false := by
  rw [isHex_iff] at h
  simp [QChar.isSpace, UInt16.le_iff_toNat_le, ← UInt16.toNat_inj]
  omega

/-- Four digits are read as the unit they denote. -/
theorem toIntHex_digits {digits : QString} (hlen : digits.length = 4)
    (hhex : digits.all QChar.isHex) :
    QChar.ofInt (toIntHex digits) = UInt16.ofNat (hexDigitsValue digits) := by
  have hmem : ∀ c ∈ digits, c.isHex := by simpa using hhex
  have htrim : digits.trimmed = digits := by
    apply trimmed_eq_self
    · exact fun c hc => not_isSpace_of_isHex (hmem c (List.mem_of_mem_head? hc))
    · exact fun c hc => not_isSpace_of_isHex (hmem c (List.mem_of_getLast? hc))
  have hsign (c : QChar) (hc : c.isHex = false) : (digits.head? == some c) = false := by
    apply beq_eq_false_iff_ne.mpr
    intro h
    rw [hmem c (List.mem_of_mem_head? h)] at hc
    cases hc
  have hmark (t : QString) (ht : ∃ c ∈ t, c.isHex = false) : digits.take 2 ≠ t := by
    rintro rfl
    obtain ⟨c, hc, hno⟩ := ht
    rw [hmem c (List.mem_of_mem_take hc)] at hno
    cases hno
  have hlt := hexDigitsValue_lt digits
  rw [hlen] at hlt
  have hvalue : toIntHex digits = hexDigitsValue digits := by
    unfold toIntHex
    simp only [htrim, hsign (qchar '-') (by decide), hsign (qchar '+') (by decide), Bool.or_false,
      Bool.false_eq_true, if_false]
    rw [if_neg (not_or.mpr ⟨hmark _ ⟨qchar 'x', by decide, by decide⟩,
      hmark _ ⟨qchar 'X', by decide, by decide⟩⟩), if_pos]
    exact ⟨List.ne_nil_of_length_pos (by omega), hhex, by omega, by omega⟩
  rw [QChar.ofInt, hvalue]
  congr 1
  omega

/-- The loop replaces an escape by its unit. -/
theorem replaceEscape_of_escapeAt {s : QString} {unit : QChar} (h : escapeAt s = some unit)
    (line : QString) : replaceEscape (line ++ s) line.length = line ++ unit :: s.drop 6 := by
  unfold escapeAt at h
  simp only at h
  split_ifs at h with hdigits
  have hvalue := toIntHex_digits hdigits.2.1 hdigits.2.2
  rw [Option.some.injEq, ← hvalue] at h
  rw [← Nat.add_zero line.length, replaceEscape_append, ← h]
  rfl

theorem indexOfEscape_of_escapeAt {c : QChar} {s : QString} {unit : QChar}
    (h : escapeAt (c :: s) = some unit) :
    c = qchar '\\' ∧ indexOfEscape (c :: s) = some 0 := by
  unfold escapeAt at h
  simp only at h
  split_ifs at h with hdigits
  have htake : (c :: s).take 2 = [qchar '\\', qchar 'u'] := hdigits.1
  cases s with
  | nil => cases htake
  | cons d s =>
    obtain ⟨hc, hd⟩ : c = qchar '\\' ∧ d = qchar 'u' := by simpa using htake
    exact ⟨hc, if_pos ⟨hc, by rw [hd]; rfl⟩⟩

/-! ### The first line -/

theorem takeWhile_line {line : QString} (hline : qchar '\n' ∉ line) (t : QString) :
    (line ++ t).takeWhile (· != qchar '\n') = line ++ t.takeWhile (· != qchar '\n') := by
  apply List.takeWhile_append_of_pos
  intro c hc
  simpa using fun h : c = qchar '\n' => hline (h ▸ hc)

theorem readLine_append {line : QString} (hline : qchar '\n' ∉ line) (t : QString) :
    readLine (line ++ qchar '\n' :: t) =
      if line.getLast? = some (qchar '\r') then line.dropLast else line := by
  have htake : (line ++ qchar '\n' :: t).takeWhile (· != qchar '\n') = line := by
    rw [takeWhile_line hline, List.takeWhile_cons, if_neg (by simp), List.append_nil]
  have hlt : line.length < (line ++ qchar '\n' :: t).length := by
    rw [List.length_append, List.length_cons]
    omega
  unfold readLine
  simp only [htake, hlt, true_and]

theorem replaceEscapes_of_isChain (steps : ℕ) {s : QString} (h : s.IsChain Apart) :
    replaceEscapes steps s = s := by
  cases steps with
  | zero => rfl
  | succ steps => rw [replaceEscapes, (indexOfEscape_eq_none_iff s).mpr h]

/-- The loop replaces the first escape, and what was before it stands before its unit. -/
theorem replaceEscapes_succ (steps : ℕ) {before s : QString} {c unit : QChar}
    (hchain : before.IsChain Apart) (hescape : escapeAt (c :: s) = some unit) :
    replaceEscapes (steps + 1) (before ++ c :: s) =
      replaceEscapes steps (before ++ unit :: s.drop 5) := by
  obtain ⟨hc, hfirst⟩ := indexOfEscape_of_escapeAt hescape
  have hindex : indexOfEscape (before ++ c :: s) = some before.length := by
    rw [indexOfEscape_append hchain (by rw [hc]; decide), hfirst]
    rfl
  rw [replaceEscapes, hindex]
  show replaceEscapes steps (replaceEscape (before ++ c :: s) before.length) = _
  rw [replaceEscape_of_escapeAt hescape]
  rfl

/-- The loop and the single reading agree on the first line, from any place between two tokens: the
induction is on the text still to read, and the loop has not changed it yet. -/
theorem readLine_replaceEscapes {steps : ℕ} (before rest : QString) (hsteps : rest.length ≤ steps)
    (h : ((before ++ denotedText rest).takeWhile (· != qchar '\n')).IsChain Apart) :
    readLine (replaceEscapes steps (before ++ rest)) = readLine (before ++ denotedText rest) := by
  induction hn : rest.length using Nat.strong_induction_on generalizing before rest steps with
  | _ n ih =>
    by_cases hline : qchar '\n' ∈ before
    · obtain ⟨line, t, rfl, hnot⟩ := List.eq_append_cons_of_mem hline
      rw [List.append_assoc, List.cons_append, takeWhile_line hnot, List.takeWhile_cons,
        if_neg (by simp), List.append_nil] at h
      obtain ⟨u, hu⟩ := replaceEscapes_line h steps (t ++ rest)
      rw [List.append_assoc, List.cons_append, hu, List.append_assoc, List.cons_append,
        readLine_append hnot, readLine_append hnot]
    · have hchain : before.IsChain Apart := by
        rw [takeWhile_line hline] at h
        exact h.left_of_append
      cases rest with
      | nil =>
        rw [List.append_nil, replaceEscapes_of_isChain steps hchain]
        show readLine before = readLine (before ++ [])
        rw [List.append_nil]
      | cons c s =>
        rw [denotedText_cons] at h ⊢
        cases hescape : escapeAt (c :: s) with
        | none =>
          rw [hescape, List.append_cons] at h
          rw [List.append_cons, List.append_cons before c (denotedText s)]
          exact ih s.length (by simp at hn; omega) _ s (by simp at hsteps; omega) h rfl
        | some unit =>
          rw [hescape, List.append_cons] at h
          obtain ⟨steps, rfl⟩ : ∃ k, steps = k + 1 := ⟨steps - 1, by simp at hsteps; omega⟩
          have hlen : (s.drop 5).length ≤ s.length := by
            rw [List.length_drop]
            omega
          rw [replaceEscapes_succ steps hchain hescape, List.append_cons,
            List.append_cons before unit (denotedText _)]
          exact ih (s.drop 5).length (by simp at hn; omega) _ _ (by simp at hsteps; omega) h rfl

/-- A carriage return at the end of the line is no part of an escape. -/
theorem readLine_isChain_iff (s : QString) : (readLine s).IsChain Apart ↔
    (s.takeWhile (· != qchar '\n')).IsChain Apart := by
  unfold readLine
  set line := s.takeWhile (· != qchar '\n')
  simp only
  split_ifs with hreturn
  · obtain ⟨init, hinit⟩ := List.getLast?_eq_some_iff.mp hreturn.2
    rw [hinit, List.dropLast_concat, List.isChain_append]
    refine (and_iff_left ⟨.singleton _, ?_⟩).symm
    intro c _ d hd hcd
    rw [List.head?_cons, Option.mem_some_iff] at hd
    rw [← hd] at hcd
    exact absurd hcd.2 (by decide)
  · rfl

end QString

namespace MessagesModel
open QString

theorem messageText_eq_iff (str : QString) :
    messageText str = readLine (denotedText str) ↔ Settled str := by
  rw [settled_iff]
  constructor
  · intro h
    have hdone := (indexOfEscape_eq_none_iff _).mp (indexOfEscape_replaceEscapes str.length.le_refl)
    rw [← List.takeWhile_append_dropWhile (p := (· != qchar '\n'))
      (l := replaceEscapes _ _)] at hdone
    have hline : (messageText str).IsChain Apart :=
      (readLine_isChain_iff _).mpr hdone.left_of_append
    rw [h] at hline
    exact (readLine_isChain_iff _).mp hline
  · exact readLine_replaceEscapes [] str str.length.le_refl

/-- The loop of the message column is left after at most as many passes as the text has characters,
so it has no run without an end, and the column shows the first line of the text that it leaves. -/
theorem messageText_terminates (str : QString) :
    (∃ n ≤ str.length, ∃ result, Loops.reached replaceNextEscape str n = some result ∧
      indexOfEscape result = none ∧ messageText str = readLine result) ∧
    ¬ ∃ texts : ℕ → QString, texts 0 = str ∧
      ∀ n, replaceNextEscape (texts n) = some (texts (n + 1)) := by
  obtain ⟨n, hn, result, hresult, hleft⟩ :=
    Loops.exists_left (fun _ _ => length_replaceNextEscape) str
  constructor
  · refine ⟨n, hn, result, hresult, (replaceNextEscape_eq_none_iff result).mp hleft, ?_⟩
    rw [messageText, replaceEscapes_eq_run, Loops.run_of_left hresult hleft hn]
  · have hend : Loops.LeftIn replaceNextEscape str result := ⟨n, hresult, hleft⟩
    exact hend.not_forever

/-- The message column shows the first line of the denoted text exactly when that line is
settled. -/
theorem message_cell_iff (env : Environment) (row : ℤ) (r : Reading) :
    getDisplayRole env ⟨row, Column.message.toInt⟩ r =
      .text (readLine (denotedText r.message.message)) ↔ Settled r.message.message := by
  have hcell : getDisplayRole env ⟨row, Column.message.toInt⟩ r =
      .text (messageText r.message.message) := rfl
  rw [hcell, QVariant.text.injEq, messageText_eq_iff]

/-- A backslash and a `u` without digits swallow the text behind them, and the unit of one escape
begins another. -/
theorem message_cell_unsettled :
    let cell (text : QString) := getDisplayRole Environment.offline ⟨0, Column.message.toInt⟩
      ⟨⟨.succeeded, 0, 5, [], 0, 0, false, [], [], 0, 0, []⟩, ⟨text, []⟩⟩
    cell (qstr "C:\\users\\me") = .text (qstr "C:" ++ [0] ++ qstr "\\me") ∧
      readLine (denotedText (qstr "C:\\users\\me")) = qstr "C:\\users\\me" ∧
      cell (qstr "\\u005cu0041") = .text (qstr "A") ∧
      readLine (denotedText (qstr "\\u005cu0041")) = qstr "\\u0041" := by
  decide +kernel

end MessagesModel
end ConcealDesktop
