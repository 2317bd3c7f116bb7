import ConcealDesktop.SendFunds

/-! Payment ids. A text is accepted when decoding it and encoding the result again gives the text
back up to letter case; the decoder alone would skip characters and pad odd texts. -/
namespace ConcealDesktop

namespace QByteArray

/-- A hexadecimal digit in either letter case. -/
def isHexDigit (c : UInt8) : Bool :=
  (0x30 ≤ c && c ≤ 0x39) || (0x41 ≤ c && c ≤ 0x46) || (0x61 ≤ c && c ≤ 0x66)

/-- A digit has a value below sixteen, and the value is written as that digit. -/
theorem fromHexDigit_of_isHexDigit {c : UInt8} (h : isHexDigit c) :
    ∃ n < 16, fromHexDigit c = some n ∧ toUpper [toHexDigit n] = toUpper [c] := by
  have hbyte := forall_byte (P := fun c => isHexDigit c → ∃ n < 16, fromHexDigit c = some n ∧
    toUpper [toHexDigit n] = toUpper [c]) (by decide +kernel) c
  exact hbyte h

theorem isHexDigit_of_toUpper {c : UInt8} {n : ℕ} (hn : n < 16)
    (h : toUpper [c] = toUpper [toHexDigit n]) : isHexDigit c := by
  have hbyte := forall_byte (P := fun c => ∀ n < 16, toUpper [c] = toUpper [toHexDigit n] →
    isHexDigit c) (by decide +kernel) c
  exact hbyte n hn h

theorem pairDigits_append {l : List ℕ} (hl : l.length % 2 = 0) (low high : ℕ) :
    pairDigits (l ++ [low, high]) = pairDigits l ++ [UInt8.ofNat (16 * high + low)] := by
  induction l using pairDigits.induct with
  | case1 => rfl
  | case2 d => exact absurd hl (by simp)
  | case3 d e rest ih =>
    have hrest : rest.length % 2 = 0 := by
      have hcons : (d :: e :: rest).length = rest.length + 2 := rfl
      omega
    rw [List.cons_append, List.cons_append, pairDigits, ih hrest]
    rfl

theorem length_filterMap_fromHexDigit {s : StdString} (hs : ∀ c ∈ s, isHexDigit c) :
    (s.filterMap fromHexDigit).length = s.length := by
  induction s with
  | nil => rfl
  | cons c s ih =>
    obtain ⟨n, -, hc, -⟩ := fromHexDigit_of_isHexDigit (hs c List.mem_cons_self)
    rw [List.filterMap_cons_some hc, List.length_cons, List.length_cons,
      ih fun d hd => hs d (List.mem_cons_of_mem c hd)]

/-- The first two digits of an even text are the first byte. -/
theorem fromHex_cons_cons {a b : UInt8} {high low : ℕ} {s : StdString}
    (ha : fromHexDigit a = some high) (hb : fromHexDigit b = some low)
    (hs : ∀ c ∈ s, isHexDigit c) (heven : s.length % 2 = 0) :
    fromHex (a :: b :: s) = UInt8.ofNat (16 * high + low) :: fromHex s := by
  have hdigits : (a :: b :: s).reverse.filterMap fromHexDigit =
      s.reverse.filterMap fromHexDigit ++ [low, high] := by
    simp [ha, hb]
  have hlen : (s.reverse.filterMap fromHexDigit).length % 2 = 0 := by
    rw [length_filterMap_fromHexDigit fun c hc => hs c (List.mem_reverse.mp hc),
      List.length_reverse]
    exact heven
  rw [fromHex, hdigits, pairDigits_append hlen, List.reverse_concat]
  rfl

theorem toHex_cons {high low : ℕ} (hhigh : high < 16) (hlow : low < 16) (s : StdString) :
    toHex (UInt8.ofNat (16 * high + low) :: s) = toHexDigit high :: toHexDigit low :: toHex s := by
  have hbyte : (UInt8.ofNat (16 * high + low)).toNat = 16 * high + low := by
    rw [UInt8.toNat_ofNat']
    omega
  have hdiv : (16 * high + low) / 16 = high := by omega
  have hmod : (16 * high + low) % 16 = low := by omega
  rw [toHex, List.flatMap_cons, hbyte, hdiv, hmod]
  rfl

/-- An even text of digits decodes to half as many bytes, which encode to it up to letter case. -/
theorem toHex_fromHex {s : StdString} (hs : ∀ c ∈ s, isHexDigit c) {n : ℕ}
    (hlen : s.length = 2 * n) :
    (fromHex s).length = n ∧ toUpper (toHex (fromHex s)) = toUpper s := by
  induction n generalizing s with
  | zero =>
    rw [List.length_eq_zero_iff.mp hlen]
    exact ⟨rfl, rfl⟩
  | succ n ih =>
    match s, hlen with
    | a :: b :: s, hlen =>
      have hrest : ∀ c ∈ s, isHexDigit c := fun c hc => hs c (by simp [hc])
      have hsize : s.length = 2 * n := by
        have hcons : (a :: b :: s).length = s.length + 2 := rfl
        omega
      obtain ⟨high, hhigh, ha, hupperA⟩ := fromHexDigit_of_isHexDigit (hs a (by simp))
      obtain ⟨low, hlow, hb, hupperB⟩ := fromHexDigit_of_isHexDigit (hs b (by simp))
      obtain ⟨hcount, hback⟩ := ih hrest hsize
      rw [fromHex_cons_cons ha hb hrest (by omega)]
      refine ⟨by rw [List.length_cons, hcount], ?_⟩
      rw [toHex_cons hhigh hlow, toUpper_cons, toUpper_cons (toHexDigit low), hupperA, hupperB,
        hback]
      rfl

theorem isHexDigit_of_toUpper_eq {s t : StdString} (h : toUpper s = toUpper (toHex t)) :
    ∀ c ∈ s, isHexDigit c := by
  intro c hc
  have hmem : ∀ d ∈ toHex t, ∃ n < 16, d = toHexDigit n := by
    intro d hd
    obtain ⟨b, -, hb⟩ := List.mem_flatMap.mp hd
    have hlt := b.toNat_lt
    rcases List.mem_pair.mp hb with rfl | rfl
    · exact ⟨b.toNat / 16, by omega, rfl⟩
    · exact ⟨b.toNat % 16, by omega, rfl⟩
  have hupper : ∀ d ∈ toUpper s, ∃ n < 16, [d] = toUpper [toHexDigit n] := by
    intro d hd
    rw [h] at hd
    obtain ⟨e, he, rfl⟩ := List.mem_map.mp hd
    obtain ⟨n, hn, rfl⟩ := hmem e he
    exact ⟨n, hn, rfl⟩
  obtain ⟨n, hn, hdigit⟩ := hupper _ (List.mem_map_of_mem hc)
  exact isHexDigit_of_toUpper hn hdigit

end QByteArray

namespace OverviewFrame
open QByteArray

/-- A payment id is accepted exactly when it is empty or 64 hexadecimal digits. -/
theorem isValidPaymentId_iff (p : StdString) : isValidPaymentId p = true ↔
    p = [] ∨ p.length = 64 ∧ ∀ c ∈ p, isHexDigit c := by
  unfold isValidPaymentId
  by_cases hp : p = []
  · simp [hp]
  · simp only [hp, if_false, Bool.and_eq_true, beq_iff_eq, false_or]
    constructor
    · rintro ⟨hcount, hupper⟩
      refine ⟨?_, isHexDigit_of_toUpper_eq hupper⟩
      have hsize := congrArg List.length hupper
      rw [length_toUpper_toHex, hcount, toUpper, List.length_map] at hsize
      exact hsize
    · rintro ⟨hlen, hdigits⟩
      obtain ⟨hcount, hback⟩ := toHex_fromHex hdigits (n := 32) hlen
      exact ⟨hcount, hback.symm⟩

end OverviewFrame
end ConcealDesktop
