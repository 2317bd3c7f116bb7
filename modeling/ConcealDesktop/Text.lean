import Mathlib.Algebra.GroupWithZero.Nat
import Mathlib.Algebra.Order.BigOperators.Group.List
import Mathlib.Algebra.Order.Group.Nat
import Mathlib.Data.List.DropRight
import ConcealDesktop.Library.Scanner

/-! The parts of QString, QByteArray and std::string that the wallet's forms rely on. A QString
is its sequence of UTF-16 units, a QByteArray or a std::string its sequence of bytes. -/
namespace ConcealDesktop

abbrev QChar := UInt16
abbrev QString := List QChar
abbrev StdString := List UInt8

/-- The QString of an ASCII literal. -/
def qstr (s : String) : QString := s.toList.map fun c => UInt16.ofNat c.toNat

/-- The std::string of an ASCII literal. -/
def bytes (s : String) : StdString := s.toList.map fun c => UInt8.ofNat c.toNat

def qchar (c : Char) : QChar := UInt16.ofNat c.toNat

namespace QChar

/-- QChar::isSpace: the ASCII controls and blank, and the Unicode separators. -/
def isSpace (c : QChar) : Bool :=
  c == 0x20 || (0x09 ≤ c && c ≤ 0x0d) || c == 0x85 || c == 0xa0 || c == 0x1680 ||
    (0x2000 ≤ c && c ≤ 0x200a) || c == 0x2028 || c == 0x2029 || c == 0x202f || c == 0x205f ||
    c == 0x3000

def isDigit (c : QChar) : Bool := 0x30 ≤ c && c ≤ 0x39

/-- The value of an ASCII digit. -/
def digitValue (c : QChar) : ℕ := c.toNat - 0x30

end QChar

namespace QString

def trimmed (s : QString) : QString := (s.dropWhile QChar.isSpace).rdropWhile QChar.isSpace

def remove (s : QString) (c : QChar) : QString := s.filter (· != c)

/-- The position of the first `c`; the source's -1 is `none`. -/
def indexOf (s : QString) (c : QChar) : Option ℕ := s.findIdx? (· == c)

def endsWith (s : QString) (c : QChar) : Bool := s.getLast? == some c

/-- QString::number of an unsigned value. -/
def number (n : ℕ) : QString := (Nat.toDigits 10 n).map qchar

def rightJustified (s : QString) (width : ℕ) (fill : QChar) : QString :=
  List.replicate (width - s.length) fill ++ s

/-- The value of a digit string read in base ten. -/
def digitsValue (s : QString) : ℕ := s.foldl (fun n c => 10 * n + c.digitValue) 0

/-- QString::toULongLong in base ten: surrounding blanks and a leading plus are accepted, and
any other text, a negative number or a value from 2^64 on gives zero. -/
def toULongLong (s : QString) : UInt64 :=
  let t := trimmed s
  let digits := if t.head? == some (qchar '+') then t.tail else t
  if digits ≠ [] ∧ digits.all QChar.isDigit ∧ digitsValue digits < 2 ^ 64 then
    UInt64.ofNat (digitsValue digits)
  else 0

theorem count_dropWhile {c : QChar} {p : QChar → Bool} (hc : p c = false) (s : QString) :
    (s.dropWhile p).count c = s.count c := by
  induction s with
  | nil => rfl
  | cons d s ih =>
    rw [List.dropWhile_cons]
    split_ifs with hd
    · have hne : d ≠ c := by
        rintro rfl
        rw [hc] at hd
        cases hd
      rw [ih, List.count_cons_of_ne hne]
    · rfl

/-- Trimming takes away blanks only. -/
theorem count_trimmed {c : QChar} (hc : c.isSpace = false) (s : QString) :
    s.trimmed.count c = s.count c := by
  unfold trimmed List.rdropWhile
  rw [List.count_reverse, count_dropWhile hc, List.count_reverse, count_dropWhile hc]

theorem trimmed_eq_self {s : QString} (hhead : ∀ c, s.head? = some c → c.isSpace = false)
    (hlast : ∀ c, s.getLast? = some c → c.isSpace = false) : s.trimmed = s := by
  have hdrop : s.dropWhile QChar.isSpace = s := by
    cases s with
    | nil => rfl
    | cons c s => rw [List.dropWhile_cons, if_neg (by simp [hhead c rfl])]
  unfold trimmed
  rw [hdrop]
  apply List.rdropWhile_eq_self_iff.mpr
  intro hne
  rw [hlast _ (List.getLast?_eq_some_getLast hne)]
  decide

theorem isSpace_getLast_trimmed {s : QString} {c : QChar} (h : s.trimmed.getLast? = some c) :
    c.isSpace = false := by
  have hne : s.trimmed ≠ [] := by
    intro hnil
    rw [hnil] at h
    cases h
  have hlast := List.rdropWhile_last_not QChar.isSpace (s.dropWhile QChar.isSpace) hne
  rw [List.getLast?_eq_some_getLast hne, Option.some.injEq] at h
  rw [← h]
  exact Bool.eq_false_iff.mpr hlast

theorem isSpace_head_trimmed {s : QString} {c : QChar} (h : s.trimmed.head? = some c) :
    c.isSpace = false := by
  obtain ⟨t, ht⟩ := List.rdropWhile_prefix QChar.isSpace (s.dropWhile QChar.isSpace)
  obtain ⟨rest, hrest⟩ := List.head?_eq_some_iff.mp h
  have hdrop : s.dropWhile QChar.isSpace = c :: (rest ++ t) := by
    rw [← ht, ← List.cons_append, ← hrest]
    rfl
  exact Scanner.head?_dropWhile (by rw [hdrop, List.head?_cons])

theorem trimmed_trimmed (s : QString) : s.trimmed.trimmed = s.trimmed :=
  trimmed_eq_self (fun _ => isSpace_head_trimmed) (fun _ => isSpace_getLast_trimmed)

theorem mem_of_mem_trimmed {c : QChar} {s : QString} (h : c ∈ s.trimmed) : c ∈ s :=
  (List.dropWhile_suffix _).subset ((List.rdropWhile_prefix _ _).subset h)

end QString

namespace StdString

/-- The first position at or after the start of `s` where `needle` occurs. -/
def findFirst (needle : StdString) : StdString → Option ℕ
  | [] => if needle = [] then some 0 else none
  | c :: s => if needle.isPrefixOf (c :: s) then some 0 else (findFirst needle s).map (· + 1)

/-- std::string::find from a position; std::string::npos is `none`. -/
def find (s needle : StdString) (pos : ℕ) : Option ℕ :=
  if pos ≤ s.length then (findFirst needle (s.drop pos)).map (pos + ·) else none

/-- std::string::substr, which throws std::out_of_range past the end of the string. -/
def substr (s : StdString) (pos n : ℕ) : Option StdString :=
  if pos ≤ s.length then some ((s.drop pos).take n) else none

/-- The bytes are the UTF-8 form of a text. -/
def Utf8 (s : StdString) : Prop := ∃ text : List Char, text.flatMap String.utf8EncodeChar = s

theorem utf8_nil : Utf8 [] := ⟨[], rfl⟩

end StdString

namespace QByteArray

/-- The value of a hexadecimal digit in either letter case. -/
def fromHexDigit (c : UInt8) : Option ℕ :=
  if 0x30 ≤ c ∧ c ≤ 0x39 then some (c.toNat - 0x30)
  else if 0x41 ≤ c ∧ c ≤ 0x46 then some (c.toNat - 0x41 + 10)
  else if 0x61 ≤ c ∧ c ≤ 0x66 then some (c.toNat - 0x61 + 10)
  else none

/-- Bytes from hexadecimal digits listed from the right: the low half of a byte comes first. -/
def pairDigits : List ℕ → StdString
  | [] => []
  | [low] => [UInt8.ofNat low]
  | low :: high :: rest => UInt8.ofNat (16 * high + low) :: pairDigits rest

/-- QByteArray::fromHex: other characters are skipped, and an odd number of digits is read as
if a zero stood before them. -/
def fromHex (s : StdString) : StdString :=
  (pairDigits (s.reverse.filterMap fromHexDigit)).reverse

def toHexDigit (n : ℕ) : UInt8 := if n < 10 then UInt8.ofNat (0x30 + n) else UInt8.ofNat (0x61 + n - 10)

def toHex (s : StdString) : StdString :=
  s.flatMap fun b => [toHexDigit (b.toNat / 16), toHexDigit (b.toNat % 16)]

/-- QByteArray::toUpper, which reads the bytes as Latin-1. -/
def toUpper (s : StdString) : StdString :=
  s.map fun c =>
    if (0x61 ≤ c ∧ c ≤ 0x7a) ∨ (0xe0 ≤ c ∧ c ≤ 0xfe ∧ c ≠ 0xf7) then c - 0x20 else c

/-- What holds of every byte can be tested on the numbers below 256. -/
theorem forall_byte {P : UInt8 → Prop} (h : ∀ n < 256, P (UInt8.ofNat n)) (c : UInt8) : P c := by
  have hc := h c.toNat c.toNat_lt
  rwa [UInt8.ofNat_toNat] at hc

theorem toUpper_cons (c : UInt8) (s : StdString) : toUpper (c :: s) = toUpper [c] ++ toUpper s :=
  rfl

theorem toUpper_toUpper (s : StdString) : toUpper (toUpper s) = toUpper s := by
  induction s with
  | nil => rfl
  | cons c s ih =>
    have hbyte := forall_byte (P := fun c => toUpper (toUpper [c]) = toUpper [c])
      (by decide +kernel) c
    have happend (t u : StdString) : toUpper (t ++ u) = toUpper t ++ toUpper u := List.map_append
    rw [toUpper_cons, happend, hbyte, ih]

theorem length_toHex (s : StdString) : (toHex s).length = 2 * s.length := by
  induction s with
  | nil => rfl
  | cons b s ih =>
    have hcons : (toHex (b :: s)).length = (toHex s).length + 2 := rfl
    rw [hcons, ih, List.length_cons]
    omega

theorem length_toUpper_toHex (s : StdString) : (toUpper (toHex s)).length = 2 * s.length := by
  rw [toUpper, List.length_map, length_toHex]

theorem fromHexDigit_toUpper : ∀ n < 16,
    (toUpper [toHexDigit n]).filterMap fromHexDigit = [n] := by
  decide

theorem filterMap_toUpper_toHex (s : StdString) :
    (toUpper (toHex s)).filterMap fromHexDigit =
      s.flatMap fun b => [b.toNat / 16, b.toNat % 16] := by
  induction s with
  | nil => rfl
  | cons b s ih =>
    have hb := b.toNat_lt
    have hhigh := fromHexDigit_toUpper (b.toNat / 16) (by omega)
    have hlow := fromHexDigit_toUpper (b.toNat % 16) (by omega)
    have hsplit : toUpper (toHex (b :: s)) = toUpper [toHexDigit (b.toNat / 16)] ++
        (toUpper [toHexDigit (b.toNat % 16)] ++ toUpper (toHex s)) := rfl
    rw [hsplit, List.filterMap_append, List.filterMap_append, hhigh, hlow, ih]
    rfl

theorem pairDigits_reverse (s : StdString) :
    pairDigits (s.flatMap fun b => [b.toNat / 16, b.toNat % 16]).reverse = s.reverse := by
  induction s using List.reverseRecOn with
  | nil => rfl
  | append_singleton s b ih =>
    have hb : 16 * (b.toNat / 16) + b.toNat % 16 = b.toNat := Nat.div_add_mod _ _
    simp only [List.flatMap_append, List.flatMap_singleton, List.reverse_append,
      List.reverse_cons, List.reverse_nil, List.nil_append, List.cons_append, pairDigits, ih, hb,
      UInt8.ofNat_toNat]

/-- A hash is read back from the text that shows it. -/
theorem fromHex_toUpper_toHex (s : StdString) : fromHex (toUpper (toHex s)) = s := by
  rw [fromHex, List.filterMap_reverse, filterMap_toUpper_toHex, pairDigits_reverse,
    List.reverse_reverse]

end QByteArray
end ConcealDesktop
