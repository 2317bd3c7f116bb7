import ConcealDesktop.Library.Scanner
import ConcealDesktop.Confirmations

/-! The search for a newer version. Versions are compared by the numbers that an input stream reads
from them, each after one character of any kind. The suffix of the running version is cut off
first; that of the downloaded one is read like the rest of it. -/
namespace ConcealDesktop
open Scanner

namespace StdString

/-- std::isspace in the C locale. -/
def isSpace (c : UInt8) : Bool := c == 0x20 || (0x09 ≤ c && c ≤ 0x0d)

def isDigit (c : UInt8) : Bool := 0x30 ≤ c && c ≤ 0x39

/-- The value of a digit string read in base ten. -/
def digitsValue (s : StdString) : ℕ := s.foldl (fun n c => 10 * n + (c.toNat - 0x30)) 0

/-- Extraction of an int from a stream: blanks are skipped and a sign may follow; without a digit
then, or outside the range of an int, it fails. -/
def getInt (s : StdString) : Option (ℤ × StdString) :=
  let t := s.dropWhile isSpace
  let negative := t.head? == some 0x2d
  let u := if negative || t.head? == some 0x2b then t.tail else t
  let digits := u.takeWhile isDigit
  let value : ℤ := if negative then -digitsValue digits else digitsValue digits
  if digits ≠ [] ∧ -2 ^ 31 ≤ value ∧ value < 2 ^ 31 then some (value, u.dropWhile isDigit) else none

end StdString

open StdString

structure Version where
  versionInfo : List ℤ
  deriving DecidableEq

namespace Version

/-- One character is taken from the stream, whichever it is, and a number after it. -/
def VersionDigit.read : StdString → Option (ℤ × StdString)
  | [] => none
  | _ :: rest => getInt rest

def ofText (versionStr : StdString) : Version :=
  ⟨readAll VersionDigit.read (bytes "." ++ versionStr)⟩

/-- std::lexicographical_compare of the numbers. -/
def lt (v rhs : Version) : Bool := v.versionInfo < rhs.versionInfo

end Version

structure NetworkReply where
  /-- The text of the error, if there was one. -/
  error : Option QString
  data : StdString

namespace Updater

inductive Action
  | notify (text : QString)
  | warning (title text : QString)
  | openUrl (link : QString)
  deriving DecidableEq

/-- The question whether to go to the download page. -/
def updateOffer : Action :=
  .warning (qstr "Conceal Desktop Update")
    (qstr "There is an update available.\nWould you like to go to the download page?")

/-- The text that QString's constructor makes of the downloaded bytes, which it reads up to the
first NUL. -/
def downloadedText (fromUtf8 : StdString → QString) (reply : NetworkReply) : QString :=
  fromUtf8 (reply.data.takeWhile (· != 0))

/-- Updater::replyFinished; `ok` is the answer that the question gets. -/
def replyFinished (fromUtf8 : StdString → QString) (version : QString) (ok : Bool)
    (reply : NetworkReply) : List Action :=
  match reply.error with
  | some errorString =>
    [.notify (qstr "Unable to check for update\n" ++ (qstr "Error: " ++ errorString))]
  | none =>
    let ourVersion := Version.ofText (QString.toUtf8 ((version.splitOn (qchar '-')).headD []))
    let remoteVersion := Version.ofText (downloadedText fromUtf8 reply).toUtf8
    if ourVersion.lt remoteVersion then
      updateOffer ::
        if ok then [.openUrl (qstr "https://github.com/ConcealNetwork/conceal-desktop/releases")]
        else []
    else []

end Updater

/-! ### What a number is -/

namespace StdString

def signedValue (sign digits : StdString) : ℤ :=
  if sign = bytes "-" then -digitsValue digits else digitsValue digits

/-- After one character of any kind, perhaps after blanks and with a sign, all digits up to the
next other character, with a value that fits an int. -/
def SeparatedNumber (s : StdString) (n : ℤ) (rest : StdString) : Prop :=
  ∃ separator blanks sign digits, s = separator :: (blanks ++ (sign ++ (digits ++ rest))) ∧
    (∀ c ∈ blanks, isSpace c) ∧ (sign = [] ∨ sign = bytes "+" ∨ sign = bytes "-") ∧
    digits ≠ [] ∧ (∀ c ∈ digits, isDigit c) ∧ (∀ c, rest.head? = some c → isDigit c = false) ∧
    n = signedValue sign digits ∧ -2 ^ 31 ≤ n ∧ n < 2 ^ 31

theorem isSpace_of_isDigit {c : UInt8} (h : isDigit c) : isSpace c = false := by
  simp only [isDigit, isSpace, Bool.and_eq_true, decide_eq_true_eq, UInt8.le_iff_toNat_le,
    Bool.or_eq_false_iff, Bool.and_eq_false_iff, decide_eq_false_iff_not, beq_eq_false_iff_ne,
    ne_eq, ← UInt8.toNat_inj] at h ⊢
  obtain ⟨h1, h2⟩ := h
  refine ⟨?_, Or.inr ?_⟩
  · change ¬c.toNat = 0x20
    change 0x30 ≤ c.toNat at h1
    omega
  · change ¬c.toNat ≤ 0x0d
    change 0x30 ≤ c.toNat at h1
    omega

/-- The extraction reads a number in full and nothing after it. -/
theorem getInt_number {blanks sign digits rest : StdString} (hblanks : ∀ c ∈ blanks, isSpace c)
    (hsign : sign = [] ∨ sign = bytes "+" ∨ sign = bytes "-") (hne : digits ≠ [])
    (hdigits : ∀ c ∈ digits, isDigit c) (hrest : ∀ c, rest.head? = some c → isDigit c = false) :
    getInt (blanks ++ (sign ++ (digits ++ rest))) =
      if -2 ^ 31 ≤ signedValue sign digits ∧ signedValue sign digits < 2 ^ 31 then
        some (signedValue sign digits, rest) else none := by
  obtain ⟨d, ds, rfl⟩ := List.exists_cons_of_ne_nil hne
  have hd := hdigits d List.mem_cons_self
  have hplus : d ≠ 0x2b := by
    rintro rfl
    exact absurd hd (by decide)
  have hminus : d ≠ 0x2d := by
    rintro rfl
    exact absurd hd (by decide)
  have hhead : ∀ c, (sign ++ (d :: ds ++ rest)).head? = some c → isSpace c = false := by
    rcases hsign with rfl | rfl | rfl
    · rintro c hc
      cases hc
      exact isSpace_of_isDigit hd
    · rintro c hc
      cases hc
      decide
    · rintro c hc
      cases hc
      decide
  have htake := takeWhile_append hdigits hrest
  have hdrop := dropWhile_append hdigits hrest
  rw [List.cons_append] at htake hdrop
  unfold getInt
  rw [dropWhile_append hblanks hhead]
  rcases hsign with rfl | rfl | rfl
  · simp [signedValue, bytes, hplus, hminus, htake, hdrop]
  · simp [signedValue, bytes, htake, hdrop]
  · simp [signedValue, bytes, htake, hdrop]

/-- The text after a sign, as the extraction finds it. -/
theorem exists_sign (t : StdString) : ∃ sign, (sign = [] ∨ sign = bytes "+" ∨ sign = bytes "-") ∧
    (t.head? == some 0x2d) = decide (sign = bytes "-") ∧
    t = sign ++ if t.head? == some 0x2d || t.head? == some 0x2b then t.tail else t := by
  cases t with
  | nil => exact ⟨[], Or.inl rfl, rfl, rfl⟩
  | cons c t =>
    by_cases hminus : c = 0x2d
    · subst hminus
      exact ⟨bytes "-", Or.inr (Or.inr rfl), by simp, rfl⟩
    · by_cases hplus : c = 0x2b
      · subst hplus
        exact ⟨bytes "+", Or.inr (Or.inl rfl), rfl, rfl⟩
      · exact ⟨[], Or.inl rfl, by simp [hminus, bytes], by simp [hminus, hplus]⟩

theorem getInt_eq_some {s rest : StdString} {n : ℤ} (h : getInt s = some (n, rest))
    (separator : UInt8) : SeparatedNumber (separator :: s) n rest := by
  obtain ⟨sign, hsign, hminus, hsplit⟩ := exists_sign (s.dropWhile isSpace)
  generalize hu : (if (s.dropWhile isSpace).head? == some 0x2d ||
    (s.dropWhile isSpace).head? == some 0x2b then (s.dropWhile isSpace).tail
    else s.dropWhile isSpace) = u
  unfold getInt at h
  rw [hu] at hsplit
  simp only [hu] at h
  simp only [hminus, decide_eq_true_eq] at h
  obtain ⟨⟨hne, hlow, hhigh⟩, heq⟩ := Option.ite_none_right_eq_some.mp h
  cases heq
  refine ⟨separator, s.takeWhile isSpace, sign, u.takeWhile isDigit, ?_,
    fun c => List.mem_takeWhile_imp, hsign, hne, fun c => List.mem_takeWhile_imp,
    fun c => head?_dropWhile, rfl, hlow, hhigh⟩
  rw [List.takeWhile_append_dropWhile, ← hsplit, List.takeWhile_append_dropWhile]

/-- What the source reads of a version is the numbers that stand in it. -/
theorem read_eq_some_iff (s : StdString) (n : ℤ) (rest : StdString) :
    Version.VersionDigit.read s = some (n, rest) ↔ SeparatedNumber s n rest := by
  constructor
  · intro h
    cases s with
    | nil => cases h
    | cons separator s => exact getInt_eq_some h separator
  · rintro ⟨separator, blanks, sign, digits, rfl, hblanks, hsign, hne, hdigits, hrest, rfl, hrange⟩
    exact (getInt_number hblanks hsign hne hdigits hrest).trans (if_pos hrange)

theorem read_consumes : Consumes Version.VersionDigit.read := by
  intro s n rest h
  obtain ⟨separator, blanks, sign, digits, rfl, -⟩ := (read_eq_some_iff s n rest).mp h
  simp only [List.length_cons, List.length_append]
  omega

/-! ### Dotted versions -/

/-- Digit strings with these values, joined by dots. -/
def Dotted (text : StdString) (numbers : List ℕ) : Prop :=
  ∃ parts : List StdString, (∀ part ∈ parts, part ≠ [] ∧ ∀ c ∈ part, isDigit c) ∧
    text = (bytes ".").intercalate parts ∧ numbers = parts.map digitsValue

/-- The text in which the numbers after those of a dotted version are looked for. -/
def remainder (numbers : List ℕ) (tail : StdString) : StdString :=
  if numbers = [] then bytes "." ++ tail else tail

/-- Each part with the dot before it. -/
theorem bytes_dot_intercalate {parts : List StdString} (h : parts ≠ []) :
    bytes "." ++ (bytes ".").intercalate parts = parts.flatMap (bytes "." ++ ·) := by
  induction parts with
  | nil => exact absurd rfl h
  | cons part parts ih =>
    cases parts with
    | nil => simp [List.intercalate]
    | cons next parts =>
      rw [List.flatMap_cons, ← ih (List.cons_ne_nil _ _)]
      simp [List.intercalate]

theorem readAll_parts {parts : List StdString} {tail : StdString}
    (hparts : ∀ part ∈ parts, part ≠ [] ∧ ∀ c ∈ part, isDigit c)
    (hbound : ∀ part ∈ parts, digitsValue part < 2 ^ 31)
    (htail : ∀ c, tail.head? = some c → isDigit c = false) :
    readAll Version.VersionDigit.read (parts.flatMap (bytes "." ++ ·) ++ tail) =
      parts.map (fun part => (digitsValue part : ℤ)) ++ readAll Version.VersionDigit.read tail := by
  induction parts with
  | nil => rfl
  | cons part parts ih =>
    obtain ⟨hne, hdigits⟩ := hparts part List.mem_cons_self
    have hlt := hbound part List.mem_cons_self
    have hnext : ∀ c, (parts.flatMap (bytes "." ++ ·) ++ tail).head? = some c →
        isDigit c = false := by
      cases parts with
      | nil => exact htail
      | cons next parts =>
        rintro c hc
        cases hc
        decide
    have hitem : SeparatedNumber (bytes "." ++ part ++ (parts.flatMap (bytes "." ++ ·) ++ tail))
        (digitsValue part) (parts.flatMap (bytes "." ++ ·) ++ tail) :=
      ⟨0x2e, [], [], part, rfl, by simp, Or.inl rfl, hne, hdigits, hnext, rfl, by omega, by omega⟩
    rw [List.flatMap_cons, List.append_assoc,
      readAll_of_some read_consumes ((read_eq_some_iff _ _ _).mpr hitem),
      ih (fun q hq => hparts q (List.mem_cons_of_mem part hq))
        (fun q hq => hbound q (List.mem_cons_of_mem part hq))]
    rfl

theorem versionInfo_dotted {text tail : StdString} {numbers : List ℕ} (h : Dotted text numbers)
    (hbound : ∀ n ∈ numbers, n < 2 ^ 31) (htail : ∀ c, tail.head? = some c → isDigit c = false) :
    (Version.ofText (text ++ tail)).versionInfo = numbers.map Nat.cast ++
      readAll Version.VersionDigit.read (remainder numbers tail) := by
  obtain ⟨parts, hparts, rfl, rfl⟩ := h
  by_cases hnil : parts = []
  · subst hnil
    rfl
  · have hmap : ¬parts.map digitsValue = [] := by simpa using hnil
    rw [remainder, if_neg hmap, Version.ofText, ← List.append_assoc, bytes_dot_intercalate hnil,
      readAll_parts hparts (fun part hpart => hbound _ (List.mem_map_of_mem hpart)) htail,
      List.map_map]
    rfl

end StdString

namespace QString

def ofAscii (s : StdString) : QString := s.map UInt8.toUInt16

theorem utf8Unit_ascii {c : UInt8} (h : c < 0x80) : utf8Unit c.toUInt16 = [c] := by
  have hbyte := QByteArray.forall_byte (P := fun c => c < 0x80 → utf8Unit c.toUInt16 = [c])
    (by decide +kernel) c
  exact hbyte h

theorem isHighSurrogate_ascii (c : UInt8) : isHighSurrogate c.toUInt16 = false :=
  QByteArray.forall_byte (P := fun c => isHighSurrogate c.toUInt16 = false) (by decide +kernel) c

/-- ASCII characters are their own encoding, whatever follows them. -/
theorem toUtf8_ofAscii_append {s : StdString} (h : ∀ c ∈ s, c < 0x80) (t : QString) :
    toUtf8 (ofAscii s ++ t) = s ++ toUtf8 t := by
  induction s with
  | nil => rfl
  | cons c s ih =>
    have hunit := utf8Unit_ascii (h c List.mem_cons_self)
    have hrest := ih fun d hd => h d (List.mem_cons_of_mem c hd)
    rw [List.cons_append, ← hrest]
    cases hu : ofAscii s ++ t with
    | nil =>
      change toUtf8 (c.toUInt16 :: (ofAscii s ++ t)) = _
      simp only [hu, toUtf8, hunit]
    | cons d u =>
      change toUtf8 (c.toUInt16 :: (ofAscii s ++ t)) = _
      rw [hu, toUtf8, isHighSurrogate_ascii, Bool.false_and, if_neg Bool.false_ne_true, hunit]
      rfl

end QString

namespace StdString

/-- A dotted version has digits and dots only. -/
theorem Dotted.ascii {text : StdString} {numbers : List ℕ} (h : Dotted text numbers) :
    ∀ c ∈ text, c < 0x80 ∧ c ≠ 0x2d := by
  obtain ⟨parts, hparts, rfl, -⟩ := h
  intro c hc
  have hne : parts ≠ [] := by
    rintro rfl
    cases hc
  have hmem : c ∈ bytes "." ++ (bytes ".").intercalate parts := List.mem_append_right _ hc
  rw [bytes_dot_intercalate hne, List.mem_flatMap] at hmem
  obtain ⟨part, hpart, hmem⟩ := hmem
  have hascii := QByteArray.forall_byte
    (P := fun c => isDigit c ∨ c = 0x2e → c < 0x80 ∧ c ≠ 0x2d) (by decide +kernel) c
  rcases List.mem_append.mp hmem with hdot | hdigit
  · exact hascii (Or.inr (List.mem_singleton.mp hdot))
  · exact hascii (Or.inl ((hparts part hpart).2 c hdigit))

end StdString

namespace Updater
open QString

/-- A dotted version with these numbers, perhaps with a suffix. -/
def RunningVersion (version : QString) (numbers : List ℕ) : Prop :=
  ∃ text, Dotted text numbers ∧
    (version = ofAscii text ∨ ∃ s, version = ofAscii text ++ qchar '-' :: s)

/-- What may follow the numbers of the downloaded version: a suffix, and a newline. -/
def DownloadedTail (tail : QString) : Prop :=
  ∃ suffix newline, tail = suffix ++ newline ∧
    (suffix = [] ∨ ∃ s, suffix = qchar '-' :: s) ∧ (newline = [] ∨ newline = qstr "\n")

theorem splitOn_runningVersion {version : QString} {numbers : List ℕ}
    (h : RunningVersion version numbers) : ∃ text, Dotted text numbers ∧
      toUtf8 ((version.splitOn (qchar '-')).headD []) = text := by
  obtain ⟨text, hdotted, hversion⟩ := h
  have hdash : qchar '-' ∉ ofAscii text := by
    intro hmem
    obtain ⟨c, hc, hdash⟩ := List.mem_map.mp hmem
    have hcode := QByteArray.forall_byte (P := fun c => c.toUInt16 = qchar '-' → c = 0x2d)
      (by decide +kernel) c
    exact (hdotted.ascii c hc).2 (hcode hdash)
  refine ⟨text, hdotted, ?_⟩
  have htext : (version.splitOn (qchar '-')).headD [] = ofAscii text := by
    rcases hversion with rfl | ⟨s, rfl⟩
    · rw [List.splitOn_eq_singleton hdash]
      rfl
    · rw [List.splitOn_append_cons_self_of_not_mem hdash]
      rfl
  have hutf8 := toUtf8_ofAscii_append (fun c hc => (hdotted.ascii c hc).1) []
  rw [List.append_nil, toUtf8, List.append_nil] at hutf8
  rw [htext, hutf8]

/-- A tail does not go on with the last number of the version before it. -/
theorem head?_downloadedTail {tail : QString} (h : DownloadedTail tail) :
    ∀ c, tail.toUtf8.head? = some c → isDigit c = false := by
  have hsep (d : QChar) (hd : utf8Unit d = [0x2d] ∨ utf8Unit d = [0x0a])
      (hsurrogate : isHighSurrogate d = false) (s : QString) :
      ∀ c, (toUtf8 (d :: s)).head? = some c → isDigit c = false := by
    intro c hc
    have hhead : (toUtf8 (d :: s)).head? = (utf8Unit d).head? := by
      cases s with
      | nil => rw [toUtf8]
      | cons e s =>
        rw [toUtf8, hsurrogate, Bool.false_and, if_neg Bool.false_ne_true]
        rcases hd with hd | hd <;> rw [hd] <;> rfl
    rw [hhead] at hc
    rcases hd with hd | hd
    · rw [hd] at hc
      cases hc
      decide
    · rw [hd] at hc
      cases hc
      decide
  obtain ⟨suffix, newline, rfl, hsuffix, hnewline⟩ := h
  rcases hsuffix with rfl | ⟨s, rfl⟩
  · rcases hnewline with rfl | rfl
    · rintro c hc
      cases hc
    · exact hsep 0x0a (Or.inr (by decide)) (by decide) []
  · exact hsep (qchar '-') (Or.inl (by decide)) (by decide) _

/-! ### The order of the numbers -/

theorem lt_append_iff (l m e : List ℤ) :
    l < m ++ e ↔ l < m ∨ ∃ k, l = m ++ k ∧ k < e := by
  induction m generalizing l with
  | nil => simp
  | cons b m ih =>
    cases l with
    | nil => simp
    | cons a l =>
      rw [List.cons_append, List.cons_lt_cons_iff, List.cons_lt_cons_iff, ih]
      simp only [List.cons_append, List.cons.injEq]
      constructor
      · rintro (hlt | ⟨heq, hlt | ⟨k, hk, hke⟩⟩)
        · exact Or.inl (Or.inl hlt)
        · exact Or.inl (Or.inr ⟨heq, hlt⟩)
        · exact Or.inr ⟨k, ⟨heq, hk⟩, hke⟩
      · rintro ((hlt | ⟨heq, hlt⟩) | ⟨k, ⟨heq, hk⟩, hke⟩)
        · exact Or.inl hlt
        · exact Or.inr ⟨heq, Or.inl hlt⟩
        · exact Or.inr ⟨heq, Or.inr ⟨k, hk, hke⟩⟩

theorem not_append_lt (m k : List ℤ) : ¬m ++ k < m := by
  induction m with
  | nil => simp
  | cons b m ih => simpa [List.cons_lt_cons_iff] using ih

theorem map_cast_lt_iff (l m : List ℕ) : l.map (Nat.cast (R := ℤ)) < m.map Nat.cast ↔ l < m := by
  induction l generalizing m with
  | nil => cases m <;> simp
  | cons a l ih =>
    cases m with
    | nil => simp
    | cons b m => simp [List.cons_lt_cons_iff, ih]

/-- More numbers on the right change the comparison only where the left begins with all of them. -/
theorem lt_append_agree_iff (l m : List ℕ) (e : List ℤ) :
    (l.map Nat.cast < m.map Nat.cast ++ e ↔ l < m) ↔
      ¬∃ k : List ℕ, l = m ++ k ∧ k.map Nat.cast < e := by
  rw [lt_append_iff, map_cast_lt_iff]
  constructor
  · rintro h ⟨k, rfl, hke⟩
    have hlt := h.mp (Or.inr ⟨k.map Nat.cast, List.map_append, hke⟩)
    rw [← map_cast_lt_iff, List.map_append] at hlt
    exact not_append_lt _ _ hlt
  · intro h
    refine ⟨fun hlt => hlt.resolve_right ?_, Or.inl⟩
    rintro ⟨k, hk, hke⟩
    obtain ⟨start, rest, rfl, hstart, rfl⟩ := List.map_eq_append_iff.mp hk
    have hinj := List.map_injective_iff.mpr (Nat.cast_injective (R := ℤ)) hstart
    exact h ⟨rest, by rw [hinj], hke⟩

/-! ### When an update is offered -/

section Offers

variable (fromUtf8 : StdString → QString) {version tail : QString} {text : StdString}
  {ours theirs : List ℕ} (ok : Bool) {reply : NetworkReply}

theorem updateOffer_mem_iff (herror : reply.error = none) :
    updateOffer ∈ replyFinished fromUtf8 version ok reply ↔
      (Version.ofText (toUtf8 ((version.splitOn (qchar '-')).headD []))).versionInfo <
        (Version.ofText (downloadedText fromUtf8 reply).toUtf8).versionInfo := by
  unfold replyFinished
  rw [herror]
  simp only [Version.lt, decide_eq_true_eq]
  split_ifs with hlt hok
  · exact iff_of_true List.mem_cons_self hlt
  · exact iff_of_true List.mem_cons_self hlt
  · exact iff_of_false List.not_mem_nil hlt

/-- The comparison is right exactly unless the running version begins with all numbers of the
downloaded one and numbers that stand in the suffix exceed the others. -/
theorem replyFinished_iff (hversion : RunningVersion version ours) (hours : ∀ n ∈ ours, n < 2 ^ 31)
    (htext : Dotted text theirs) (htheirs : ∀ n ∈ theirs, n < 2 ^ 31)
    (htail : DownloadedTail tail) (herror : reply.error = none)
    (hreply : downloadedText fromUtf8 reply = ofAscii text ++ tail) :
    (updateOffer ∈ replyFinished fromUtf8 version ok reply ↔ ours < theirs) ↔
      ¬∃ (others : List ℕ) (numbers : List ℤ), ours = theirs ++ others ∧
        Scanned SeparatedNumber (remainder theirs tail.toUtf8) numbers ∧
        others.map Nat.cast < numbers := by
  obtain ⟨own, hown, hsplit⟩ := splitOn_runningVersion hversion
  have hutf8 := toUtf8_ofAscii_append (fun c hc => (htext.ascii c hc).1) tail
  have hleft : (Version.ofText (own ++ [])).versionInfo = _ :=
    versionInfo_dotted hown hours fun c hc => nomatch hc
  have hright := versionInfo_dotted htext htheirs (head?_downloadedTail htail)
  rw [List.append_nil] at hleft
  have hstop : readAll Version.VersionDigit.read (remainder ours []) = [] := by
    unfold remainder
    split_ifs <;> rfl
  rw [updateOffer_mem_iff fromUtf8 ok herror, hsplit, hreply, hutf8, hleft, hright, hstop,
    List.append_nil, lt_append_agree_iff]
  simp only [scanned_iff read_consumes read_eq_some_iff]
  constructor
  · rintro h ⟨others, numbers, rfl, rfl, hlt⟩
    exact h ⟨others, rfl, hlt⟩
  · rintro h ⟨others, rfl, hlt⟩
    exact h ⟨others, _, rfl, rfl, hlt⟩

end Offers

theorem replyFinished_iff_next :
    (updateOffer ∈ replyFinished ofAscii (qstr "6.7.8-1") true ⟨none, bytes "6.8.0\n"⟩ ↔
      [6, 7, 8] < [6, 8, 0]) ↔
      ¬∃ (others : List ℕ) (numbers : List ℤ), [6, 7, 8] = [6, 8, 0] ++ others ∧
        Scanned SeparatedNumber (remainder [6, 8, 0] (toUtf8 (qstr "\n"))) numbers ∧
        others.map Nat.cast < numbers :=
  replyFinished_iff ofAscii true
    ⟨bytes "6.7.8", ⟨[bytes "6", bytes "7", bytes "8"], by decide +kernel, rfl, rfl⟩,
      Or.inr ⟨qstr "1", by decide⟩⟩ (by decide)
    (⟨[bytes "6", bytes "8", bytes "0"], by decide +kernel, rfl, rfl⟩ :
      Dotted (bytes "6.8.0") [6, 8, 0]) (by decide)
    ⟨[], qstr "\n", rfl, Or.inl rfl, Or.inr rfl⟩ rfl (by decide)

/-- A running version with a suffix is offered itself as an update. -/
theorem replyFinished_same_version :
    RunningVersion (qstr "6.7.8-1") [6, 7, 8] ∧
    downloadedText ofAscii ⟨none, bytes "6.7.8-1"⟩ = qstr "6.7.8-1" ∧
    updateOffer ∈ replyFinished ofAscii (qstr "6.7.8-1") true ⟨none, bytes "6.7.8-1"⟩ ∧
    ¬[6, 7, 8] < [6, 7, 8] := by
  refine ⟨?_, by decide, by decide, by decide⟩
  exact ⟨bytes "6.7.8", ⟨[bytes "6", bytes "7", bytes "8"], by decide +kernel, rfl, rfl⟩,
    Or.inr ⟨qstr "1", by decide⟩⟩

end Updater
end ConcealDesktop
