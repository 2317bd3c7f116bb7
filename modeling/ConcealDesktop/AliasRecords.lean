import ConcealDesktop.Library.Occurrences
import ConcealDesktop.SendMessage

/-! The records of an alias. A record names an address if a recipient address of 98 characters
follows, ended by a semicolon. Without any semicolon processServerAliasResponse says that it has
found an address and leaves its output as it was, and the loops of both Send buttons then pay to
whatever that is. -/
namespace ConcealDesktop
open Occurrences

namespace StdString

theorem findFirst_eq_some_iff {needle s : StdString} (hne : needle ≠ []) {p : ℕ} :
    findFirst needle s = some p ↔ FirstAt needle s 0 p := by
  induction s generalizing p with
  | nil =>
    rw [findFirst, if_neg hne]
    constructor
    · intro h
      cases h
    · rintro ⟨-, hat, -⟩
      rw [List.drop_nil, List.prefix_nil] at hat
      exact absurd hat hne
  | cons c s ih =>
    rw [findFirst, firstAt_cons_iff, ← List.isPrefixOf_iff_prefix]
    split_ifs with hhead
    · simp [hhead, eq_comm]
    · simp [hhead, ih]

/-- A search finds the first occurrence. -/
theorem find_eq_some_iff {s needle : StdString} (hne : needle ≠ []) {pos p : ℕ} :
    find s needle pos = some p ↔ FirstAt needle s pos p := by
  unfold find
  split_ifs with hpos
  · rw [Option.map_eq_some_iff]
    simp only [findFirst_eq_some_iff hne, firstAt_drop_iff]
    constructor
    · rintro ⟨q, hq, rfl⟩
      exact hq
    · intro h
      refine ⟨p - pos, ?_, Nat.add_sub_cancel' h.1⟩
      rwa [Nat.add_sub_cancel' h.1]
  · constructor
    · intro h
      cases h
    · intro h
      have hle := h.add_length_le hne
      have hstart := h.1
      omega

theorem find_eq_none_iff {s needle : StdString} (hne : needle ≠ []) {pos : ℕ} :
    find s needle pos = none ↔ ∀ p, ¬ FirstAt needle s pos p := by
  rw [Option.eq_none_iff_forall_ne_some]
  simp only [ne_eq, find_eq_some_iff hne]

/-- The form of a character is one ASCII byte, or none of its bytes is ASCII. -/
theorem utf8EncodeChar_cases (c : Char) : (∃ b, String.utf8EncodeChar c = [b]) ∨
    ∀ b ∈ String.utf8EncodeChar c, 0x80 ≤ b := by
  have h80 : (0x80 : UInt8).toNat = 0x80 := rfl
  unfold String.utf8EncodeChar
  dsimp only
  split_ifs
  · exact .inl ⟨_, rfl⟩
  all_goals
    right
    simp only [List.mem_cons, List.not_mem_nil, or_false, forall_eq_or_imp, forall_eq,
      UInt8.le_iff_toNat_le, h80, UInt8.toNat_ofNat']
    omega

/-- An ASCII byte in a text stands between two texts. -/
theorem Utf8.of_append_cons {s rest : StdString} {b : UInt8} (h : Utf8 (s ++ b :: rest))
    (hb : b < 0x80) : Utf8 s ∧ Utf8 rest := by
  obtain ⟨text, htext⟩ := h
  induction text generalizing s with
  | nil => simp at htext
  | cons c text ih =>
    rw [List.flatMap_cons] at htext
    rcases List.append_eq_append_iff.mp htext with ⟨s', rfl, hrest⟩ | ⟨inner, hc, hrest⟩
    · obtain ⟨⟨before, rfl⟩, hlast⟩ := ih hrest
      exact ⟨⟨c :: before, List.flatMap_cons⟩, hlast⟩
    · cases inner with
      | nil =>
        obtain ⟨-, hlast⟩ := ih (s := []) hrest.symm
        exact ⟨⟨[c], by simpa using hc⟩, hlast⟩
      | cons d inner =>
        obtain ⟨rfl, rfl⟩ := List.cons.inj hrest
        -- The byte lies in the form of this character, which is then that byte alone.
        rcases utf8EncodeChar_cases c with ⟨b', hsingle⟩ | hhigh
        · rw [hsingle] at hc
          cases s with
          | nil =>
            obtain ⟨-, hinner⟩ := List.cons.inj hc
            rw [← hinner]
            exact ⟨utf8_nil, text, rfl⟩
          | cons c' s => simp at hc
        · exact absurd (hhigh b (by rw [hc]; simp)) (UInt8.not_le.mpr hb)

end StdString

namespace AliasRecords
open CurrencyAdapter OverviewFrame

/-- The text after the first recipient_address= that follows the first oa1:ccx. -/
def Value (s value : StdString) : Prop :=
  ∃ oa key, FirstAt (bytes "oa1:ccx") s 0 oa ∧ FirstAt (bytes "recipient_address=") s oa key ∧
    value = s.drop (key + 18)

/-- The record names the address: the value begins with its 98 characters and a semicolon. -/
def Names (s address : StdString) : Prop :=
  ∃ value, Value s value ∧ Field 0x3b address value ∧ address.length = 98

/-- The value of the record has no semicolon. -/
def Unterminated (s : StdString) : Prop := ∃ value, Value s value ∧ 0x3b ∉ value

/-- What processServerAliasResponse is to return. -/
def Specified (s address : StdString) (result : Bool × StdString) : Prop :=
  (∃ found, Names s found ∧ result = (true, found)) ∨
    (∀ found, ¬ Names s found) ∧ result = (false, address)

section Parser

variable {s address value found : StdString}

theorem Value.unique {value' : StdString} (h : Value s value) (h' : Value s value') :
    value = value' := by
  obtain ⟨oa, key, hoa, hkey, rfl⟩ := h
  obtain ⟨oa', key', hoa', hkey', rfl⟩ := h'
  obtain rfl := hoa.unique hoa'
  obtain rfl := hkey.unique hkey'
  rfl

theorem Names.unique {found' : StdString} (h : Names s found) (h' : Names s found') :
    found = found' := by
  obtain ⟨value, hvalue, hfield, -⟩ := h
  obtain ⟨value', hvalue', hfield', -⟩ := h'
  obtain rfl := hvalue.unique hvalue'
  exact hfield.unique hfield'

theorem Names.not_unterminated (h : Names s found) : ¬ Unterminated s := by
  obtain ⟨value, hvalue, hfield, -⟩ := h
  rintro ⟨value', hvalue', hnone⟩
  obtain rfl := hvalue.unique hvalue'
  exact hnone (exists_field_iff.mp ⟨found, hfield⟩)

/-- A record without the two keys is refused. -/
theorem processServerAliasResponse_of_no_value (h : ∀ value, ¬ Value s value) :
    processServerAliasResponse s address = (false, address) := by
  unfold processServerAliasResponse
  cases hoa : s.find (bytes "oa1:ccx") 0 with
  | none => rfl
  | some oa =>
    rw [StdString.find_eq_some_iff (by decide)] at hoa
    cases hkey : s.find (bytes "recipient_address=") oa with
    | none => simp only [hkey]
    | some key =>
      rw [StdString.find_eq_some_iff (by decide)] at hkey
      exact absurd ⟨oa, key, hoa, hkey, rfl⟩ (h (s.drop (key + 18)))

/-- With the two keys it depends on the field that the first semicolon ends, if there is one. -/
theorem processServerAliasResponse_of_value (h : Value s value) (address : StdString) :
    (0x3b ∉ value ∧ processServerAliasResponse s address = (true, address)) ∨
      ∃ found, Field 0x3b found value ∧ processServerAliasResponse s address =
        if found.length = 98 then (true, found) else (false, address) := by
  obtain ⟨oa, key, hoa, hkey, rfl⟩ := h
  have hfits := hkey.add_length_le (by decide)
  have hlength : (bytes "recipient_address=").length = 18 := by decide
  rw [hlength] at hfits
  unfold processServerAliasResponse
  rw [← StdString.find_eq_some_iff (by decide)] at hoa hkey
  simp only [hoa, hkey]
  cases hend : s.find (bytes ";") (key + 18) with
  | none =>
    refine .inl ⟨?_, rfl⟩
    intro hmem
    obtain ⟨field, hfield⟩ := exists_field_iff.mpr hmem
    rw [StdString.find_eq_none_iff (by decide)] at hend
    exact hend _ (firstAt_drop_iff.mp hfield.firstAt)
  | some pos2 =>
    rw [StdString.find_eq_some_iff (by decide)] at hend
    obtain ⟨n, rfl⟩ := Nat.exists_eq_add_of_le hend.1
    have hn := hend.add_length_le (by decide)
    have hfield : Field 0x3b ((s.drop (key + 18)).take n) (s.drop (key + 18)) :=
      (firstAt_drop_iff.mpr hend).field
    have htake : ((s.drop (key + 18)).take n).length = n := by
      rw [List.length_take, List.length_drop]
      omega
    refine .inr ⟨_, hfield, ?_⟩
    simp only [Nat.add_sub_cancel_left, htake]
    split_ifs with h98
    · simp only [StdString.substr, if_pos hfits, h98]
    · rfl

/-- What the function returns for the three kinds of records. -/
theorem processServerAliasResponse_cases (s address : StdString) :
    Unterminated s ∧ processServerAliasResponse s address = (true, address) ∨
      (∃ found, Names s found ∧ processServerAliasResponse s address = (true, found)) ∨
      ¬ Unterminated s ∧ (∀ found, ¬ Names s found) ∧
        processServerAliasResponse s address = (false, address) := by
  by_cases hkeys : ∃ value, Value s value
  · obtain ⟨value, hvalue⟩ := hkeys
    rcases processServerAliasResponse_of_value hvalue address with
      ⟨hnone, hresult⟩ | ⟨found, hfield, hresult⟩
    · exact .inl ⟨⟨value, hvalue, hnone⟩, hresult⟩
    · split_ifs at hresult with h98
      · exact .inr (.inl ⟨found, ⟨value, hvalue, hfield, h98⟩, hresult⟩)
      · refine .inr (.inr ⟨?_, ?_, hresult⟩)
        · rintro ⟨value', hvalue', hnone⟩
          obtain rfl := hvalue.unique hvalue'
          exact hnone (exists_field_iff.mp ⟨found, hfield⟩)
        · rintro found' ⟨value', hvalue', hfield', h98'⟩
          obtain rfl := hvalue.unique hvalue'
          rw [hfield'.unique hfield] at h98'
          exact h98 h98'
  · rw [not_exists] at hkeys
    refine .inr (.inr ⟨?_, ?_, processServerAliasResponse_of_no_value hkeys⟩)
    · rintro ⟨value, hvalue, -⟩
      exact hkeys value hvalue
    · rintro found ⟨value, hvalue, -⟩
      exact hkeys value hvalue

/-- The function keeps to its specification exactly for the records that are not unterminated. -/
theorem processServerAliasResponse_specified_iff (s address : StdString) :
    Specified s address (processServerAliasResponse s address) ↔ ¬ Unterminated s := by
  rcases processServerAliasResponse_cases s address with
    ⟨hun, hresult⟩ | ⟨found, hnames, hresult⟩ | ⟨hun, hnone, hresult⟩
  · refine iff_of_false ?_ (not_not_intro hun)
    rw [hresult]
    rintro (⟨found, hnames, -⟩ | ⟨-, hsame⟩)
    · exact hnames.not_unterminated hun
    · cases hsame
  · exact iff_of_true (.inl ⟨found, hnames, hresult⟩) hnames.not_unterminated
  · exact iff_of_true (.inr ⟨hnone, hresult⟩) hun

end Parser

/-- An address that one of the records names. -/
def NamedIn (records : List StdString) (address : StdString) : Prop :=
  ∃ record ∈ records, Names record address

/-- Before every unterminated record there is one that names an address. -/
def NamesFirst (records : List StdString) : Prop :=
  ∀ before record after, records = before ++ record :: after → Unterminated record →
    ∃ found, NamedIn before found

/-- Every address that a record names is read as the text of the field or as an address that a
record up to there names. -/
def ReadAsNamed (core : ConcealCore) (records : List StdString) (address : StdString) : Prop :=
  ∀ before record after found, records = before ++ record :: after → Names record found →
    core.fromStdString found = address ∨
      NamedIn (before ++ [record]) (core.fromStdString found)

/-- At every point of a loop over the records, `destination` is the text of the field or an address
that a record up to there names. -/
def KeepsDestination (records : List StdString) (destination : List StdString → StdString)
    (address : StdString) : Prop :=
  ∀ processed, processed <+: records →
    destination processed = address ∨ NamedIn processed (destination processed)

section Loops

variable {core : ConcealCore} {records : List StdString} {record address : StdString}

/-- One record in either loop, on the output variable and the destination. -/
def readRecord (core : ConcealCore) (s : StdString × StdString) (record : StdString) :
    StdString × StdString :=
  match processServerAliasResponse record s.1 with
  | (true, realAddress) => (realAddress, core.fromStdString realAddress)
  | (false, realAddress) => (realAddress, s.2)

/-- The output variable and the destination after the records. -/
def afterRecords (core : ConcealCore) (records : List StdString) (address : StdString) :
    StdString × StdString :=
  records.foldl (readRecord core) ([], address)

theorem readMessageRecords_eq_foldl (records : List StdString) (realAddress address : StdString) :
    readMessageRecords core records realAddress address =
      (records.foldl (readRecord core) (realAddress, address)).2 := by
  induction records generalizing realAddress address with
  | nil => rfl
  | cons record records ih =>
    rw [List.foldl_cons, readMessageRecords, readRecord]
    rcases processServerAliasResponse record realAddress with ⟨_ | _, found⟩
    · exact ih found address
    · exact ih found (core.fromStdString found)

/-- The loop of sendFundsClicked sets the destination as the one of sendMessageClicked does. -/
theorem readRecords_address (records : List StdString) (realAddress : StdString) (r : Recipient) :
    (readRecords core records realAddress r).address =
      readMessageRecords core records realAddress r.address := by
  induction records generalizing realAddress r with
  | nil => rfl
  | cons record records ih =>
    rw [readRecords, readMessageRecords]
    rcases processServerAliasResponse record realAddress with ⟨_ | _, found⟩
    · exact ih found r
    · exact ih found (setAliasAddress r (core.fromStdString found))

theorem afterRecords_concat (records : List StdString) (record address : StdString) :
    afterRecords core (records ++ [record]) address =
      readRecord core (afterRecords core records address) record := by
  unfold afterRecords
  rw [List.foldl_append]
  rfl

theorem NamedIn.mono {more : List StdString} (h : NamedIn records address) :
    NamedIn (records ++ more) address := by
  obtain ⟨record, hrecord, hnames⟩ := h
  exact ⟨record, List.mem_append_left more hrecord, hnames⟩

theorem Names.namedIn_concat (h : Names record address) : NamedIn (records ++ [record]) address :=
  ⟨record, List.mem_append_right _ (List.mem_singleton_self _), h⟩

theorem NamesFirst.of_append {more : List StdString} (h : NamesFirst (records ++ more)) :
    NamesFirst records := by
  rintro before record after rfl hun
  exact h before record (after ++ more) (List.append_assoc _ _ _) hun

theorem ReadAsNamed.of_append {more : List StdString}
    (h : ReadAsNamed core (records ++ more) address) : ReadAsNamed core records address := by
  rintro before record after found rfl hnames
  exact h before record (after ++ more) found (List.append_assoc _ _ _) hnames

/-- Nothing has been set, or the destination is the text of the output variable, which holds an
address that a record names, and it is the text of the field or such an address itself. -/
def LoopInvariant (core : ConcealCore) (records : List StdString) (address : StdString)
    (s : StdString × StdString) : Prop :=
  (s = ([], address) ∧ ∀ found, ¬ NamedIn records found) ∨
    s.2 = core.fromStdString s.1 ∧ NamedIn records s.1 ∧ (s.2 = address ∨ NamedIn records s.2)

theorem loopInvariant_readRecord {s : StdString × StdString}
    (h : LoopInvariant core records address s)
    (hfirst : Unterminated record → ∃ found, NamedIn records found)
    (hread : ∀ found, Names record found → core.fromStdString found = address ∨
      NamedIn (records ++ [record]) (core.fromStdString found)) :
    LoopInvariant core (records ++ [record]) address (readRecord core s record) := by
  unfold readRecord
  rcases processServerAliasResponse_cases record s.1 with
    ⟨hun, hresult⟩ | ⟨found, hnames, hresult⟩ | ⟨-, hnone, hresult⟩
  · rw [hresult]
    rcases h with ⟨-, hnone⟩ | ⟨hsame, hnamed, hkept⟩
    · obtain ⟨found, hfound⟩ := hfirst hun
      exact absurd hfound (hnone found)
    · rw [hsame] at hkept
      exact .inr ⟨rfl, hnamed.mono, hkept.imp_right NamedIn.mono⟩
  · rw [hresult]
    exact .inr ⟨rfl, hnames.namedIn_concat, hread found hnames⟩
  · rw [hresult]
    rcases h with ⟨rfl, hbefore⟩ | ⟨hsame, hnamed, hkept⟩
    · refine .inl ⟨rfl, ?_⟩
      rintro found ⟨record', hrecord', hnames⟩
      rcases List.mem_append.mp hrecord' with hbefore' | hlast
      · exact hbefore found ⟨record', hbefore', hnames⟩
      · obtain rfl := List.mem_singleton.mp hlast
        exact hnone found hnames
    · exact .inr ⟨hsame, hnamed.mono, hkept.imp_right NamedIn.mono⟩

theorem loopInvariant_afterRecords (h : NamesFirst records)
    (hread : ReadAsNamed core records address) :
    LoopInvariant core records address (afterRecords core records address) := by
  induction records using List.reverseRecOn with
  | nil => exact .inl ⟨rfl, fun _ ⟨_, hrecord, _⟩ => List.not_mem_nil hrecord⟩
  | append_singleton records record ih =>
    rw [afterRecords_concat]
    exact loopInvariant_readRecord (ih h.of_append hread.of_append) (h records record [] rfl)
      fun found => hread records record [] found rfl

/-- Without a record that names an address the output variable stays empty. -/
theorem afterRecords_unnamed (h : ∀ found, ¬ NamedIn records found) (address : StdString) :
    (afterRecords core records address).1 = [] := by
  induction records using List.reverseRecOn with
  | nil => rfl
  | append_singleton records record ih =>
    have hempty := ih fun found hfound => h found hfound.mono
    rw [afterRecords_concat, readRecord, hempty]
    rcases processServerAliasResponse_cases record [] with
      ⟨-, hresult⟩ | ⟨found, hnames, -⟩ | ⟨-, -, hresult⟩
    · rw [hresult]
    · exact absurd hnames.namedIn_concat (h found)
    · rw [hresult]

theorem fromStdString_nil (core : ConcealCore) : core.fromStdString [] = [] :=
  core.fromStdString_of_utf8 [] StdString.utf8_nil

/-- An unterminated record empties the destination as long as no record has named an address. -/
theorem afterRecords_unterminated (hnone : ∀ found, ¬ NamedIn records found)
    (hun : Unterminated record) :
    (afterRecords core (records ++ [record]) address).2 = [] := by
  rw [afterRecords_concat, readRecord, afterRecords_unnamed hnone]
  rcases processServerAliasResponse_cases record [] with
    ⟨-, hresult⟩ | ⟨found, hnames, -⟩ | ⟨hnot, -⟩
  · rw [hresult]
    exact fromStdString_nil core
  · exact absurd hun hnames.not_unterminated
  · exact absurd hun hnot

/-- A record that names an address sets the destination to its text. -/
theorem afterRecords_names {found : StdString} (hnames : Names record found) :
    (afterRecords core (records ++ [record]) address).2 = core.fromStdString found := by
  rw [afterRecords_concat, readRecord]
  rcases processServerAliasResponse_cases record (afterRecords core records address).1 with
    ⟨hun, -⟩ | ⟨found', hnames', hresult⟩ | ⟨-, hnone, -⟩
  · exact absurd hun hnames.not_unterminated
  · rw [hresult, hnames.unique hnames']
  · exact absurd hnames (hnone found)

theorem not_namedIn_nil : ¬ NamedIn records [] := by
  rintro ⟨record, -, value, -, -, hlength⟩
  cases hlength

/-- The loops keep the destination exactly when no unterminated record comes first and the
addresses that the records name are read as such. -/
theorem keepsDestination_iff (haddress : address ≠ []) :
    KeepsDestination records (fun processed => readMessageRecords core processed [] address)
        address ↔ NamesFirst records ∧ ReadAsNamed core records address := by
  have hdestination (processed : List StdString) : readMessageRecords core processed [] address =
      (afterRecords core processed address).2 := readMessageRecords_eq_foldl processed [] address
  simp only [KeepsDestination, hdestination]
  constructor
  · intro hkeeps
    have hpoint (before after : List StdString) (record : StdString)
        (hrecords : records = before ++ record :: after) :=
      hkeeps (before ++ [record]) ⟨after, by rw [hrecords, List.append_assoc]; rfl⟩
    constructor
    · intro before record after hrecords hun
      by_contra hnone
      rw [not_exists] at hnone
      have hkept := hpoint before after record hrecords
      rw [afterRecords_unterminated hnone hun] at hkept
      rcases hkept with hempty | hnamed
      · exact haddress hempty.symm
      · exact not_namedIn_nil hnamed
    · intro before record after found hrecords hnames
      have hkept := hpoint before after record hrecords
      rwa [afterRecords_names hnames] at hkept
  · rintro ⟨hfirst, hread⟩ processed ⟨after, rfl⟩
    rcases loopInvariant_afterRecords hfirst.of_append hread.of_append with
      ⟨hunset, -⟩ | ⟨-, -, hkept⟩
    · rw [hunset]
      exact .inl rfl
    · exact hkept

/-- An address that is named between ASCII characters is a text if the record is. -/
theorem Names.utf8 {found : StdString} (h : Names record found) (hutf8 : record.Utf8) :
    found.Utf8 := by
  obtain ⟨_, ⟨oa, key, -, hkey, rfl⟩, hfield, -⟩ := h
  obtain ⟨value, hvalue⟩ := hkey.2.1
  obtain ⟨rest, hrest⟩ := hfield.ended
  have hdrop : record.drop (key + 18) = value := by
    rw [← List.drop_drop, ← hvalue]
    exact List.drop_left' (by decide)
  have hsplit : record = (record.take key ++ bytes "recipient_address") ++
      0x3d :: (found ++ 0x3b :: rest) := by
    have hfound : found ++ 0x3b :: rest = value := by
      rw [← hdrop, ← hrest, List.append_assoc]
      rfl
    rw [hfound, List.append_assoc]
    refine (List.take_append_drop key record).symm.trans ?_
    rw [← hvalue]
    rfl
  rw [hsplit] at hutf8
  exact ((hutf8.of_append_cons (by decide)).2.of_append_cons (by decide)).1

/-- Records in UTF-8 are read as they are. -/
theorem readAsNamed_of_utf8 (h : ∀ record ∈ records, record.Utf8) :
    ReadAsNamed core records address := by
  rintro before record after found rfl hnames
  have hutf8 := hnames.utf8 (h record (by simp))
  rw [core.fromStdString_of_utf8 found hutf8]
  exact .inr hnames.namedIn_concat

/-- Whatever the records are, a loop leaves the text of the field, the text of an address that a
record names, or nothing at all. -/
theorem afterRecords_cases (core : ConcealCore) (records : List StdString)
    (address : StdString) :
    let s := afterRecords core records address
    (s.1 = [] ∨ NamedIn records s.1) ∧ (s.2 = address ∨ s.2 = [] ∨
      ∃ found, NamedIn records found ∧ s.2 = core.fromStdString found) := by
  induction records using List.reverseRecOn with
  | nil => exact ⟨.inl rfl, .inl rfl⟩
  | append_singleton records record ih =>
    obtain ⟨hreal, hdestination⟩ := ih
    rw [afterRecords_concat, readRecord]
    have hmore {a : StdString} (h : NamedIn records a) : NamedIn (records ++ [record]) a := h.mono
    rcases processServerAliasResponse_cases record (afterRecords core records address).1 with
      ⟨-, hresult⟩ | ⟨found, hnames, hresult⟩ | ⟨-, -, hresult⟩
    · rw [hresult]
      refine ⟨hreal.imp_right hmore, .inr ?_⟩
      rcases hreal with hempty | hnamed
      · rw [hempty]
        exact .inl (fromStdString_nil core)
      · exact .inr ⟨_, hmore hnamed, rfl⟩
    · have hfound : NamedIn (records ++ [record]) found := hnames.namedIn_concat
      rw [hresult]
      exact ⟨.inr hfound, .inr (.inr ⟨found, hfound, rfl⟩)⟩
    · rw [hresult]
      refine ⟨hreal.imp_right hmore, hdestination.imp_right (Or.imp_right ?_)⟩
      rintro ⟨found, hnamed, hread⟩
      exact ⟨found, hmore hnamed, hread⟩

theorem readRecords_address_cases (core : ConcealCore) (records : List StdString)
    (r : Recipient) :
    (readRecords core records [] r).address = r.address ∨
      (readRecords core records [] r).address = [] ∨
      ∃ found, NamedIn records found ∧
        (readRecords core records [] r).address = core.fromStdString found := by
  rw [readRecords_address, readMessageRecords_eq_foldl]
  exact (afterRecords_cases core records r.address).2

theorem ne_nil_of_alias (h : isValidOpenAliasAddress address = true) : address ≠ [] := by
  rintro rfl
  cases h

end Loops

/-- The parser keeps to its specification exactly for the records that are not unterminated. The
loops over the records of an alias keep the destination exactly when none of these comes before a
record that names an address and the addresses are read as they are named, which they are when
the records are UTF-8. -/
theorem records_specified_iff (core : ConcealCore) (s address text : StdString)
    (records : List StdString) (r : Recipient) :
    (Specified s address (processServerAliasResponse s address) ↔ ¬ Unterminated s) ∧
    (isValidOpenAliasAddress r.address = true →
      (KeepsDestination records (fun processed => (readRecords core processed [] r).address)
        r.address ↔ NamesFirst records ∧ ReadAsNamed core records r.address)) ∧
    (isValidOpenAliasAddress text = true →
      (KeepsDestination records (fun processed => readMessageRecords core processed [] text)
        text ↔ NamesFirst records ∧ ReadAsNamed core records text)) ∧
    ((∀ record ∈ records, record.Utf8) → ReadAsNamed core records r.address ∧
      ReadAsNamed core records text) := by
  refine ⟨processServerAliasResponse_specified_iff s address, ?_, ?_, ?_⟩
  · intro halias
    simp only [readRecords_address]
    exact keepsDestination_iff (ne_nil_of_alias halias)
  · intro halias
    exact keepsDestination_iff (ne_nil_of_alias halias)
  · intro hutf8
    exact ⟨readAsNamed_of_utf8 hutf8, readAsNamed_of_utf8 hutf8⟩

/-- A record without a semicolon. -/
def openRecord : StdString := bytes "oa1:ccx recipient_address=x"

/-- A core whose every alias has that record. -/
def openRecordCore : ConcealCore :=
  { basePointCore with fetch_dns_txt := fun _ => some (true, [openRecord]) }

/-- The record is said to have an address, and a message to its alias is submitted to the empty
destination. -/
theorem openRecord_redirects :
    processServerAliasResponse openRecord [] = (true, []) ∧
      ¬ Specified openRecord [] (processServerAliasResponse openRecord []) ∧
      readMessageRecords openRecordCore [openRecord] [] (bytes "a.b") = [] ∧
      ¬ KeepsDestination [openRecord]
        (fun processed => readMessageRecords openRecordCore processed [] (bytes "a.b"))
        (bytes "a.b") ∧
      sendMessageClicked (List.map UInt16.toUInt8) openRecordCore (embeddedFrame 2000) 2000 0
        { plainMessage with addressMessageEdit := bytes "a.b" } =
          .ok (some ⟨[⟨[], 100⟩], 1000, [⟨[], bytes "hi"⟩], 0⟩) := by
  have hresult : processServerAliasResponse openRecord [] = (true, []) := by decide +kernel
  have hdestination : readMessageRecords openRecordCore [openRecord] [] (bytes "a.b") = [] := by
    decide +kernel
  refine ⟨hresult, ?_, hdestination, ?_, by decide +kernel⟩
  · rw [hresult]
    rintro (⟨found, ⟨value, -, -, hlength⟩, hsame⟩ | ⟨-, hsame⟩)
    · cases hsame
      cases hlength
    · cases hsame
  · intro hkeeps
    have hpoint := hkeeps [openRecord] (List.prefix_refl _)
    simp only [hdestination] at hpoint
    rcases hpoint with hsame | hnamed
    · cases hsame
    · exact not_namedIn_nil hnamed

end AliasRecords
end ConcealDesktop
