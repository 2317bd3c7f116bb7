import ConcealDesktop.Qrencode.Qrinput

/-! A reader of the data in a QR code, and the data that it finds in what libqrencode writes. A
segment is a mode, a count and that many characters; the segments end at the end mark, or where
no mode fits any more. -/
namespace ConcealDesktop.Qrencode
open BitFields QRencodeMode

section Reader

def digitChar (v : ℕ) : UInt8 := UInt8.ofNat (48 + v)

def readDigits : ℕ → Reader (List UInt8)
  | n + 3 => (take 10).bind fun v => (readDigits n).bind fun rest =>
      Reader.pure ([digitChar (v / 100), digitChar (v / 10 % 10), digitChar (v % 10)] ++ rest)
  | 2 => (take 7).bind fun v => Reader.pure [digitChar (v / 10), digitChar (v % 10)]
  | 1 => (take 4).bind fun v => Reader.pure [digitChar v]
  | 0 => Reader.pure []

/-- The characters of the alphanumeric mode in the order of their values. -/
def letters : List Char := "0123456789ABCDEFGHIJKLMNOPQRSTUVWXYZ $%*+-./:".toList

def letterChar (v : ℕ) : UInt8 := UInt8.ofNat (letters.getD v '0').toNat

def readLetters : ℕ → Reader (List UInt8)
  | n + 2 => (take 11).bind fun v => (readLetters n).bind fun rest =>
      Reader.pure ([letterChar (v / 45), letterChar (v % 45)] ++ rest)
  | 1 => (take 6).bind fun v => Reader.pure [letterChar v]
  | 0 => Reader.pure []

def readBytes : ℕ → Reader (List UInt8)
  | n + 1 => (take 8).bind fun v => (readBytes n).bind fun rest =>
      Reader.pure (UInt8.ofNat v :: rest)
  | 0 => Reader.pure []

/-- The bits of a count: `small` up to version 9, `medium` up to version 26, `large` beyond. -/
def countBits (small medium large version : ℕ) : ℕ :=
  if version < 10 then small else if version < 27 then medium else large

def readCounted (bits : ℕ) (read : ℕ → Reader (List UInt8)) : Reader (List UInt8) :=
  (take bits).bind read

def readSegment (version : ℕ) : Reader (List UInt8) :=
  (take 4).bind fun mode =>
    if mode = 1 then readCounted (countBits 10 12 14 version) readDigits
    else if mode = 2 then readCounted (countBits 9 11 13 version) readLetters
    else if mode = 4 then readCounted (countBits 8 16 16 version) readBytes
    else fun _ => none

/-- The characters of the segments at the front of `bits`; `none` for bits that no encoder
writes. -/
def readSegments (version : ℕ) : ℕ → List Bool → Option (List UInt8)
  | 0, _ => none
  | fuel + 1, bits =>
    if bits.length < 4 ∨ number (bits.take 4) = 0 then some []
    else
      (readSegment version bits).bind fun p =>
        (readSegments version fuel p.2).map fun more => p.1 ++ more

def readStream (version : ℕ) (bits : List Bool) : Option (List UInt8) :=
  readSegments version (bits.length + 1) bits

end Reader

section Characters

theorem digitChar_digitOf {c : UInt8} (hc : ¬(c < 48 ∨ c > 57)) :
    digitOf c < 10 ∧ digitChar (digitOf c) = c := by
  have hall : ∀ n < 256, ¬(UInt8.ofNat n < 48 ∨ UInt8.ofNat n > 57) →
      digitOf (UInt8.ofNat n) < 10 ∧ digitChar (digitOf (UInt8.ofNat n)) = UInt8.ofNat n := by
    decide +kernel
  have h := hall c.toNat c.toNat_lt
  rw [UInt8.ofNat_toNat] at h
  exact h hc

theorem letterChar_lookAnTable {c : UInt8} (hc : ¬QRinput_lookAnTable c < 0) :
    (QRinput_lookAnTable c).toNat < 45 ∧ letterChar (QRinput_lookAnTable c).toNat = c := by
  have hall : ∀ n < 256, ¬QRinput_lookAnTable (UInt8.ofNat n) < 0 →
      (QRinput_lookAnTable (UInt8.ofNat n)).toNat < 45 ∧
        letterChar (QRinput_lookAnTable (UInt8.ofNat n)).toNat = UInt8.ofNat n := by
    decide +kernel
  have h := hall c.toNat c.toNat_lt
  rw [UInt8.ofNat_toNat] at h
  exact h hc

theorem readDigits_reads {data : List UInt8} (h : QRinput_checkModeNum data = true) :
    Reads (readDigits data.length) (writeDigits data) data := by
  have hdigit (c : UInt8) (hc : c ∈ data) : digitOf c < 10 ∧ digitChar (digitOf c) = c :=
    digitChar_digitOf (of_decide_eq_true (List.all_eq_true.mp h c hc))
  clear h
  induction data using writeDigits.induct with
  | case1 a b c rest ih =>
    obtain ⟨ha, hca⟩ := hdigit a (by simp)
    obtain ⟨hb, hcb⟩ := hdigit b (by simp)
    obtain ⟨hc, hcc⟩ := hdigit c (by simp)
    have hrest := ih fun d hd => hdigit d (by simp [hd])
    have h1 : (digitOf a * 100 + digitOf b * 10 + digitOf c) / 100 = digitOf a := by omega
    have h2 : (digitOf a * 100 + digitOf b * 10 + digitOf c) / 10 % 10 = digitOf b := by omega
    have h3 : (digitOf a * 100 + digitOf b * 10 + digitOf c) % 10 = digitOf c := by omega
    refine Reads.take_bind (by omega) ?_
    rw [h1, h2, h3, hca, hcb, hcc]
    exact hrest.bind_pure fun rest => [a, b, c] ++ rest
  | case2 a b =>
    obtain ⟨ha, hca⟩ := hdigit a (by simp)
    obtain ⟨hb, hcb⟩ := hdigit b (by simp)
    have htake := Reads.take (n := 7) (show digitOf a * 10 + digitOf b < 2 ^ 7 by omega)
    have hread := htake.bind_pure fun v => [digitChar (v / 10), digitChar (v % 10)]
    have h1 : (digitOf a * 10 + digitOf b) / 10 = digitOf a := by omega
    have h2 : (digitOf a * 10 + digitOf b) % 10 = digitOf b := by omega
    rw [h1, h2, hca, hcb] at hread
    exact hread
  | case3 a =>
    obtain ⟨ha, hca⟩ := hdigit a (by simp)
    have htake := Reads.take (n := 4) (show digitOf a < 2 ^ 4 by omega)
    have hread := htake.bind_pure fun v => [digitChar v]
    rw [hca] at hread
    exact hread
  | case4 => exact Reads.pure []

theorem readLetters_reads {data : List UInt8} (h : QRinput_checkModeAn data = true) :
    Reads (readLetters data.length) (writeLetters data) data := by
  have hletter (c : UInt8) (hc : c ∈ data) : (QRinput_lookAnTable c).toNat < 45 ∧
      letterChar (QRinput_lookAnTable c).toNat = c :=
    letterChar_lookAnTable (of_decide_eq_true (List.all_eq_true.mp h c hc))
  clear h
  induction data using writeLetters.induct with
  | case1 a b rest ih =>
    obtain ⟨ha, hca⟩ := hletter a (by simp)
    obtain ⟨hb, hcb⟩ := hletter b (by simp)
    have hrest := ih fun d hd => hletter d (by simp [hd])
    have h1 : ((QRinput_lookAnTable a).toNat * 45 + (QRinput_lookAnTable b).toNat) / 45 =
        (QRinput_lookAnTable a).toNat := by omega
    have h2 : ((QRinput_lookAnTable a).toNat * 45 + (QRinput_lookAnTable b).toNat) % 45 =
        (QRinput_lookAnTable b).toNat := by omega
    refine Reads.take_bind (by omega) ?_
    rw [h1, h2, hca, hcb]
    exact hrest.bind_pure fun rest => [a, b] ++ rest
  | case2 a =>
    obtain ⟨ha, hca⟩ := hletter a (by simp)
    have htake := Reads.take (n := 6) (show (QRinput_lookAnTable a).toNat < 2 ^ 6 by omega)
    have hread := htake.bind_pure fun v => [letterChar v]
    rw [hca] at hread
    exact hread
  | case3 => exact Reads.pure []

theorem readBytes_reads (data : List UInt8) :
    Reads (readBytes data.length) (BitStream_writeBytes data) data := by
  induction data with
  | nil => exact Reads.pure []
  | cons b data ih =>
    refine Reads.take_bind b.toNat_lt ?_
    rw [UInt8.ofNat_toNat]
    exact ih.bind_pure fun rest => b :: rest

end Characters

section Streams

/-- The reader finds the characters `data` in `bits`, with any fuel above their number. -/
def Spells (version : ℕ) (bits : List Bool) (data : List UInt8) : Prop :=
  ∀ fuel, bits.length < fuel → readSegments version fuel bits = some data

theorem Spells.nil (version : ℕ) {bits : List Bool}
    (h : bits.length < 4 ∨ ∃ more, bits = List.replicate 4 false ++ more) :
    Spells version bits [] := by
  intro fuel hfuel
  obtain ⟨fuel, rfl⟩ := Nat.exists_eq_add_of_lt hfuel
  rw [readSegments, if_pos]
  rcases h with hshort | ⟨more, rfl⟩
  · exact .inl hshort
  · exact .inr rfl

/-- A segment in front of what spells `more`. -/
theorem Spells.segment {version mode : ℕ} {tail rest : List Bool} {data more : List UInt8}
    (hmode : 0 < mode ∧ mode < 2 ^ 4)
    (hread : Reads (readSegment version) (field 4 mode ++ tail) data)
    (hrest : Spells version rest more) :
    Spells version (field 4 mode ++ tail ++ rest) (data ++ more) := by
  intro fuel hfuel
  obtain ⟨fuel, rfl⟩ := Nat.exists_eq_add_of_lt hfuel
  have hlength : (field 4 mode ++ tail ++ rest).length = 4 + tail.length + rest.length := by
    rw [List.length_append, List.length_append, length_field]
  have htake : (field 4 mode ++ tail ++ rest).take 4 = field 4 mode := by
    rw [List.append_assoc]
    exact List.take_left' (length_field 4 mode)
  have hmore : ¬((field 4 mode ++ tail ++ rest).length < 4 ∨
      number ((field 4 mode ++ tail ++ rest).take 4) = 0) := by
    rw [hlength, htake, number_field_of_lt hmode.2]
    omega
  rw [readSegments, if_neg hmore, hread rest, Option.bind_some, hrest _ (by omega)]
  rfl

/-- The table of the source holds the bits of the counts. -/
theorem QRspec_lengthIndicator_eq (version : ℕ) :
    QRspec_lengthIndicator QR_MODE_NUM version = countBits 10 12 14 version ∧
      QRspec_lengthIndicator QR_MODE_AN version = countBits 9 11 13 version ∧
      QRspec_lengthIndicator QR_MODE_8 version = countBits 8 16 16 version := by
  unfold QRspec_lengthIndicator lengthColumn countBits
  simp only [Nat.lt_succ_iff]
  split_ifs <;> first | exact ⟨rfl, rfl, rfl⟩ | contradiction

theorem readCounted_reads {mode : QRencodeMode} {version n : ℕ} {read : ℕ → Reader (List UInt8)}
    {bits : List Bool} {data : List UInt8} (hn : QRspec_lengthIndicator mode version = n)
    (hsize : data.length ≤ QRspec_maximumWords mode version)
    (hread : Reads (read data.length) bits data) :
    Reads (readCounted n read)
      (field (QRspec_lengthIndicator mode version) data.length ++ bits) data := by
  have hlt := hsize.trans_lt (QRspec_maximumWords_lt mode version)
  rw [hn] at hlt ⊢
  exact Reads.take_bind hlt hread

theorem encodeEntry_spells {entry : QRinput_List} {version : ℕ}
    (hsize : entry.mode ≠ QR_MODE_NUL →
      entry.data.length ≤ QRspec_maximumWords entry.mode version)
    {rest : List Bool} {more : List UInt8} (hrest : Spells version rest more) :
    Spells version (encodeEntry entry version ++ rest) (entry.data ++ more) := by
  obtain ⟨mode, data, hcheck⟩ := entry
  unfold QRinput_check at hcheck
  cases mode with
  | QR_MODE_NUL => split_ifs at hcheck
  | QR_MODE_NUM =>
    split_ifs at hcheck with hempty
    have hcounted := readCounted_reads (QRspec_lengthIndicator_eq version).1 (hsize nofun)
      (readDigits_reads hcheck)
    exact Spells.segment (by decide) (Reads.take_bind (by decide) hcounted) hrest
  | QR_MODE_AN =>
    split_ifs at hcheck with hempty
    have hcounted := readCounted_reads (QRspec_lengthIndicator_eq version).2.1 (hsize nofun)
      (readLetters_reads hcheck)
    exact Spells.segment (by decide) (Reads.take_bind (by decide) hcounted) hrest
  | QR_MODE_8 =>
    have hcounted := readCounted_reads (QRspec_lengthIndicator_eq version).2.2 (hsize nofun)
      (readBytes_reads data)
    exact Spells.segment (by decide) (Reads.take_bind (by decide) hcounted) hrest

theorem encodeBitStream_spells (entry : QRinput_List) (version : ℕ) {rest : List Bool}
    {more : List UInt8} (hrest : Spells version rest more) :
    Spells version (QRinput_encodeBitStream entry version ++ rest) (entry.data ++ more) := by
  induction entry using QRinput_encodeBitStream.induct version generalizing rest more with
  | case1 entry h ih1 ih2 =>
    rw [QRinput_encodeBitStream, dif_pos h, List.append_assoc,
      ← List.take_append_drop (QRspec_maximumWords entry.mode version) entry.data,
      List.append_assoc]
    exact ih1 (ih2 hrest)
  | case2 entry h =>
    rw [QRinput_encodeBitStream, dif_neg h]
    refine encodeEntry_spells (fun hmode => ?_) hrest
    have hpos := QRspec_maximumWords_pos hmode version
    exact Nat.le_of_not_lt fun hlt => h ⟨hpos.ne', hlt⟩

/-- The characters of the entries one after the other. -/
def textOf (entries : List QRinput_List) : List UInt8 := entries.flatMap QRinput_List.data

theorem createBitStream_spells (entries : List QRinput_List) (version : ℕ) {rest : List Bool}
    (hrest : Spells version rest []) :
    Spells version (QRinput_createBitStream entries version ++ rest) (textOf entries) := by
  induction entries with
  | nil => exact hrest
  | cons entry entries ih =>
    have h := encodeBitStream_spells entry version ih
    rw [← List.append_assoc] at h
    exact h

end Streams

section Capacity

theorem lengthIndicator_double (mode : QRencodeMode) (version : ℕ) :
    QRspec_lengthIndicator mode QRSPEC_VERSION_MAX ≤
      2 * QRspec_lengthIndicator mode version + 4 := by
  unfold QRspec_lengthIndicator lengthColumn QRSPEC_VERSION_MAX
  split_ifs <;> cases mode <;> decide

theorem lengthColumn_of_lt {version : ℕ} (h : 26 < version) :
    lengthColumn version = lengthColumn QRSPEC_VERSION_MAX := by
  unfold lengthColumn
  rw [if_neg (by omega), if_neg (by omega)]
  rfl

theorem createBitStream_of_lt (entries : List QRinput_List) {version : ℕ} (h : 26 < version) :
    QRinput_createBitStream entries version =
      QRinput_createBitStream entries QRSPEC_VERSION_MAX := by
  have hlength (mode : QRencodeMode) : QRspec_lengthIndicator mode version =
      QRspec_lengthIndicator mode QRSPEC_VERSION_MAX := by
    unfold QRspec_lengthIndicator
    rw [lengthColumn_of_lt h]
  have hwords (mode : QRencodeMode) : QRspec_maximumWords mode version =
      QRspec_maximumWords mode QRSPEC_VERSION_MAX := by
    unfold QRspec_maximumWords
    rw [lengthColumn_of_lt h]
  have hentry (entry : QRinput_List) : QRinput_encodeBitStream entry version =
      QRinput_encodeBitStream entry QRSPEC_VERSION_MAX := by
    induction entry using QRinput_encodeBitStream.induct version with
    | case1 entry hover ih1 ih2 =>
      have hover' := hover
      rw [hwords] at hover'
      conv_rhs => rw [QRinput_encodeBitStream, dif_pos hover']
      rw [QRinput_encodeBitStream, dif_pos hover, ih1, ih2]
      simp only [hwords]
    | case2 entry hover =>
      have hover' := hover
      rw [hwords] at hover'
      rw [QRinput_encodeBitStream, dif_neg hover, QRinput_encodeBitStream, dif_neg hover']
      unfold encodeEntry QRinput_encodeModeNum QRinput_encodeModeAn QRinput_encodeMode8
      simp only [hlength]
  unfold QRinput_createBitStream
  exact List.flatMap_congr fun entry _ => hentry entry

/-- The largest version needs at most twice the bits of a smaller one for a short entry. -/
theorem length_encodeBitStream_double {entry : QRinput_List} {version : ℕ}
    (h : (QRinput_encodeBitStream entry version).length ≤ 3 * 8191) :
    (QRinput_encodeBitStream entry QRSPEC_VERSION_MAX).length ≤
      2 * (QRinput_encodeBitStream entry version).length := by
  have hle := le_length_encodeBitStream entry version
  have hpayload := le_payload entry.mode_ne entry.size
  have hmax : ∀ mode ≠ QR_MODE_NUL, 8191 ≤ QRspec_maximumWords mode QRSPEC_VERSION_MAX := by
    intro mode hmode
    cases mode with
    | QR_MODE_NUL => exact absurd rfl hmode
    | _ => decide
  have hsize : entry.size ≤ QRspec_maximumWords entry.mode QRSPEC_VERSION_MAX :=
    le_trans (by omega) (hmax entry.mode entry.mode_ne)
  have hdouble := lengthIndicator_double entry.mode version
  rw [length_encodeBitStream_of_le hsize]
  omega

theorem length_createBitStream_double {entries : List QRinput_List} {version : ℕ}
    (h : (QRinput_createBitStream entries version).length ≤ 3 * 8191) :
    (QRinput_createBitStream entries QRSPEC_VERSION_MAX).length ≤
      2 * (QRinput_createBitStream entries version).length := by
  induction entries with
  | nil => exact Nat.zero_le _
  | cons entry entries ih =>
    have hcons (v : ℕ) : (QRinput_createBitStream (entry :: entries) v).length =
        (QRinput_encodeBitStream entry v).length + (QRinput_createBitStream entries v).length :=
      List.length_append
    rw [hcons] at h
    have hshort : (QRinput_encodeBitStream entry version).length ≤ 3 * 8191 := by omega
    have hentry := length_encodeBitStream_double hshort
    have hentries := ih (by omega)
    rw [hcons, hcons]
    omega

theorem dataLength_double (level : QRecLevel) :
    2 * QRspec_getDataLength 26 level ≤ QRspec_getDataLength QRSPEC_VERSION_MAX level := by
  cases level <;> decide

theorem dataLength_max (level : QRecLevel) :
    QRspec_getDataLength QRSPEC_VERSION_MAX level ≤ 2956 := by
  cases level <;> decide

/-- What fits a version fits the largest one. -/
theorem fits_max {entries : List QRinput_List} {level : QRecLevel} {version : ℕ}
    (hversion : version ≤ QRSPEC_VERSION_MAX)
    (h : (QRinput_createBitStream entries version).length ≤
      QRspec_getDataLength version level * 8) :
    (QRinput_createBitStream entries QRSPEC_VERSION_MAX).length ≤
      QRspec_getDataLength QRSPEC_VERSION_MAX level * 8 := by
  rcases Nat.lt_or_ge 26 version with hlt | hge
  · rw [← createBitStream_of_lt entries hlt]
    exact h.trans (Nat.mul_le_mul_right 8 (dataLength_mono hversion le_rfl level))
  · have hmono := dataLength_mono hge (by decide) level
    have hdouble := dataLength_double level
    have hmax := dataLength_max level
    have hshort : (QRinput_createBitStream entries version).length ≤ 3 * 8191 := by omega
    have hbits := length_createBitStream_double hshort
    omega

end Capacity

theorem convertData_converted (input : QRinput) :
    Converted input.entries input.level
      (if QRinput_estimateVersion input > input.version then QRinput_estimateVersion input
        else input.version)
      ((QRinput_convertData input).1.version, (QRinput_convertData input).2) :=
  convertRounds_converted _ _ (by
    split_ifs
    · exact (estimateRounds_range _ _ _).2
    · exact input.version_le)

theorem dataLength_pos {version : ℕ} (hpos : 1 ≤ version) (hmax : version ≤ QRSPEC_VERSION_MAX)
    (level : QRecLevel) : 0 < QRspec_getDataLength version level := by
  have hone : 0 < QRspec_getDataLength 1 level := by
    cases level <;> decide
  exact hone.trans_le (dataLength_mono hpos hmax level)

theorem convertData_version (input : QRinput) :
    1 ≤ (QRinput_convertData input).1.version ∧
      input.version ≤ (QRinput_convertData input).1.version := by
  have hestimate : 1 ≤ QRinput_estimateVersion input := (estimateRounds_range _ _ 0).1
  have hgrown := (convertData_converted input).grown
  simp only at hgrown
  split_ifs at hgrown <;> omega

/-- The padded stream becomes bytes that spell its bits. -/
theorem padded_toByte {input : QRinput} {padded : List Bool}
    (hpad : QRinput_appendPaddingBit (QRinput_convertData input).2 (QRinput_convertData input).1 =
      some padded) :
    ∃ bytes, BitStream_toByte padded = some bytes ∧
      bytes.length = QRspec_getDataLength (QRinput_convertData input).1.version input.level ∧
      BitStream_writeBytes bytes = padded :=
  BitStream_toByte_some
    (dataLength_pos (convertData_version input).1 (QRinput_convertData input).1.version_le _)
    (QRinput_appendPaddingBit_some hpad).1

/-- The bytes fill the version that they come with, and a reader of that version finds in them
the characters of the entries. -/
theorem QRinput_getByteStream_reads {input out : QRinput} {bytes : List UInt8}
    (h : QRinput_getByteStream input = some (out, bytes)) :
    (1 ≤ out.version ∧ input.version ≤ out.version ∧ out.level = input.level) ∧
      bytes.length = QRspec_getDataLength out.version out.level ∧
      readStream out.version (BitStream_writeBytes bytes) = some (textOf input.entries) := by
  unfold QRinput_getByteStream at h
  obtain ⟨padded, hpad, h⟩ := Option.bind_eq_some_iff.mp h
  obtain ⟨array, harray, h⟩ := Option.map_eq_some_iff.mp h
  obtain ⟨rfl, rfl⟩ := Prod.mk.inj h
  obtain ⟨bytes, hbytes, hlength, hbits⟩ := padded_toByte hpad
  obtain rfl : bytes = array := Option.some.inj (hbytes.symm.trans harray)
  have hversion := convertData_version input
  obtain ⟨-, rest, hpadded, hrest⟩ := QRinput_appendPaddingBit_some hpad
  refine ⟨⟨hversion.1, hversion.2, rfl⟩, hlength, ?_⟩
  have hspells := createBitStream_spells input.entries (QRinput_convertData input).1.version
    (Spells.nil _ hrest)
  have hstream : (QRinput_convertData input).2 =
      QRinput_createBitStream input.entries (QRinput_convertData input).1.version :=
    (convertData_converted input).stream
  rw [hbits, hpadded, hstream]
  exact hspells _ (Nat.lt_succ_self _)

/-- Nothing comes out exactly where the entries do not fit the largest version. -/
theorem QRinput_getByteStream_eq_none_iff (input : QRinput) :
    QRinput_getByteStream input = none ↔
      QRspec_getDataLength QRSPEC_VERSION_MAX input.level * 8 <
        (QRinput_createBitStream input.entries QRSPEC_VERSION_MAX).length := by
  have hpadding : QRinput_getByteStream input = none ↔
      QRinput_appendPaddingBit (QRinput_convertData input).2 (QRinput_convertData input).1 =
        none := by
    unfold QRinput_getByteStream
    simp only
    constructor
    · intro h
      by_contra hne
      obtain ⟨padded, hpad⟩ := Option.ne_none_iff_exists'.mp hne
      obtain ⟨bytes, hbytes, -⟩ := padded_toByte hpad
      rw [hpad, Option.bind_some, hbytes] at h
      cases h
    · intro h
      rw [h, Option.bind_none]
  have hconv := convertData_converted input
  have hstream : (QRinput_convertData input).2 =
    QRinput_createBitStream input.entries (QRinput_convertData input).1.version := hconv.stream
  have hle := (QRinput_convertData input).1.version_le
  rw [hpadding, QRinput_appendPaddingBit_eq_none_iff]
  constructor
  · intro hover
    have hmax : (QRinput_convertData input).1.version = QRSPEC_VERSION_MAX := by
      by_contra hne
      have hlt := Nat.lt_of_le_of_ne hle hne
      have henough : QRspec_getMinimumVersion (((QRinput_convertData input).2.length + 7) / 8)
        input.level ≤ (QRinput_convertData input).1.version := hconv.enough
      rcases QRspec_getMinimumVersion_fits (((QRinput_convertData input).2.length + 7) / 8)
        input.level with hfits | hlast
      · have hmono := dataLength_mono henough hle input.level
        have hlevel : (QRinput_convertData input).1.level = input.level := rfl
        rw [hlevel] at hover
        omega
      · omega
    rwa [hstream, hmax] at hover
  · intro hover
    by_contra hfits
    rw [hstream] at hfits
    exact absurd hover (Nat.not_lt_of_le (fits_max hle (Nat.le_of_not_lt hfits)))

/-- Nothing comes out exactly where the entries do not fit the largest version; otherwise the
bytes fill the version that they come with, and a reader finds the characters in them. -/
theorem QRinput_getByteStream_spec (input : QRinput) :
    match QRinput_getByteStream input with
    | none => QRspec_getDataLength QRSPEC_VERSION_MAX input.level * 8 <
        (QRinput_createBitStream input.entries QRSPEC_VERSION_MAX).length
    | some (out, bytes) =>
      (QRinput_createBitStream input.entries QRSPEC_VERSION_MAX).length ≤
          QRspec_getDataLength QRSPEC_VERSION_MAX input.level * 8 ∧
        (1 ≤ out.version ∧ input.version ≤ out.version ∧ out.level = input.level) ∧
        bytes.length = QRspec_getDataLength out.version out.level ∧
        readStream out.version (BitStream_writeBytes bytes) = some (textOf input.entries) := by
  have hnone := QRinput_getByteStream_eq_none_iff input
  cases hbytes : QRinput_getByteStream input with
  | none => exact hnone.mp hbytes
  | some p =>
    refine ⟨Nat.le_of_not_lt fun hover => ?_, QRinput_getByteStream_reads hbytes⟩
    rw [hnone.mpr hover] at hbytes
    cases hbytes

end ConcealDesktop.Qrencode
