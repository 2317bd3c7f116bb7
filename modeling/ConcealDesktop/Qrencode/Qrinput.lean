import ConcealDesktop.Library.BitFields
import ConcealDesktop.Library.Interleaving
import ConcealDesktop.Qrencode.Qrspec

/-! The input of libqrencode and the bytes made of it: entries with a mode, the version that holds
them, the bits of every entry and the padding up to the capacity of the version. A bit stream is
the list of its bits. Entries are numeric, alphanumeric or of bytes; sizes are numbers without the
bound of the source's `int`. -/
namespace ConcealDesktop.Qrencode
open BitFields QRencodeMode

section Source

def QRSPEC_MODEID_NUM : ℕ := 1

def QRSPEC_MODEID_AN : ℕ := 2

def QRSPEC_MODEID_8 : ℕ := 4

def MODE_INDICATOR_SIZE : ℕ := 4

/-- One byte of BitStream_toByte, of eight bits or of the odd ones at the end. -/
def packByte (bits : List Bool) : UInt8 :=
  bits.foldl (fun v b => (v <<< 1) ||| b.toUInt8) 0

/-- BitStream_toByte; `none` is NULL. -/
def BitStream_toByte (bstream : List Bool) : Option (List UInt8) :=
  let size := bstream.length
  let bytes := size / 8
  let oddbits := size % 8
  if size = 0 then none
  else
    let data := (List.range bytes).map fun i => packByte ((bstream.drop (8 * i)).take 8)
    if oddbits > 0 then
      some (data ++ [packByte (bstream.drop (8 * bytes)) <<< UInt8.ofNat (8 - oddbits)])
    else some data

/-- What BitStream_appendBytes appends. -/
def BitStream_writeBytes (data : List UInt8) : List Bool := data.flatMap fun b => field 8 b.toNat

def QRinput_checkModeNum (data : List UInt8) : Bool := data.all fun c => ¬(c < 48 ∨ c > 57)

def QRinput_estimateBitsModeNum (size : ℕ) : ℕ :=
  let w := size / 3
  let bits := w * 10
  match size - w * 3 with
  | 1 => bits + 4
  | 2 => bits + 7
  | _ => bits

def digitOf (c : UInt8) : ℕ := (c - 48).toNat

/-- The digits in groups of three, as QRinput_encodeModeNum writes them. -/
def writeDigits : List UInt8 → List Bool
  | a :: b :: c :: rest =>
    field 10 (digitOf a * 100 + digitOf b * 10 + digitOf c) ++ writeDigits rest
  | [a, b] => field 7 (digitOf a * 10 + digitOf b)
  | [a] => field 4 (digitOf a)
  | [] => []

def QRinput_encodeModeNum (data : List UInt8) (version : ℕ) : List Bool :=
  field 4 QRSPEC_MODEID_NUM ++
    (field (QRspec_lengthIndicator QR_MODE_NUM version) data.length ++ writeDigits data)

def QRinput_anTable : List ℤ := [
  -1, -1, -1, -1, -1, -1, -1, -1, -1, -1, -1, -1, -1, -1, -1, -1,
  -1, -1, -1, -1, -1, -1, -1, -1, -1, -1, -1, -1, -1, -1, -1, -1,
  36, -1, -1, -1, 37, 38, -1, -1, -1, -1, 39, 40, -1, 41, 42, 43,
  0, 1, 2, 3, 4, 5, 6, 7, 8, 9, 44, -1, -1, -1, -1, -1,
  -1, 10, 11, 12, 13, 14, 15, 16, 17, 18, 19, 20, 21, 22, 23, 24,
  25, 26, 27, 28, 29, 30, 31, 32, 33, 34, 35, -1, -1, -1, -1, -1,
  -1, -1, -1, -1, -1, -1, -1, -1, -1, -1, -1, -1, -1, -1, -1, -1,
  -1, -1, -1, -1, -1, -1, -1, -1, -1, -1, -1, -1, -1, -1, -1, -1]

def QRinput_lookAnTable (c : UInt8) : ℤ :=
  if c &&& 0x80 ≠ 0 then -1 else QRinput_anTable.getD c.toNat (-1)

def QRinput_checkModeAn (data : List UInt8) : Bool :=
  data.all fun c => ¬QRinput_lookAnTable c < 0

def QRinput_estimateBitsModeAn (size : ℕ) : ℕ :=
  let w := size / 2
  let bits := w * 11
  if size % 2 = 1 then bits + 6 else bits

/-- The characters in pairs, as QRinput_encodeModeAn writes them. -/
def writeLetters : List UInt8 → List Bool
  | a :: b :: rest =>
    field 11 ((QRinput_lookAnTable a).toNat * 45 + (QRinput_lookAnTable b).toNat) ++
      writeLetters rest
  | [a] => field 6 (QRinput_lookAnTable a).toNat
  | [] => []

def QRinput_encodeModeAn (data : List UInt8) (version : ℕ) : List Bool :=
  field 4 QRSPEC_MODEID_AN ++
    (field (QRspec_lengthIndicator QR_MODE_AN version) data.length ++ writeLetters data)

def QRinput_estimateBitsMode8 (size : ℕ) : ℕ := size * 8

def QRinput_encodeMode8 (data : List UInt8) (version : ℕ) : List Bool :=
  field 4 QRSPEC_MODEID_8 ++
    (field (QRspec_lengthIndicator QR_MODE_8 version) data.length ++ BitStream_writeBytes data)

/-- Whether QRinput_check returns zero. -/
def QRinput_check (mode : QRencodeMode) (data : List UInt8) : Bool :=
  if data.length ≤ 0 then false
  else
    match mode with
    | QR_MODE_NUM => QRinput_checkModeNum data
    | QR_MODE_AN => QRinput_checkModeAn data
    | QR_MODE_8 => true
    | QR_MODE_NUL => false

/-- An entry; QRinput_List_newEntry makes one of checked data only. -/
structure QRinput_List where
  mode : QRencodeMode
  data : List UInt8
  check : QRinput_check mode data = true

def QRinput_List.size (entry : QRinput_List) : ℕ := entry.data.length

structure QRinput where
  version : ℕ
  level : QRecLevel
  entries : List QRinput_List
  version_le : version ≤ QRSPEC_VERSION_MAX

def QRinput_append (input : QRinput) (mode : QRencodeMode) (data : List UInt8) : Option QRinput :=
  if h : QRinput_check mode data = true then
    some { input with entries := input.entries ++ [⟨mode, data, h⟩] }
  else none

def QRinput_estimateBitStreamSizeOfEntry (entry : QRinput_List) (version : ℕ) : ℕ :=
  let version := if version = 0 then 1 else version
  let l := QRspec_lengthIndicator entry.mode version
  let m := 1 <<< l
  let num := (entry.size + m - 1) / m
  match entry.mode with
  | QR_MODE_NUM => QRinput_estimateBitsModeNum entry.size + num * (MODE_INDICATOR_SIZE + l)
  | QR_MODE_AN => QRinput_estimateBitsModeAn entry.size + num * (MODE_INDICATOR_SIZE + l)
  | QR_MODE_8 => QRinput_estimateBitsMode8 entry.size + num * (MODE_INDICATOR_SIZE + l)
  | QR_MODE_NUL => 0

def QRinput_estimateBitStreamSize (entries : List QRinput_List) (version : ℕ) : ℕ :=
  (entries.map fun entry => QRinput_estimateBitStreamSizeOfEntry entry version).sum

/-- The version that one round of QRinput_estimateVersion makes of the one before. -/
def estimateRound (entries : List QRinput_List) (level : QRecLevel) (prev : ℕ) : ℕ :=
  let bits := QRinput_estimateBitStreamSize entries prev
  let version := QRspec_getMinimumVersion ((bits + 7) / 8) level
  if prev = 0 ∧ version > 1 then version - 1 else version

theorem estimateRound_range (entries : List QRinput_List) (level : QRecLevel) (prev : ℕ) :
    1 ≤ estimateRound entries level prev ∧
      estimateRound entries level prev ≤ QRSPEC_VERSION_MAX := by
  have hrange := QRspec_getMinimumVersion_range
    ((QRinput_estimateBitStreamSize entries prev + 7) / 8) level
  unfold estimateRound
  simp only
  split_ifs with h
  · omega
  · exact hrange

def estimateRounds (entries : List QRinput_List) (level : QRecLevel) (prev : ℕ) : ℕ :=
  if estimateRound entries level prev > prev then
    estimateRounds entries level (estimateRound entries level prev)
  else estimateRound entries level prev
termination_by QRSPEC_VERSION_MAX - prev
decreasing_by
  have hrange := estimateRound_range entries level prev
  omega

def QRinput_estimateVersion (input : QRinput) : ℕ := estimateRounds input.entries input.level 0

end Source

/-- The parts of an entry pass its check. -/
theorem QRinput_check_sublist {mode : QRencodeMode} {data part : List UInt8}
    (h : QRinput_check mode data = true) (hpart : part.Sublist data) (hne : 0 < part.length) :
    QRinput_check mode part = true := by
  have hdata : ¬data.length ≤ 0 := by
    have hle := hpart.length_le
    omega
  unfold QRinput_check at h ⊢
  rw [if_neg hdata] at h
  rw [if_neg (by omega)]
  cases mode with
  | QR_MODE_NUL => exact h
  | QR_MODE_8 => rfl
  | QR_MODE_NUM =>
    exact List.all_eq_true.mpr fun c hc => List.all_eq_true.mp h c (hpart.subset hc)
  | QR_MODE_AN =>
    exact List.all_eq_true.mpr fun c hc => List.all_eq_true.mp h c (hpart.subset hc)

section Source

def QRinput_List.take (entry : QRinput_List) (words : ℕ) (hpos : 0 < words)
    (hlt : words < entry.size) : QRinput_List where
  mode := entry.mode
  data := entry.data.take words
  check := QRinput_check_sublist entry.check (List.take_sublist words _) (by
    rw [List.length_take]
    exact lt_min hpos (hpos.trans hlt))

def QRinput_List.drop (entry : QRinput_List) (words : ℕ) (hlt : words < entry.size) :
    QRinput_List where
  mode := entry.mode
  data := entry.data.drop words
  check := QRinput_check_sublist entry.check (List.drop_sublist words _) (by
    rw [List.length_drop]
    exact Nat.sub_pos_of_lt hlt)

/-- The switch of QRinput_encodeBitStream. -/
def encodeEntry (entry : QRinput_List) (version : ℕ) : List Bool :=
  match entry.mode with
  | QR_MODE_NUM => QRinput_encodeModeNum entry.data version
  | QR_MODE_AN => QRinput_encodeModeAn entry.data version
  | QR_MODE_8 => QRinput_encodeMode8 entry.data version
  | QR_MODE_NUL => []

/-- What QRinput_encodeBitStream appends for an entry. One with more than the count field can hold
is split first. -/
def QRinput_encodeBitStream (entry : QRinput_List) (version : ℕ) : List Bool :=
  if h : QRspec_maximumWords entry.mode version ≠ 0 ∧
      entry.size > QRspec_maximumWords entry.mode version then
    QRinput_encodeBitStream (entry.take _ (Nat.pos_of_ne_zero h.1) h.2) version ++
      QRinput_encodeBitStream (entry.drop _ h.2) version
  else encodeEntry entry version
termination_by entry.size
decreasing_by
  · exact (List.length_take_le _ _).trans_lt h.2
  · show (entry.data.drop _).length < entry.data.length
    rw [List.length_drop]
    have hpos := Nat.pos_of_ne_zero h.1
    have hlt : QRspec_maximumWords entry.mode version < entry.data.length := h.2
    omega

def QRinput_createBitStream (entries : List QRinput_List) (version : ℕ) : List Bool :=
  entries.flatMap fun entry => QRinput_encodeBitStream entry version

/-- The second loop of QRinput_convertData from `version` on. -/
def convertRounds (entries : List QRinput_List) (level : QRecLevel) (version : ℕ) :
    ℕ × List Bool :=
  let bstream := QRinput_createBitStream entries version
  let ver := QRspec_getMinimumVersion ((bstream.length + 7) / 8) level
  if ver > version then convertRounds entries level ver else (version, bstream)
termination_by QRSPEC_VERSION_MAX - version
decreasing_by
  have hle : ver ≤ QRSPEC_VERSION_MAX := (QRspec_getMinimumVersion_range _ _).2
  have hlt : version < ver := ‹_›
  exact Nat.sub_lt_sub_left (hlt.trans_le hle) hlt

end Source

theorem estimateRounds_range (entries : List QRinput_List) (level : QRecLevel) (prev : ℕ) :
    1 ≤ estimateRounds entries level prev ∧
      estimateRounds entries level prev ≤ QRSPEC_VERSION_MAX := by
  induction prev using estimateRounds.induct entries level with
  | case1 prev hlt ih =>
    rw [estimateRounds, if_pos hlt]
    exact ih
  | case2 prev hle =>
    rw [estimateRounds, if_neg hle]
    exact estimateRound_range entries level prev

/-- A version and its bit stream when the loop of QRinput_convertData ends. -/
structure Converted (entries : List QRinput_List) (level : QRecLevel) (version : ℕ)
    (result : ℕ × List Bool) : Prop where
  grown : version ≤ result.1
  bounded : result.1 ≤ QRSPEC_VERSION_MAX
  stream : result.2 = QRinput_createBitStream entries result.1
  enough : QRspec_getMinimumVersion ((result.2.length + 7) / 8) level ≤ result.1

theorem convertRounds_converted (entries : List QRinput_List) (level : QRecLevel) {version : ℕ}
    (hversion : version ≤ QRSPEC_VERSION_MAX) :
    Converted entries level version (convertRounds entries level version) := by
  induction version using convertRounds.induct entries level with
  | case1 version bstream ver hlt ih =>
    rw [convertRounds, if_pos hlt]
    have h := ih (QRspec_getMinimumVersion_range _ _).2
    exact ⟨(Nat.le_of_lt hlt).trans h.grown, h.bounded, h.stream, h.enough⟩
  | case2 version bstream ver hle =>
    rw [convertRounds, if_neg hle]
    exact ⟨le_rfl, hversion, rfl, Nat.le_of_not_lt hle⟩

section Source

def QRinput_convertData (input : QRinput) : QRinput × List Bool :=
  let ver := QRinput_estimateVersion input
  let version := if ver > input.version then ver else input.version
  let result := convertRounds input.entries input.level version
  have hversion : version ≤ QRSPEC_VERSION_MAX := by
    unfold version
    split_ifs
    · exact (estimateRounds_range _ _ _).2
    · exact input.version_le
  ({ input with
      version := result.1
      version_le := (convertRounds_converted _ _ hversion).bounded }, result.2)

/-- QRinput_appendPaddingBit; `none` is the error ERANGE. -/
def QRinput_appendPaddingBit (bstream : List Bool) (input : QRinput) : Option (List Bool) :=
  let bits := bstream.length
  let maxwords := QRspec_getDataLength input.version input.level
  let maxbits := maxwords * 8
  if maxbits < bits then none
  else if maxbits = bits then some bstream
  else if maxbits - bits ≤ 4 then some (bstream ++ field (maxbits - bits) 0)
  else
    let words := (bits + 4 + 7) / 8
    let bstream := bstream ++ field (words * 8 - bits) 0
    let padlen := maxwords - words
    some (bstream ++ (List.range padlen).flatMap fun i =>
      field 8 (if i % 2 = 1 then 0x11 else 0xec))

/-- QRinput_getByteStream, which also sets the version of the input. -/
def QRinput_getByteStream (input : QRinput) : Option (QRinput × List UInt8) :=
  let converted := QRinput_convertData input
  (QRinput_appendPaddingBit converted.2 converted.1).bind fun bstream =>
    (BitStream_toByte bstream).map fun array => (converted.1, array)

end Source

section Lengths

theorem QRinput_estimateBitsModeNum_eq (size : ℕ) :
    QRinput_estimateBitsModeNum size = (10 * size + 2) / 3 := by
  have hrest : size - size / 3 * 3 = 0 ∨ size - size / 3 * 3 = 1 ∨ size - size / 3 * 3 = 2 := by
    omega
  rcases hrest with h | h | h <;> simp only [QRinput_estimateBitsModeNum, h] <;> omega

theorem QRinput_estimateBitsModeAn_eq (size : ℕ) :
    QRinput_estimateBitsModeAn size = (11 * size + 1) / 2 := by
  simp only [QRinput_estimateBitsModeAn]
  split_ifs <;> omega

theorem length_writeDigits (data : List UInt8) :
    (writeDigits data).length = QRinput_estimateBitsModeNum data.length := by
  rw [QRinput_estimateBitsModeNum_eq]
  induction data using writeDigits.induct with
  | case1 a b c rest ih =>
    rw [writeDigits, List.length_append, length_field, ih]
    simp only [List.length_cons]
    omega
  | case2 a b => simp [writeDigits]
  | case3 a => simp [writeDigits]
  | case4 => rfl

theorem length_writeLetters (data : List UInt8) :
    (writeLetters data).length = QRinput_estimateBitsModeAn data.length := by
  rw [QRinput_estimateBitsModeAn_eq]
  induction data using writeLetters.induct with
  | case1 a b rest ih =>
    rw [writeLetters, List.length_append, length_field, ih]
    simp only [List.length_cons]
    omega
  | case2 a => simp [writeLetters]
  | case3 => rfl

theorem length_writeBytes (data : List UInt8) :
    (BitStream_writeBytes data).length = QRinput_estimateBitsMode8 data.length := by
  induction data with
  | nil => rfl
  | cons b data ih =>
    have hcons : BitStream_writeBytes (b :: data) = field 8 b.toNat ++ BitStream_writeBytes data :=
      rfl
    rw [hcons, List.length_append, length_field, ih, List.length_cons]
    unfold QRinput_estimateBitsMode8
    omega

/-- The bits of the characters of an entry in one segment. -/
def payload (mode : QRencodeMode) (size : ℕ) : ℕ :=
  match mode with
  | QR_MODE_NUL => 0
  | QR_MODE_NUM => QRinput_estimateBitsModeNum size
  | QR_MODE_AN => QRinput_estimateBitsModeAn size
  | QR_MODE_8 => QRinput_estimateBitsMode8 size

theorem QRinput_List.mode_ne (entry : QRinput_List) : entry.mode ≠ QR_MODE_NUL := by
  intro hmode
  have hcheck := entry.check
  unfold QRinput_check at hcheck
  rw [hmode] at hcheck
  split_ifs at hcheck

theorem payload_add_le (mode : QRencodeMode) (a b : ℕ) :
    payload mode (a + b) ≤ payload mode a + payload mode b := by
  cases mode with
  | QR_MODE_NUL => exact Nat.zero_le _
  | QR_MODE_NUM =>
    simp only [payload, QRinput_estimateBitsModeNum_eq]
    omega
  | QR_MODE_AN =>
    simp only [payload, QRinput_estimateBitsModeAn_eq]
    omega
  | QR_MODE_8 =>
    simp only [payload, QRinput_estimateBitsMode8]
    omega

theorem le_payload {mode : QRencodeMode} (hmode : mode ≠ QR_MODE_NUL) (size : ℕ) :
    3 * size ≤ payload mode size := by
  cases mode with
  | QR_MODE_NUL => exact absurd rfl hmode
  | QR_MODE_NUM =>
    simp only [payload, QRinput_estimateBitsModeNum_eq]
    omega
  | QR_MODE_AN =>
    simp only [payload, QRinput_estimateBitsModeAn_eq]
    omega
  | QR_MODE_8 =>
    simp only [payload, QRinput_estimateBitsMode8]
    omega

theorem length_encodeEntry (entry : QRinput_List) (version : ℕ) :
    (encodeEntry entry version).length =
      4 + QRspec_lengthIndicator entry.mode version + payload entry.mode entry.size := by
  have hmode := entry.mode_ne
  obtain ⟨mode, data, check⟩ := entry
  cases mode with
  | QR_MODE_NUL => exact absurd rfl hmode
  | QR_MODE_NUM =>
    simp only [encodeEntry, QRinput_encodeModeNum, List.length_append, length_field,
      length_writeDigits, payload, QRinput_List.size]
    omega
  | QR_MODE_AN =>
    simp only [encodeEntry, QRinput_encodeModeAn, List.length_append, length_field,
      length_writeLetters, payload, QRinput_List.size]
    omega
  | QR_MODE_8 =>
    simp only [encodeEntry, QRinput_encodeMode8, List.length_append, length_field,
      length_writeBytes, payload, QRinput_List.size]
    omega

/-- An entry takes at least what it would take in one segment. -/
theorem le_length_encodeBitStream (entry : QRinput_List) (version : ℕ) :
    4 + QRspec_lengthIndicator entry.mode version + payload entry.mode entry.size ≤
      (QRinput_encodeBitStream entry version).length := by
  induction entry using QRinput_encodeBitStream.induct version with
  | case1 entry h ih1 ih2 =>
    have htake : (entry.take _ (Nat.pos_of_ne_zero h.1) h.2).size =
        QRspec_maximumWords entry.mode version :=
      (List.length_take).trans (Nat.min_eq_left (Nat.le_of_lt h.2))
    have hdrop : (entry.drop _ h.2).size =
        entry.size - QRspec_maximumWords entry.mode version := List.length_drop
    have hadd := payload_add_le entry.mode (QRspec_maximumWords entry.mode version)
      (entry.size - QRspec_maximumWords entry.mode version)
    rw [Nat.add_sub_cancel' (Nat.le_of_lt h.2)] at hadd
    rw [htake] at ih1
    rw [hdrop] at ih2
    rw [QRinput_encodeBitStream, dif_pos h, List.length_append]
    exact (Nat.add_le_add_left hadd _).trans (by
      have hmode1 : (entry.take _ (Nat.pos_of_ne_zero h.1) h.2).mode = entry.mode := rfl
      have hmode2 : (entry.drop _ h.2).mode = entry.mode := rfl
      rw [hmode1] at ih1
      rw [hmode2] at ih2
      omega)
  | case2 entry h =>
    rw [QRinput_encodeBitStream, dif_neg h]
    exact (length_encodeEntry entry version).ge

theorem length_encodeBitStream_of_le {entry : QRinput_List} {version : ℕ}
    (h : entry.size ≤ QRspec_maximumWords entry.mode version) :
    (QRinput_encodeBitStream entry version).length =
      4 + QRspec_lengthIndicator entry.mode version + payload entry.mode entry.size := by
  rw [QRinput_encodeBitStream, dif_neg fun hover => absurd h (Nat.not_le_of_lt hover.2)]
  exact length_encodeEntry entry version

theorem length_padding {α : Type*} (n : ℕ) (f : ℕ → List α) {k : ℕ}
    (hf : ∀ i, (f i).length = k) : ((List.range n).flatMap f).length = n * k := by
  rw [List.length_flatMap, List.map_congr_left fun i _ => hf i, List.map_const',
    List.sum_replicate_nat, List.length_range]

/-- The padding fills the version, and follows the stream after its end mark. -/
theorem QRinput_appendPaddingBit_some {bstream padded : List Bool} {input : QRinput}
    (h : QRinput_appendPaddingBit bstream input = some padded) :
    padded.length = QRspec_getDataLength input.version input.level * 8 ∧
      ∃ rest, padded = bstream ++ rest ∧
        (rest.length < 4 ∨ ∃ more, rest = List.replicate 4 false ++ more) := by
  unfold QRinput_appendPaddingBit at h
  simp only at h
  split_ifs at h with hover heq hshort
  · injection h with h
    subst h
    exact ⟨heq.symm, [], (List.append_nil _).symm, .inl (by decide)⟩
  · injection h with h
    subst h
    refine ⟨?_, _, rfl, ?_⟩
    · rw [List.length_append, length_field]
      omega
    · rcases Nat.lt_or_ge (QRspec_getDataLength input.version input.level * 8 - bstream.length) 4
        with hlt | hge
      · exact .inl (by rwa [length_field])
      · refine .inr ⟨[], ?_⟩
        rw [Nat.le_antisymm hshort hge, field_zero, List.append_nil]
  · injection h with h
    subst h
    have hlength := length_padding
      (QRspec_getDataLength input.version input.level - (bstream.length + 4 + 7) / 8)
      (fun i => field 8 (if i % 2 = 1 then 0x11 else 0xec)) (fun i => length_field 8 _)
    refine ⟨?_, _, List.append_assoc _ _ _, .inr ?_⟩
    · rw [List.length_append, List.length_append, length_field, hlength]
      omega
    · have hzeros : (bstream.length + 4 + 7) / 8 * 8 - bstream.length =
          4 + ((bstream.length + 4 + 7) / 8 * 8 - bstream.length - 4) := by omega
      rw [hzeros, field_zero, List.replicate_add, List.append_assoc]
      exact ⟨_, rfl⟩

theorem QRinput_appendPaddingBit_eq_none_iff {bstream : List Bool} {input : QRinput} :
    QRinput_appendPaddingBit bstream input = none ↔
      QRspec_getDataLength input.version input.level * 8 < bstream.length := by
  unfold QRinput_appendPaddingBit
  simp only
  split_ifs with hover <;> simp [hover]

end Lengths

section Bytes

theorem shift_or_toNat {v : UInt8} (hv : v.toNat < 128) (b : Bool) :
    ((v <<< 1) ||| b.toUInt8).toNat = 2 * v.toNat + b.toNat := by
  have hall : ∀ n < 128, ∀ b : Bool,
      ((UInt8.ofNat n <<< 1) ||| b.toUInt8).toNat = 2 * n + b.toNat := by
    decide +kernel
  have h := hall v.toNat hv b
  rwa [UInt8.ofNat_toNat] at h

theorem foldl_packByte (bits : List Bool) (v : UInt8)
    (h : v.toNat * 2 ^ bits.length + number bits < 256) :
    (bits.foldl (fun (v : UInt8) b => (v <<< 1) ||| b.toUInt8) v).toNat =
      v.toNat * 2 ^ bits.length + number bits := by
  induction bits generalizing v with
  | nil => simp
  | cons b bits ih =>
    rw [number_cons, List.length_cons, pow_succ] at h ⊢
    have hpos := Nat.two_pow_pos bits.length
    have hv : v.toNat < 128 := by
      by_contra hge
      have hle := Nat.mul_le_mul (Nat.le_of_not_lt hge)
        (Nat.mul_le_mul_right 2 (Nat.one_le_two_pow (n := bits.length)))
      omega
    have hstep := shift_or_toNat hv b
    have hsum : (2 * v.toNat + b.toNat) * 2 ^ bits.length + number bits =
        v.toNat * (2 ^ bits.length * 2) + (b.toNat * 2 ^ bits.length + number bits) := by
      ring
    rw [List.foldl_cons, ih _ (by rw [hstep, hsum]; exact h), hstep, hsum]

theorem packByte_toNat {bits : List Bool} (h : bits.length ≤ 8) :
    (packByte bits).toNat = number bits := by
  have hlt : number bits < 256 := (number_lt bits).trans_le (Nat.pow_le_pow_right (by decide) h)
  have hfold := foldl_packByte bits 0 (by simpa using hlt)
  rw [UInt8.toNat_zero, Nat.zero_mul, Nat.zero_add] at hfold
  exact hfold

/-- Whole bytes keep the bits that they are made of. -/
theorem BitStream_toByte_some {bstream : List Bool} {n : ℕ} (hpos : 0 < n)
    (hlength : bstream.length = n * 8) :
    ∃ bytes, BitStream_toByte bstream = some bytes ∧ bytes.length = n ∧
      BitStream_writeBytes bytes = bstream := by
  have hbytes : bstream.length / 8 = n := by omega
  have hodd : ¬bstream.length % 8 > 0 := by omega
  have hne : ¬bstream.length = 0 := by omega
  refine ⟨(Interleaving.pieces 8 n bstream).map packByte, ?_, ?_, ?_⟩
  · unfold BitStream_toByte Interleaving.pieces
    simp only
    rw [if_neg hne, if_neg hodd, hbytes, List.map_map]
    rfl
  · rw [List.length_map, Interleaving.length_pieces]
  · have hfield : ∀ piece ∈ Interleaving.pieces 8 n bstream,
        field 8 (packByte piece).toNat = piece := by
      intro piece hpiece
      have hpiece := Interleaving.length_of_mem_pieces (by omega) hpiece
      rw [packByte_toNat hpiece.le, ← hpiece]
      exact field_number piece
    unfold BitStream_writeBytes
    rw [List.flatMap_map, List.flatMap_def, List.map_congr_left hfield, List.map_id',
      Interleaving.flatten_pieces]
    exact List.take_of_length_le (by omega)

end Bytes

end ConcealDesktop.Qrencode
