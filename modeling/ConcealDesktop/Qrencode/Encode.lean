import ConcealDesktop.Qrencode.Patterns
import ConcealDesktop.Qrencode.RawCode
import ConcealDesktop.Qrencode.Split

/-! The QR code that the wallet shows for a text, and what a reader makes of it when it is shown or
printed with some damage. -/
namespace ConcealDesktop.Qrencode
open BitFields Interleaving Raster Qrencode.Symbol Syndromes QRecLevel QRencodeMode

theorem newFrame_eq_some {version : ℕ} {frame : Frame} (h : QRspec_newFrame version = some frame) :
    (1 ≤ version ∧ version ≤ QRSPEC_VERSION_MAX) ∧ frame = QRspec_createFrame version := by
  unfold QRspec_newFrame at h
  split_ifs at h with hrange
  exact ⟨by omega, (Option.some.inj h).symm⟩

theorem newFrame_width {version : ℕ} {frame : Frame} (h : QRspec_newFrame version = some frame) :
    9 < QRspec_getWidth version :=
  lt_width (newFrame_eq_some h).1.1 (newFrame_eq_some h).1.2

section Source

/-- QRinput_new2; `none` is NULL. -/
def QRinput_new2 (version : ℕ) (level : QRecLevel) : Option QRinput :=
  if h : version > QRSPEC_VERSION_MAX then none
  else some { version := version, level := level, entries := [], version_le := by omega }

/-- The bytes of the eight modules of a code word, from its highest bit on. -/
def moduleBytes (mark code : UInt8) : List UInt8 :=
  (List.range 8).map fun j => mark ||| (if (0x80 >>> UInt8.ofNat j) &&& code ≠ 0 then 1 else 0)

/-- What QRcode_encodeMask writes into the frame: data, check bytes, remainder bits. -/
def frameBytes (raw : QRRawCode) : List UInt8 :=
  let codes := QRraw_codes (raw.dataLength + raw.eccLength) raw
  (codes.take raw.dataLength).flatMap (moduleBytes 0) ++
    (codes.drop raw.dataLength).flatMap (moduleBytes 2) ++
    List.replicate (QRspec_getRemainder raw.version) 2

structure QRcode where
  version : ℕ
  width : ℕ
  data : Frame

/-- The mask that QRcode_encodeMask asks for: all are tried for -1. -/
def maskFrame (width : ℕ) (frame : Frame) (level : QRecLevel) (mask : ℤ) : Option Frame :=
  if mask = -2 then some frame
  else if mask < 0 then Mask_mask width frame level
  else Mask_makeMask width frame mask level

/-- QRcode_encodeMask behind QRraw_new. -/
def encodeRaw (raw : QRRawCode) (level : QRecLevel) (mask : ℤ) : Option QRcode :=
  let width := QRspec_getWidth raw.version
  match h : QRspec_newFrame raw.version with
  | none => none
  | some frame =>
    (fillFrame (newFrame_width h) (frameBytes raw) frame
      (FrameFiller_set (newFrame_width h))).bind fun frame =>
        (maskFrame width frame level mask).map fun masked =>
          { version := raw.version, width := width, data := masked }

/-- QRcode_encodeMask; `none` is NULL. -/
def QRcode_encodeMask (input : QRinput) (mask : ℤ) : Option QRcode :=
  (QRraw_new input).bind fun p => encodeRaw p.2 input.level mask

def QRcode_encodeInput (input : QRinput) : Option QRcode := QRcode_encodeMask input (-1)

/-- QRcode_encodeString for the hint QR_MODE_8 and a string whose case matters. -/
def QRcode_encodeString (string : List UInt8) (version : ℕ) (level : QRecLevel) : Option QRcode :=
  (QRinput_new2 version level).bind fun input =>
    (Split_splitStringToQRinput string input).bind QRcode_encodeInput

structure QImage where
  width : ℕ
  height : ℕ
  /-- The color of a row and a column. -/
  pixel : ℕ → ℕ → UInt32

/-- The loops of QRLabel::showQRCode: the modules in a white image. -/
def imageOf (qrcode : QRcode) : QImage where
  width := qrcode.width + 8
  height := qrcode.width + 8
  pixel := paint (fun _ _ => 0xffffff)
    { row := 4
      col := 4
      height := qrcode.width
      width := qrcode.width
      value := fun y x => if dark (qrcode.data y x) then 0x0 else 0xffffff }

/-- The image that QRLabel::showQRCode makes of the bytes of a text; its .scaled(300, 300) is left
out. `none` is a label left as it was. -/
def showQRCode (dataString : List UInt8) : Option QImage :=
  (QRcode_encodeString dataString 1 QR_ECLEVEL_L).map imageOf

end Source

section Reader

/-- The bits of the format information beside the upper left finder pattern. -/
def readFormat (scan : Scan) : List Bool :=
  (List.range 15).map fun i => scan (formatPlace i).1 (formatPlace i).2

/-- The bits of the format information beside the other two finder patterns. -/
def readCopy (version : ℕ) (scan : Scan) : List Bool :=
  (List.range 15).map fun i =>
    scan (otherPlace (side version) i).1 (otherPlace (side version) i).2

def formatBits (level : QRecLevel) (mask : ℕ) : List Bool :=
  (List.range 15).map (formatWord level mask).testBit

/-- The bits along the columns, without the mask. -/
def readBits (version mask : ℕ) (scan : Scan) : List Bool :=
  (dataPlaces version).map fun p => scan p.1 p.2 ^^ maskCondition mask p.1 p.2

def receivedCodes (version mask : ℕ) (scan : Scan) : List UInt8 :=
  (pieces 8 ((dataPlaces version).length / 8) (readBits version mask scan)).map fun bits =>
    UInt8.ofNat (number bits)

/-- How a reader takes a symbol once it has found it: the level and the mask whose word is close
to what it sees in either place of the format information, and the blocks that are closest to the
code words. How the words are dealt to blocks is the source's table. -/
structure Reading (width : ℕ) (scan : Scan) where
  version : ℕ
  level : QRecLevel
  mask : ℕ
  blocks : List RSblock
  version_range : 1 ≤ version ∧ version ≤ QRSPEC_VERSION_MAX
  width_eq : width = side version
  mask_lt : mask < maskNum
  format : differences (formatBits level mask) (readFormat scan) ≤ 3 ∨
    differences (formatBits level mask) (readCopy version scan) ≤ 3
  corrected : List.Forall₂ (Corrected (QRspec_getEccSpec version level).rsEccCodes)
    (readBlocks version level (receivedCodes version mask scan)) blocks

/-- The text that a reading spells. -/
def Reading.text {width : ℕ} {scan : Scan} (r : Reading width scan) : Option (List UInt8) :=
  readStream r.version (BitStream_writeBytes (r.blocks.flatMap RSblock.data))

/-- A symbol with damage that a reader can make good: at most three modules in each place of the
format information, and in no block more than half as many bytes as it has check bytes. -/
structure LightDamage (version : ℕ) (level : QRecLevel) (mask : ℕ) (drawn scan : Scan) : Prop where
  format : differences (readFormat drawn) (readFormat scan) ≤ 3
  copy : differences (readCopy version drawn) (readCopy version scan) ≤ 3
  codes : LightlyDamaged (QRspec_getEccSpec version level).rsEccCodes
    (readBlocks version level (receivedCodes version mask drawn))
    (readBlocks version level (receivedCodes version mask scan))

end Reader

section Bytes

theorem moduleBytes_bit {j : ℕ} (hj : j < 8) (code : UInt8) :
    decide ((0x80 >>> UInt8.ofNat j) &&& code ≠ 0) = code.toNat.testBit (7 - j) := by
  rw [UInt8.and_comm]
  apply land_ne_zero
  interval_cases j <;> rfl

/-- The modules of a code word show its bits, from the highest one on. -/
theorem moduleBytes_dark {mark : UInt8} (hmark : dark mark = false) (code : UInt8) :
    (moduleBytes mark code).map dark = field 8 code.toNat := by
  have hfield : field 8 code.toNat = (List.range 8).map fun j => code.toNat.testBit (7 - j) := rfl
  unfold moduleBytes
  rw [hfield, List.map_map]
  apply List.map_congr_left
  intro j hj
  show dark (mark ||| _) = _
  rw [dark_or, hmark, Bool.false_or, ← moduleBytes_bit (List.mem_range.mp hj)]
  split_ifs with hbit
  · exact (decide_eq_true hbit).symm
  · exact (decide_eq_false hbit).symm

theorem moduleBytes_reserved {mark : UInt8} (hmark : reserved mark = false) (code : UInt8) :
    ∀ byte ∈ moduleBytes mark code, reserved byte = false := by
  intro byte hbyte
  obtain ⟨j, -, rfl⟩ := List.mem_map.mp hbyte
  rw [reserved_or, hmark, Bool.false_or]
  split_ifs <;> rfl

theorem map_dark_flatMap {mark : UInt8} (hmark : dark mark = false) (codes : List UInt8) :
    (codes.flatMap (moduleBytes mark)).map dark = BitStream_writeBytes codes := by
  unfold BitStream_writeBytes
  rw [List.map_flatMap]
  exact List.flatMap_congr fun code _ => moduleBytes_dark hmark code

variable {version : ℕ} {level : QRecLevel} {datacode : List UInt8}

theorem words_eq (hpos : 1 ≤ version) (hmax : version ≤ QRSPEC_VERSION_MAX) (level : QRecLevel) :
    (capacityOf version).words =
      QRspec_getDataLength version level + QRspec_getECCLength version level := by
  have hdata := dataLength_pos hpos hmax level
  unfold QRspec_getDataLength at hdata ⊢
  omega

theorem length_codeWords : (codeWords version level datacode).length =
    QRspec_getDataLength version level + QRspec_getECCLength version level :=
  length_QRraw_codes _ _

/-- The bytes for a frame show the code words and light remainder bits. -/
theorem frameBytes_facts (hpos : 1 ≤ version) (hmax : version ≤ QRSPEC_VERSION_MAX)
    (level : QRecLevel) (datacode : List UInt8) :
    (∀ byte ∈ frameBytes (rawCode version level datacode), reserved byte = false) ∧
      (frameBytes (rawCode version level datacode)).map dark =
        BitStream_writeBytes (codeWords version level datacode) ++
          List.replicate (QRspec_getRemainder version) false := by
  have hreg := regular hpos hmax level
  have hcodes : QRraw_codes ((rawCode version level datacode).dataLength +
      (rawCode version level datacode).eccLength) (rawCode version level datacode) =
      codeWords version level datacode := by
    unfold codeWords
    rw [← hreg.data, ← hreg.ecc]
    rfl
  unfold frameBytes
  rw [hcodes]
  simp only [List.forall_mem_append, List.map_append]
  constructor
  · refine ⟨⟨fun byte hbyte => ?_, fun byte hbyte => ?_⟩, fun byte hbyte => ?_⟩
    · obtain ⟨code, -, hcode⟩ := List.mem_flatMap.mp hbyte
      exact moduleBytes_reserved rfl code byte hcode
    · obtain ⟨code, -, hcode⟩ := List.mem_flatMap.mp hbyte
      exact moduleBytes_reserved rfl code byte hcode
    · rw [List.eq_of_mem_replicate hbyte]
      rfl
  · rw [map_dark_flatMap rfl, map_dark_flatMap rfl, List.map_replicate]
    unfold BitStream_writeBytes
    rw [← List.flatMap_append, List.take_append_drop]
    rfl

theorem length_frameBytes (hpos : 1 ≤ version) (hmax : version ≤ QRSPEC_VERSION_MAX)
    (level : QRecLevel) (datacode : List UInt8) :
    (frameBytes (rawCode version level datacode)).length = (dataModules version).length := by
  have hbits := congrArg List.length (frameBytes_facts hpos hmax level datacode).2
  rw [List.length_map, List.length_append, length_writeBytes, List.length_replicate,
    length_codeWords, ← words_eq hpos hmax] at hbits
  rw [hbits, length_dataModules hpos hmax]
  rfl

end Bytes

section Symbols

variable {version : ℕ} {level : QRecLevel} {datacode : List UInt8}

/-- A filled frame still tells its data from its patterns. -/
theorem Filled.hasMarks (hpos : 1 ≤ version) (hmax : version ≤ QRSPEC_VERSION_MAX)
    {bytes : List UInt8} {frame : Frame} (h : Filled version bytes frame)
    (hbytes : ∀ byte ∈ bytes, reserved byte = false) : HasMarks version frame := by
  intro y x
  by_cases hmem : (y, x) ∈ (dataModules version).take bytes.length
  · have hfree := (mem_dataModules hpos hmax).mp (List.mem_of_mem_take hmem)
    have hbyte : frame y x ∈ bytes := by
      rw [← h.1]
      exact List.mem_map_of_mem hmem
    rw [hbytes _ hbyte, free_iff_reserved.mpr hfree.2]
    rfl
  · rw [h.2 y x hmem]
    exact hasMarks_createFrame version y x

/-- Filling a frame leaves the modules of its patterns as they are. -/
theorem Filled.reserved_kept {bytes : List UInt8} {frame : Frame} (h : Filled version bytes frame)
    {y x : ℕ} (hreserved : reserved (QRspec_createFrame version y x) = true) :
    frame y x = QRspec_createFrame version y x := by
  refine h.2 y x fun hmem => ?_
  have hfree := free_iff_reserved.mp (List.mem_filter.mp (List.mem_of_mem_take hmem)).2
  rw [hreserved] at hfree
  cases hfree

/-- What a reader sees of a symbol: its patterns, the format information in both places, and behind
the mask the code words of some bytes with light remainder bits. -/
structure Drawn (version : ℕ) (level : QRecLevel) (datacode : List UInt8) (mask : ℕ)
    (scan : Scan) : Prop where
  mask_lt : mask < maskNum
  patterns : Patterns version scan
  format : readFormat scan = formatBits level mask
  copy : readCopy version scan = formatBits level mask
  bits : readBits version mask scan =
    BitStream_writeBytes (codeWords version level datacode) ++
      List.replicate (QRspec_getRemainder version) false

def scanOf (frame : Frame) : Scan := fun y x => dark (frame y x)

/-- The mask is taken off again. -/
theorem Masked.drawn (hpos : 1 ≤ version) (hmax : version ≤ QRSPEC_VERSION_MAX) {mask : ℕ}
    {frame symbol : Frame} (h : Masked version level mask frame symbol)
    (hmarks : HasMarks version frame)
    (hframe : ∀ y x, reserved (QRspec_createFrame version y x) = true →
      frame y x = QRspec_createFrame version y x)
    (hbits : (dataModules version).map (fun p => dark (frame p.1 p.2)) =
      BitStream_writeBytes (codeWords version level datacode) ++
        List.replicate (QRspec_getRemainder version) false) :
    Drawn version level datacode mask (scanOf symbol) := by
  have hformat := QRspec_getFormatInfo_eq h.mask_lt level
  refine ⟨h.mask_lt, h.patterns_shown hpos hmax hframe, ?_, ?_, ?_⟩
  · unfold formatBits
    rw [← hformat]
    exact List.map_congr_left fun i hi => h.format i (List.mem_range.mp hi)
  · unfold formatBits readCopy
    rw [← hformat, ← width_eq_side hpos hmax]
    exact List.map_congr_left fun i hi => h.copy i (List.mem_range.mp hi)
  unfold readBits
  rw [← hbits, dataPlaces_eq hpos hmax]
  apply List.map_congr_left
  intro p hp
  have hfree := (mem_dataModules hpos hmax).mp hp
  have hmark : reserved (frame p.1 p.2) = false := by
    rw [hmarks p.1 p.2, free_iff_reserved.mpr hfree.2]
    rfl
  show (dark (symbol p.1 p.2) ^^ maskCondition mask p.1 p.2) = dark (frame p.1 p.2)
  rw [h.data p.1 p.2 hmark, Bool.xor_assoc, Bool.xor_self, Bool.xor_false]

/-- A frame takes the bytes of a raw code, all of them. -/
theorem fillFrame_rawCode (hpos : 1 ≤ version) (hmax : version ≤ QRSPEC_VERSION_MAX)
    (level : QRecLevel) (datacode : List UInt8) :
    ∃ frame, fillFrame (lt_width hpos hmax) (frameBytes (rawCode version level datacode))
        (QRspec_createFrame version) (FrameFiller_set (lt_width hpos hmax)) = some frame ∧
      HasMarks version frame ∧
      (∀ y x, reserved (QRspec_createFrame version y x) = true →
        frame y x = QRspec_createFrame version y x) ∧
      (dataModules version).map (fun p => dark (frame p.1 p.2)) =
        BitStream_writeBytes (codeWords version level datacode) ++
          List.replicate (QRspec_getRemainder version) false := by
  obtain ⟨hfree, hdark⟩ := frameBytes_facts hpos hmax level datacode
  have hlength := length_frameBytes hpos hmax level datacode
  have hfill := fillFrame_createFrame hpos hmax (frameBytes (rawCode version level datacode))
  cases hframe : fillFrame (lt_width hpos hmax) (frameBytes (rawCode version level datacode))
      (QRspec_createFrame version) (FrameFiller_set (lt_width hpos hmax)) with
  | none =>
    rw [hframe] at hfill
    exact absurd hlength (Nat.ne_of_gt hfill)
  | some frame =>
    rw [hframe] at hfill
    refine ⟨frame, rfl, hfill.2.hasMarks hpos hmax hfree, fun y x => hfill.2.reserved_kept, ?_⟩
    have hbytes := hfill.2.1
    rw [hlength, List.take_length] at hbytes
    rw [← hdark, ← hbytes, List.map_map]
    rfl

theorem encodeRaw_rawCode (hpos : 1 ≤ version) (hmax : version ≤ QRSPEC_VERSION_MAX)
    (level : QRecLevel) (datacode : List UInt8) :
    ∃ qrcode mask, encodeRaw (rawCode version level datacode) level (-1) = some qrcode ∧
      qrcode.width = QRspec_getWidth version ∧
      Drawn version level datacode mask (scanOf qrcode.data) := by
  obtain ⟨frame, hfill, hmarks, hframe, hbits⟩ := fillFrame_rawCode hpos hmax level datacode
  obtain ⟨mask, symbol, hmask, hmasked⟩ := Mask_mask_masked hpos hmax hmarks level
  have hnew : QRspec_newFrame version = some (QRspec_createFrame version) := if_neg (by omega)
  refine ⟨{ version := version, width := QRspec_getWidth version, data := symbol }, mask, ?_, rfl,
    hmasked.drawn hpos hmax hmarks hframe hbits⟩
  unfold encodeRaw
  split
  · next h => exact absurd (hnew.symm.trans h) (by simp)
  · next start h =>
    obtain rfl := Option.some.inj (hnew.symm.trans h)
    have hbind : (fillFrame (newFrame_width h) (frameBytes (rawCode version level datacode))
        (QRspec_createFrame version) (FrameFiller_set (newFrame_width h))) = some frame := hfill
    have hmaskFrame : maskFrame (QRspec_getWidth version) frame level (-1) = some symbol := hmask
    rw [hbind, Option.bind_some]
    exact congrArg _ hmaskFrame

/-- A code comes out whenever the input fits a version, and shows the bytes of the input. -/
theorem QRcode_encodeInput_eq (input : QRinput) :
    match QRcode_encodeInput input with
    | none => QRinput_getByteStream input = none
    | some qrcode => ∃ out bytes mask, QRinput_getByteStream input = some (out, bytes) ∧
        qrcode.width = QRspec_getWidth out.version ∧
        Drawn out.version out.level bytes mask (scanOf qrcode.data) := by
  unfold QRcode_encodeInput QRcode_encodeMask QRraw_new
  cases hbytes : QRinput_getByteStream input with
  | none => rfl
  | some p =>
    obtain ⟨out, bytes⟩ := p
    obtain ⟨⟨hpos, -, hlevel⟩, -⟩ := QRinput_getByteStream_reads hbytes
    obtain ⟨qrcode, mask, hcode, hwidth, hdrawn⟩ :=
      encodeRaw_rawCode hpos out.version_le out.level bytes
    rw [Option.map_some, Option.bind_some, ← hlevel, hcode]
    exact ⟨out, bytes, mask, rfl, hwidth, hdrawn⟩

end Symbols

section Readings

variable {version mask : ℕ} {level : QRecLevel} {datacode : List UInt8} {drawn scan : Scan}

theorem ofNat_number_field (code : UInt8) : UInt8.ofNat (number (field 8 code.toNat)) = code := by
  rw [number_field_of_lt code.toNat_lt, UInt8.ofNat_toNat]

/-- The places of the data hold the words of the version and less than a byte more. -/
theorem length_dataPlaces (hpos : 1 ≤ version) (hmax : version ≤ QRSPEC_VERSION_MAX) :
    (dataPlaces version).length / 8 = (capacityOf version).words := by
  have hall : ∀ v < QRSPEC_VERSION_MAX, QRspec_getRemainder (v + 1) < 8 := by decide +kernel
  obtain ⟨v, rfl⟩ := Nat.exists_eq_add_of_le' hpos
  have hless := hall v hmax
  rw [dataPlaces_eq hpos hmax, length_dataModules hpos hmax]
  omega

/-- The code words are read back from a symbol without damage. -/
theorem Drawn.receivedCodes_eq (hpos : 1 ≤ version) (hmax : version ≤ QRSPEC_VERSION_MAX)
    (h : Drawn version level datacode mask drawn) :
    receivedCodes version mask drawn = codeWords version level datacode := by
  set codes := codeWords version level datacode with hcodes
  have hcount : (codes.map fun code => field 8 code.toNat).length = (capacityOf version).words := by
    rw [List.length_map, hcodes, length_codeWords, words_eq hpos hmax level]
  have hrows : ∀ row ∈ codes.map (fun code => field 8 code.toNat), row.length = 8 := by
    intro row hrow
    obtain ⟨code, -, rfl⟩ := List.mem_map.mp hrow
    exact length_field 8 _
  have hpieces := pieces_flatten hrows (List.replicate (QRspec_getRemainder version) false)
  rw [hcount, ← List.flatMap_def] at hpieces
  unfold receivedCodes
  rw [length_dataPlaces hpos hmax, h.bits]
  unfold BitStream_writeBytes
  rw [hpieces, List.map_map]
  exact (List.map_congr_left fun code _ => ofNat_number_field code).trans (List.map_id codes)

/-- The format information of two pairs of a level and a mask differs in at least seven bits. -/
theorem format_distance (level level' : QRecLevel) : ∀ mask < maskNum, ∀ mask' < maskNum,
    (level = level' ∧ mask = mask') ∨
      7 ≤ differences (formatBits level mask) (formatBits level' mask') := by
  cases level <;> cases level' <;> decide +kernel

theorem format_unique {level' : QRecLevel} {mask' : ℕ} {bits : List Bool} (hmask : mask < maskNum)
    (hmask' : mask' < maskNum) (hbits : bits.length = 15)
    (h : differences (formatBits level mask) bits ≤ 3)
    (h' : differences (formatBits level' mask') bits ≤ 3) : level = level' ∧ mask = mask' := by
  have hlength (level : QRecLevel) (mask : ℕ) : (formatBits level mask).length = bits.length := by
    unfold formatBits
    rw [List.length_map, List.length_range, hbits]
  have htriangle := differences_triangle (hlength level mask) (hlength level' mask').symm
  rw [differences_comm bits] at htriangle
  refine (format_distance level level' mask hmask mask' hmask').resolve_right fun hfar => ?_
  omega

theorem differences_self {α : Type*} [DecidableEq α] (l : List α) : differences l l = 0 := by
  induction l with
  | nil => rfl
  | cons a l ih => rw [differences_cons, if_pos rfl, ih]

/-- No damage is light damage. -/
theorem LightDamage.refl (version : ℕ) (level : QRecLevel) (mask : ℕ) (drawn : Scan) :
    LightDamage version level mask drawn drawn := by
  constructor
  · rw [differences_self]
    exact Nat.zero_le 3
  · rw [differences_self]
    exact Nat.zero_le 3
  · unfold LightlyDamaged
    rw [List.forall₂_same]
    intro block _
    rw [differences_self]
    exact Nat.zero_le _

/-- With light damage a symbol can be read, and every reading of it comes to the same text. -/
theorem Drawn.readings (hpos : 1 ≤ version) (hmax : version ≤ QRSPEC_VERSION_MAX)
    (hlength : datacode.length = QRspec_getDataLength version level)
    (h : Drawn version level datacode mask drawn)
    (hdamage : LightDamage version level mask drawn scan) :
    Nonempty (Reading (side version) scan) ∧
      ∀ r : Reading (side version) scan,
        r.text = readStream version (BitStream_writeBytes datacode) := by
  have hreceived : (receivedCodes version mask scan).length =
      QRspec_getDataLength version level + QRspec_getECCLength version level := by
    unfold receivedCodes
    rw [List.length_map, length_pieces, length_dataPlaces hpos hmax, words_eq hpos hmax level]
  have hformat : differences (formatBits level mask) (readFormat scan) ≤ 3 := by
    rw [← h.format]
    exact hdamage.format
  have hcopy : differences (formatBits level mask) (readCopy version scan) ≤ 3 := by
    rw [← h.copy]
    exact hdamage.copy
  have hfew := hdamage.codes
  rw [h.receivedCodes_eq hpos hmax] at hfew
  have hcorrected := codeWords_corrected hpos hmax hlength hreceived hfew
  constructor
  · exact ⟨{
      version := version
      level := level
      mask := mask
      blocks := readBlocks version level (codeWords version level datacode)
      version_range := ⟨hpos, hmax⟩
      width_eq := rfl
      mask_lt := h.mask_lt
      format := .inl hformat
      corrected := (hcorrected _).mpr ⟨rfl, readCodes_codeWords hpos hmax hlength⟩ }⟩
  · rintro ⟨version', level', mask', blocks, hrange, hwidth, hmask', hformat', hblocks⟩
    obtain rfl : version = version' := by
      unfold side at hwidth
      omega
    obtain ⟨rfl, rfl⟩ : level = level' ∧ mask = mask' := by
      rcases hformat' with hformat' | hcopy'
      · exact format_unique h.mask_lt hmask' (by simp [readFormat]) hformat hformat'
      · exact format_unique h.mask_lt hmask' (by simp [readCopy]) hcopy hcopy'
    show readStream version (BitStream_writeBytes (blocks.flatMap RSblock.data)) = _
    rw [((hcorrected blocks).mp hblocks).2]

end Readings

section Shown

/-- The dark modules of an image, inside its margin. -/
def QImage.scan (image : QImage) : Scan := fun y x => image.pixel (y + 4) (x + 4) = 0x0

/-- An image that shows a text: in a white margin of four modules the patterns of a version and its
format information twice, and data that a reader takes for the text and for no other one, even where
some modules are damaged. -/
structure Legible (image : QImage) (text : List UInt8) : Prop where
  square : image.height = image.width
  colors : ∀ y x, image.pixel y x = 0x0 ∨ image.pixel y x = 0xffffff
  margin : ∀ y x, ¬((4 ≤ y ∧ y + 4 < image.height) ∧ 4 ≤ x ∧ x + 4 < image.width) →
    image.pixel y x = 0xffffff
  readings : ∃ version mask, (1 ≤ version ∧ version ≤ QRSPEC_VERSION_MAX) ∧
    image.width = side version + 8 ∧ Patterns version image.scan ∧
    readFormat image.scan = formatBits QR_ECLEVEL_L mask ∧
    readCopy version image.scan = formatBits QR_ECLEVEL_L mask ∧
    LightDamage version QR_ECLEVEL_L mask image.scan image.scan ∧
    ∀ scan, LightDamage version QR_ECLEVEL_L mask image.scan scan →
      Nonempty (Reading (side version) scan) ∧
        ∀ r : Reading (side version) scan, r.text = some text

/-- The input that the wallet makes of a text. -/
def inputOf (dataString : List UInt8) : Option QRinput :=
  (QRinput_new2 1 QR_ECLEVEL_L).bind (Split_splitStringToQRinput dataString)

/-- A text whose segments do not fit the largest version. -/
def TooLong (dataString : List UInt8) : Prop :=
  ∃ input ∈ inputOf dataString, QRspec_getDataLength QRSPEC_VERSION_MAX QR_ECLEVEL_L * 8 <
    (QRinput_createBitStream input.entries QRSPEC_VERSION_MAX).length

theorem inputOf_eq (dataString : List UInt8) :
    (cString dataString = [] ∧ inputOf dataString = none) ∨
      (cString dataString ≠ [] ∧ ∃ input, inputOf dataString = some input ∧
        input.level = QR_ECLEVEL_L ∧ textOf input.entries = cString dataString) := by
  unfold inputOf QRinput_new2
  rw [dif_neg (by decide), Option.bind_some]
  unfold Split_splitStringToQRinput
  by_cases hempty : dataString.headD 0 = 0
  · exact .inl ⟨cString_eq_nil_iff.mpr hempty, if_pos hempty⟩
  · obtain ⟨out, hout, -, hlevel, htext⟩ := Split_splitString_text dataString
      { version := 1, level := QR_ECLEVEL_L, entries := [], version_le := by decide }
    exact .inr ⟨fun hnil => hempty (cString_eq_nil_iff.mp hnil), out,
      (if_neg hempty).trans hout, hlevel, htext⟩

theorem encodeString_eq (dataString : List UInt8) :
    QRcode_encodeString dataString 1 QR_ECLEVEL_L =
      (inputOf dataString).bind QRcode_encodeInput := (Option.bind_assoc _ _ _).symm

theorem formatPlace_lt {i : ℕ} (hi : i < 15) : (formatPlace i).1 < 9 ∧ (formatPlace i).2 < 9 := by
  have hall : ∀ i < 15, (formatPlace i).1 < 9 ∧ (formatPlace i).2 < 9 := by decide
  exact hall i hi

theorem otherPlace_inSymbol {version i : ℕ} (hpos : 1 ≤ version) (hi : i < 15) :
    InSymbol version (otherPlace (side version) i) := by
  have hlarge := lt_side hpos
  unfold InSymbol otherPlace
  split_ifs <;> simp only <;> omega

/-- Only the modules of the symbol count. -/
theorem Drawn.congr {version mask : ℕ} {level : QRecLevel} {datacode : List UInt8}
    {drawn scan : Scan} (hpos : 1 ≤ version) (hmax : version ≤ QRSPEC_VERSION_MAX)
    (h : Drawn version level datacode mask drawn)
    (hscan : ∀ y x, InSymbol version (y, x) → scan y x = drawn y x) :
    Drawn version level datacode mask scan := by
  have hlarge := lt_side hpos
  refine ⟨h.mask_lt, h.patterns.congr hpos hmax fun y x hfixed => hscan y x hfixed.inSymbol,
    ?_, ?_, ?_⟩
  · rw [← h.format]
    apply List.map_congr_left
    intro i hi
    have hplace := formatPlace_lt (List.mem_range.mp hi)
    exact hscan _ _ ⟨by omega, by omega⟩
  · rw [← h.copy]
    exact List.map_congr_left fun i hi =>
      hscan _ _ (otherPlace_inSymbol hpos (List.mem_range.mp hi))
  · rw [← h.bits]
    apply List.map_congr_left
    intro p hp
    rw [dataPlaces_eq hpos hmax] at hp
    obtain ⟨hin, -⟩ := (mem_dataModules hpos hmax).mp hp
    rw [width_eq_side hpos hmax] at hin
    rw [hscan _ _ hin]

theorem imageOf_inside (qrcode : QRcode) {y x : ℕ} (hy : y < qrcode.width)
    (hx : x < qrcode.width) : (imageOf qrcode).pixel (y + 4) (x + 4) =
      if dark (qrcode.data y x) then 0x0 else 0xffffff := by
  refine (if_pos (decide_eq_true ?_)).trans ?_
  · show (4 ≤ y + 4 ∧ y + 4 < 4 + qrcode.width) ∧ 4 ≤ x + 4 ∧ x + 4 < 4 + qrcode.width
    omega
  · simp only [Nat.add_sub_cancel]

theorem imageOf_margin (qrcode : QRcode) {y x : ℕ}
    (h : ¬((4 ≤ y ∧ y < 4 + qrcode.width) ∧ 4 ≤ x ∧ x < 4 + qrcode.width)) :
    (imageOf qrcode).pixel y x = 0xffffff :=
  if_neg (Bool.eq_false_iff.mp (decide_eq_false h))

/-- The image of a code is legible where the code is. -/
theorem legible_of_drawn {qrcode : QRcode} {version mask : ℕ} {datacode text : List UInt8}
    (hpos : 1 ≤ version) (hmax : version ≤ QRSPEC_VERSION_MAX)
    (hlength : datacode.length = QRspec_getDataLength version QR_ECLEVEL_L)
    (hwidth : qrcode.width = side version)
    (hdrawn : Drawn version QR_ECLEVEL_L datacode mask (scanOf qrcode.data))
    (htext : readStream version (BitStream_writeBytes datacode) = some text) :
    Legible (imageOf qrcode) text := by
  have hscan : ∀ y x, InSymbol version (y, x) →
      (imageOf qrcode).scan y x = scanOf qrcode.data y x := by
    intro y x hin
    unfold QImage.scan scanOf
    rw [imageOf_inside qrcode (hwidth ▸ hin.1) (hwidth ▸ hin.2)]
    cases dark (qrcode.data y x) <;> rfl
  have himage := hdrawn.congr hpos hmax hscan
  refine ⟨rfl, ?_, ?_, version, mask, ⟨hpos, hmax⟩, ?_, himage.patterns, himage.format, himage.copy,
    LightDamage.refl _ _ _ _, ?_⟩
  · intro y x
    by_cases hinside : (4 ≤ y ∧ y < 4 + qrcode.width) ∧ 4 ≤ x ∧ x < 4 + qrcode.width
    · obtain ⟨i, rfl⟩ := Nat.exists_eq_add_of_le' hinside.1.1
      obtain ⟨j, rfl⟩ := Nat.exists_eq_add_of_le' hinside.2.1
      rw [imageOf_inside qrcode (by omega) (by omega)]
      cases dark (qrcode.data i j)
      · exact .inr rfl
      · exact .inl rfl
    · exact .inr (imageOf_margin qrcode hinside)
  · intro y x hout
    apply imageOf_margin
    intro hinside
    refine hout ?_
    show (4 ≤ y ∧ y + 4 < qrcode.width + 8) ∧ 4 ≤ x ∧ x + 4 < qrcode.width + 8
    omega
  · rw [← hwidth]
    rfl
  · intro scan hdamage
    rw [← htext]
    exact himage.readings hpos hmax hlength hdamage

/-- The image of an input, or none where its segments do not fit. -/
theorem showQRCode_of_input {dataString : List UInt8} {input : QRinput}
    (hinput : inputOf dataString = some input) (hlevel : input.level = QR_ECLEVEL_L) :
    match showQRCode dataString with
    | none => TooLong dataString
    | some image => ¬TooLong dataString ∧ Legible image (textOf input.entries) := by
  have hlong : TooLong dataString ↔ QRinput_getByteStream input = none := by
    rw [QRinput_getByteStream_eq_none_iff, hlevel]
    unfold TooLong
    rw [hinput]
    exact ⟨fun ⟨_, hsome, hover⟩ => Option.some.inj hsome ▸ hover, fun hover => ⟨_, rfl, hover⟩⟩
  have hcode := QRcode_encodeInput_eq input
  unfold showQRCode
  rw [encodeString_eq, hinput, Option.bind_some]
  cases hqrcode : QRcode_encodeInput input with
  | none =>
    rw [hqrcode] at hcode
    exact hlong.mpr hcode
  | some qrcode =>
    rw [hqrcode] at hcode
    obtain ⟨out, bytes, mask, hbytes, hwidth, hdrawn⟩ := hcode
    obtain ⟨⟨hpos, -, hout⟩, hlength, hread⟩ := QRinput_getByteStream_reads hbytes
    rw [hout, hlevel] at hlength hdrawn
    rw [width_eq_side hpos out.version_le] at hwidth
    refine ⟨fun hover => ?_, legible_of_drawn hpos out.version_le hlength hwidth hdrawn hread⟩
    rw [hlong.mp hover] at hbytes
    cases hbytes

/-- A label shows every text that is not empty and whose segments fit a code, in an image that is
read as this text. -/
theorem showQRCode_spec (dataString : List UInt8) :
    match showQRCode dataString with
    | none => cString dataString = [] ∨ TooLong dataString
    | some image => (cString dataString ≠ [] ∧ ¬TooLong dataString) ∧
        Legible image (cString dataString) := by
  rcases inputOf_eq dataString with ⟨hempty, hnone⟩ | ⟨hne, input, hinput, hlevel, htext⟩
  · unfold showQRCode
    rw [encodeString_eq, hnone]
    exact .inl hempty
  · have hshown := showQRCode_of_input hinput hlevel
    rw [htext] at hshown
    cases himage : showQRCode dataString with
    | none =>
      rw [himage] at hshown
      exact .inr hshown
    | some image =>
      rw [himage] at hshown
      exact ⟨⟨hne, hshown.1⟩, hshown.2⟩

theorem payload_le (mode : QRencodeMode) (size : ℕ) : payload mode size ≤ 8 * size := by
  cases mode <;>
    simp only [payload, QRinput_estimateBitsModeNum_eq, QRinput_estimateBitsModeAn_eq,
      QRinput_estimateBitsMode8] <;> omega

/-- In the largest version an entry takes no more than 28 bits for each of its characters. -/
theorem length_encodeBitStream_max {entry : QRinput_List} (hsize : entry.size ≤ 844) :
    (QRinput_encodeBitStream entry QRSPEC_VERSION_MAX).length ≤ 28 * entry.size := by
  have hmode := entry.mode_ne
  have hpos : 0 < entry.size := by
    have hcheck := entry.check
    unfold QRinput_check at hcheck
    split_ifs at hcheck with hempty
    exact Nat.lt_of_not_le hempty
  have htable : ∀ mode : QRencodeMode, mode ≠ QR_MODE_NUL →
      QRspec_lengthIndicator mode QRSPEC_VERSION_MAX ≤ 16 ∧
        844 ≤ QRspec_maximumWords mode QRSPEC_VERSION_MAX := by
    intro mode hne
    cases mode with
    | QR_MODE_NUL => exact absurd rfl hne
    | _ => decide
  obtain ⟨hindicator, hwords⟩ := htable entry.mode hmode
  have hpayload := payload_le entry.mode entry.size
  rw [length_encodeBitStream_of_le (hsize.trans hwords)]
  omega

theorem length_createBitStream_max {entries : List QRinput_List}
    (hsize : (textOf entries).length ≤ 844) :
    (QRinput_createBitStream entries QRSPEC_VERSION_MAX).length ≤ 28 * (textOf entries).length := by
  induction entries with
  | nil => exact Nat.zero_le _
  | cons entry entries ih =>
    have htext : (textOf (entry :: entries)).length = entry.size + (textOf entries).length := by
      unfold textOf
      rw [List.flatMap_cons, List.length_append]
      rfl
    have hbits : (QRinput_createBitStream (entry :: entries) QRSPEC_VERSION_MAX).length =
        (QRinput_encodeBitStream entry QRSPEC_VERSION_MAX).length +
          (QRinput_createBitStream entries QRSPEC_VERSION_MAX).length := by
      unfold QRinput_createBitStream
      rw [List.flatMap_cons, List.length_append]
    have hshort : entry.size ≤ 844 := by omega
    have hentry := length_encodeBitStream_max hshort
    have hrest := ih (by omega)
    omega

/-- However it is split, a text of at most 844 bytes is shown. -/
theorem showQRCode_of_length_le {dataString : List UInt8} (hne : cString dataString ≠ [])
    (hlength : (cString dataString).length ≤ 844) :
    ∃ image, showQRCode dataString = some image ∧ Legible image (cString dataString) := by
  rcases inputOf_eq dataString with ⟨hempty, -⟩ | ⟨-, input, hinput, hlevel, htext⟩
  · exact absurd hempty hne
  · have hshown := showQRCode_of_input hinput hlevel
    have hbits := length_createBitStream_max (htext.symm ▸ hlength)
    rw [htext] at hshown hbits
    cases himage : showQRCode dataString with
    | none =>
      rw [himage] at hshown
      obtain ⟨input', hinput', hover⟩ := hshown
      obtain rfl : input = input' := Option.some.inj (hinput.symm.trans hinput')
      have hcapacity : QRspec_getDataLength QRSPEC_VERSION_MAX QR_ECLEVEL_L * 8 = 23648 := by
        decide
      omega
    | some image =>
      rw [himage] at hshown
      exact ⟨image, rfl, hshown.2⟩

/-- The address of a wallet has 98 characters. -/
theorem showQRCode_of_length_le_address :
    ∃ image, showQRCode (List.replicate 98 99) = some image ∧
      Legible image (List.replicate 98 99) := by
  have htext : cString (List.replicate 98 99) = List.replicate 98 99 := by decide
  have hshown := showQRCode_of_length_le (by rw [htext]; decide)
    (by rw [htext]; decide)
  rwa [htext] at hshown

end Shown

end ConcealDesktop.Qrencode
