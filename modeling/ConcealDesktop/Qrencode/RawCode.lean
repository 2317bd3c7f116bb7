import ConcealDesktop.Qrencode.Rsecc
import ConcealDesktop.Qrencode.Segments

/-! The code words of a symbol. The bytes of the input are cut into blocks, every block gets its
check bytes, and the code words come out column by column. -/
namespace ConcealDesktop.Qrencode
open Interleaving Syndromes Qrencode.Symbol

section Source

structure RSblock where
  data : List UInt8
  ecc : List UInt8

/-- RSblock_initBlock. The check bytes stay unwritten where RSECC_encode fails, which it does for
no specification. -/
def RSblock_initBlock (el : ℕ) (data : List UInt8) : RSblock where
  data := data
  ecc := (RSECC_encode el data).getD []

def RSblock_init (spec : EccSpec) (data : List UInt8) : List RSblock :=
  (pieces spec.rsDataCodes1 spec.rsBlockNum1 data).map (RSblock_initBlock spec.rsEccCodes) ++
    (pieces spec.rsDataCodes2 spec.rsBlockNum2
      (data.drop (spec.rsDataCodes1 * spec.rsBlockNum1))).map (RSblock_initBlock spec.rsEccCodes)

def EccSpec.rsBlockNum (spec : EccSpec) : ℕ := spec.rsBlockNum1 + spec.rsBlockNum2

def EccSpec.rsDataLength (spec : EccSpec) : ℕ :=
  spec.rsBlockNum1 * spec.rsDataCodes1 + spec.rsBlockNum2 * spec.rsDataCodes2

def EccSpec.rsEccLength (spec : EccSpec) : ℕ := spec.rsBlockNum * spec.rsEccCodes

structure QRRawCode where
  version : ℕ
  dataLength : ℕ
  eccLength : ℕ
  b1 : ℕ
  blocks : ℕ
  rsblock : List RSblock
  count : ℕ

/-- The raw code of the bytes of QRinput_getByteStream. -/
def rawCode (version : ℕ) (level : QRecLevel) (datacode : List UInt8) : QRRawCode :=
  let spec := QRspec_getEccSpec version level
  { version := version
    dataLength := spec.rsDataLength
    eccLength := spec.rsEccLength
    b1 := spec.rsBlockNum1
    blocks := spec.rsBlockNum
    rsblock := RSblock_init spec datacode
    count := 0 }

/-- QRraw_new, with the version that it leaves in the input. -/
def QRraw_new (input : QRinput) : Option (QRinput × QRRawCode) :=
  (QRinput_getByteStream input).map fun p => (p.1, rawCode p.1.version p.1.level p.2)

def QRRawCode.block (raw : QRRawCode) (row : ℕ) : RSblock := raw.rsblock.getD row ⟨[], []⟩

/-- What QRraw_getCode returns while its count is `count`. -/
def QRRawCode.codeAt (raw : QRRawCode) (count : ℕ) : UInt8 :=
  if count < raw.dataLength then
    let row := count % raw.blocks
    let col := count / raw.blocks
    let row := if col ≥ (raw.block 0).data.length then row + raw.b1 else row
    (raw.block row).data.getD col 0
  else if count < raw.dataLength + raw.eccLength then
    let row := (count - raw.dataLength) % raw.blocks
    let col := (count - raw.dataLength) / raw.blocks
    (raw.block row).ecc.getD col 0
  else 0

def QRraw_getCode (raw : QRRawCode) : UInt8 × QRRawCode :=
  if raw.count < raw.dataLength + raw.eccLength then
    (raw.codeAt raw.count, { raw with count := raw.count + 1 })
  else (raw.codeAt raw.count, raw)

/-- The results of `n` calls of QRraw_getCode. -/
def QRraw_codes : ℕ → QRRawCode → List UInt8
  | 0, _ => []
  | n + 1, raw => (QRraw_getCode raw).1 :: QRraw_codes n (QRraw_getCode raw).2

end Source

section Specifications

/-- What the tables say of the blocks of a version. -/
structure Regular (version : ℕ) (level : QRecLevel) (spec : EccSpec) : Prop where
  blocks : 0 < spec.rsBlockNum1
  check : min_length ≤ spec.rsEccCodes ∧ spec.rsEccCodes ≤ max_length
  second : spec.rsBlockNum2 = 0 ∨ spec.rsDataCodes2 = spec.rsDataCodes1 + 1
  short : spec.rsDataCodes1 + 1 + spec.rsEccCodes ≤ symbols
  data : spec.rsDataLength = QRspec_getDataLength version level
  ecc : spec.rsEccLength = QRspec_getECCLength version level

theorem regular {version : ℕ} (hpos : 1 ≤ version) (hmax : version ≤ QRSPEC_VERSION_MAX)
    (level : QRecLevel) : Regular version level (QRspec_getEccSpec version level) := by
  have hall : ∀ level : QRecLevel, ∀ v < QRSPEC_VERSION_MAX,
      let spec := QRspec_getEccSpec (v + 1) level
      (0 < spec.rsBlockNum1 ∧ min_length ≤ spec.rsEccCodes ∧ spec.rsEccCodes ≤ max_length) ∧
        (spec.rsBlockNum2 = 0 ∨ spec.rsDataCodes2 = spec.rsDataCodes1 + 1) ∧
        spec.rsDataCodes1 + 1 + spec.rsEccCodes ≤ symbols ∧
        spec.rsDataLength = QRspec_getDataLength (v + 1) level ∧
        spec.rsEccLength = QRspec_getECCLength (v + 1) level := by
    intro level
    cases level <;> decide +kernel
  obtain ⟨v, rfl⟩ := Nat.exists_eq_add_of_le' hpos
  obtain ⟨⟨hblocks, hcheck⟩, hsecond, hshort, hdata, hecc⟩ := hall level v hmax
  exact ⟨hblocks, hcheck, hsecond, hshort, hdata, hecc⟩

/-- The lengths of the data of the blocks. -/
def dataShape (spec : EccSpec) : List ℕ :=
  List.replicate spec.rsBlockNum1 spec.rsDataCodes1 ++
    List.replicate spec.rsBlockNum2 spec.rsDataCodes2

def eccShape (spec : EccSpec) : List ℕ := List.replicate spec.rsBlockNum spec.rsEccCodes

end Specifications

section Reader

/-- The blocks that a reader collects from the code words of a symbol, data first. -/
def readBlocks (version : ℕ) (level : QRecLevel) (codes : List UInt8) : List RSblock :=
  let spec := QRspec_getEccSpec version level
  List.zipWith RSblock.mk
    (rowsOf (spec.rsDataCodes1 + 1) (dataShape spec) codes)
    (rowsOf spec.rsEccCodes (eccShape spec) (codes.drop spec.rsDataLength))

/-- The data bytes of a symbol without damage. -/
def readCodes (version : ℕ) (level : QRecLevel) (codes : List UInt8) : List UInt8 :=
  (readBlocks version level codes).flatMap RSblock.data

end Reader

section Blocks

variable {version : ℕ} {level : QRecLevel} {spec : EccSpec} {datacode : List UInt8}

theorem RSblock_init_data (spec : EccSpec) (data : List UInt8) :
    (RSblock_init spec data).map RSblock.data =
      pieces spec.rsDataCodes1 spec.rsBlockNum1 data ++
        pieces spec.rsDataCodes2 spec.rsBlockNum2
          (data.drop (spec.rsDataCodes1 * spec.rsBlockNum1)) := by
  have hid : RSblock.data ∘ RSblock_initBlock spec.rsEccCodes = id := rfl
  unfold RSblock_init
  rw [List.map_append, List.map_map, List.map_map, hid, List.map_id, List.map_id]

theorem length_RSblock_init (spec : EccSpec) (data : List UInt8) :
    (RSblock_init spec data).length = spec.rsBlockNum := by
  unfold RSblock_init EccSpec.rsBlockNum
  rw [List.length_append, List.length_map, List.length_map, length_pieces, length_pieces]

theorem Regular.length_data (h : Regular version level spec)
    (hlength : datacode.length = QRspec_getDataLength version level) :
    datacode.length = spec.rsDataCodes1 * spec.rsBlockNum1 +
      spec.rsDataCodes2 * spec.rsBlockNum2 := by
  rw [hlength, ← h.data]
  unfold EccSpec.rsDataLength
  rw [Nat.mul_comm, Nat.mul_comm spec.rsBlockNum2]

theorem dataShape_eq (h : Regular version level spec)
    (hlength : datacode.length = QRspec_getDataLength version level) :
    ((RSblock_init spec datacode).map RSblock.data).map List.length = dataShape spec := by
  have hdata := h.length_data hlength
  have hpieces {k n : ℕ} {l : List UInt8} (hle : k * n ≤ l.length) :
      (pieces k n l).map List.length = List.replicate n k := by
    rw [List.map_congr_left fun piece hpiece => length_of_mem_pieces hle hpiece,
      List.map_const', length_pieces]
  rw [RSblock_init_data, List.map_append, hpieces (by omega), hpieces (by rw [List.length_drop]; omega)]
  rfl

/-- The blocks hold the bytes of the input in order. -/
theorem flatten_RSblock_init (h : Regular version level spec)
    (hlength : datacode.length = QRspec_getDataLength version level) :
    ((RSblock_init spec datacode).map RSblock.data).flatten = datacode := by
  have hdata := h.length_data hlength
  have hrest : (datacode.drop (spec.rsDataCodes1 * spec.rsBlockNum1)).take
      (spec.rsDataCodes2 * spec.rsBlockNum2) =
      datacode.drop (spec.rsDataCodes1 * spec.rsBlockNum1) := by
    apply List.take_of_length_le
    rw [List.length_drop]
    omega
  rw [RSblock_init_data, List.flatten_append, flatten_pieces, flatten_pieces, hrest,
    List.take_append_drop]

/-- The check bytes of every block are those of its data. -/
theorem RSblock_init_ecc (h : Regular version level spec) {block : RSblock}
    (hblock : block ∈ RSblock_init spec datacode) :
    RSECC_encode spec.rsEccCodes block.data = some block.ecc ∧
      block.ecc.length = spec.rsEccCodes ∧
      Vanishes g spec.rsEccCodes (word (block.data ++ block.ecc)) := by
  have hne : spec.rsEccCodes ≠ 0 := (Nat.lt_of_lt_of_le (by decide) h.check.1).ne'
  have hinit : ∃ data, RSblock_initBlock spec.rsEccCodes data = block := by
    rcases List.mem_append.mp hblock with hblock | hblock <;>
      exact (List.mem_map.mp hblock).imp fun _ hdata => hdata.2
  obtain ⟨data, rfl⟩ := hinit
  obtain ⟨ecc, hecc, hfacts⟩ := RSECC_encode_some h.check.2 hne data
  have hsame : (RSblock_initBlock spec.rsEccCodes data).ecc = ecc := by
    unfold RSblock_initBlock
    rw [hecc]
    rfl
  have hdata : (RSblock_initBlock spec.rsEccCodes data).data = data := rfl
  rw [hsame, hdata]
  exact ⟨hecc, hfacts⟩

theorem eccShape_eq (h : Regular version level spec) :
    ((RSblock_init spec datacode).map RSblock.ecc).map List.length = eccShape spec := by
  have hall : ∀ block ∈ RSblock_init spec datacode,
      (List.length ∘ RSblock.ecc) block = spec.rsEccCodes :=
    fun block hblock => (RSblock_init_ecc h hblock).2.1
  rw [List.map_map, List.map_congr_left hall, List.map_const', length_RSblock_init]
  rfl

end Blocks

section Codes

theorem length_QRraw_codes (n : ℕ) (raw : QRRawCode) : (QRraw_codes n raw).length = n := by
  induction n generalizing raw with
  | zero => rfl
  | succ n ih => rw [QRraw_codes, List.length_cons, ih]

theorem QRraw_codes_eq {n : ℕ} {raw : QRRawCode}
    (h : raw.count + n ≤ raw.dataLength + raw.eccLength) :
    QRraw_codes n raw = (List.range n).map fun i => raw.codeAt (raw.count + i) := by
  induction n generalizing raw with
  | zero => rfl
  | succ n ih =>
    have hlt : raw.count < raw.dataLength + raw.eccLength := by omega
    have hget : QRraw_getCode raw =
        (raw.codeAt raw.count, { raw with count := raw.count + 1 }) := if_pos hlt
    rw [QRraw_codes, hget, ih (by simp only; omega), List.range_succ_eq_map, List.map_cons,
      List.map_map]
    congr 1
    apply List.map_congr_left
    intro i _
    show raw.codeAt (raw.count + 1 + i) = raw.codeAt (raw.count + (i + 1))
    rw [Nat.add_right_comm, Nat.add_assoc]

variable {version : ℕ} {level : QRecLevel} {datacode : List UInt8}

/-- The rows of the data: the shorter blocks, then the longer ones. -/
theorem rows_split (hpos : 1 ≤ version) (hmax : version ≤ QRSPEC_VERSION_MAX)
    (hlength : datacode.length = QRspec_getDataLength version level) :
    ∃ short long : List (List UInt8),
      (rawCode version level datacode).rsblock.map RSblock.data = short ++ long ∧
        short.length = (rawCode version level datacode).b1 ∧
        short.length + long.length = (rawCode version level datacode).blocks ∧
        (∀ row ∈ short, row.length = (QRspec_getEccSpec version level).rsDataCodes1) ∧
        (∀ row ∈ long, row.length = (QRspec_getEccSpec version level).rsDataCodes1 + 1) ∧
        (rawCode version level datacode).dataLength =
          (QRspec_getEccSpec version level).rsDataCodes1 * (short.length + long.length) +
            long.length := by
  have hreg := regular hpos hmax level
  have hdata := hreg.length_data hlength
  set spec := QRspec_getEccSpec version level
  refine ⟨_, _, RSblock_init_data spec datacode, length_pieces _ _ _, ?_, ?_, ?_, ?_⟩
  · rw [length_pieces, length_pieces]
    rfl
  · exact fun row hrow => length_of_mem_pieces (by omega) hrow
  · intro row hrow
    have hrow' := length_of_mem_pieces (by rw [List.length_drop]; omega) hrow
    rcases hreg.second with hzero | hsecond
    · rw [hzero] at hrow
      cases hrow
    · rw [hrow', hsecond]
  · rw [length_pieces, length_pieces]
    show spec.rsBlockNum1 * spec.rsDataCodes1 + spec.rsBlockNum2 * spec.rsDataCodes2 = _
    rcases hreg.second with hzero | hsecond
    · rw [hzero]
      ring
    · rw [hsecond]
      ring

theorem block_data (raw : QRRawCode) (row : ℕ) :
    (raw.block row).data = (raw.rsblock.map RSblock.data).getD row [] :=
  (List.getD_map raw.rsblock ⟨[], []⟩ RSblock.data).symm

theorem block_ecc (raw : QRRawCode) (row : ℕ) :
    (raw.block row).ecc = (raw.rsblock.map RSblock.ecc).getD row [] :=
  (List.getD_map raw.rsblock ⟨[], []⟩ RSblock.ecc).symm

/-- The data codes are the columns of the data of the blocks. -/
theorem codeAt_data (hpos : 1 ≤ version) (hmax : version ≤ QRSPEC_VERSION_MAX)
    (hlength : datacode.length = QRspec_getDataLength version level) :
    (List.range (rawCode version level datacode).dataLength).map
        (rawCode version level datacode).codeAt =
      columns ((QRspec_getEccSpec version level).rsDataCodes1 + 1)
        ((rawCode version level datacode).rsblock.map RSblock.data) := by
  obtain ⟨short, long, hrows, hb1, hblocks, hshort, hlong, hcount⟩ :=
    rows_split hpos hmax hlength
  have hone := (regular hpos hmax level).blocks
  have hshortPos : 0 < short.length := hb1.symm ▸ hone
  set dl := (QRspec_getEccSpec version level).rsDataCodes1
  set raw := rawCode version level datacode
  have hfirst : (raw.block 0).data.length = dl := by
    rw [block_data, hrows, List.getD_append _ _ _ _ hshortPos]
    obtain ⟨row, more, rfl⟩ := List.exists_cons_of_length_pos hshortPos
    exact hshort row List.mem_cons_self
  have hcode (i : ℕ) (hi : i < raw.dataLength) : raw.codeAt i =
      ((short ++ long).getD
        (if i / (short.length + long.length) ≥ dl then i % (short.length + long.length) +
          short.length else i % (short.length + long.length)) []).getD
        (i / (short.length + long.length)) 0 := by
    unfold QRRawCode.codeAt
    rw [if_pos hi]
    simp only
    rw [hfirst, ← hblocks, ← hb1, block_data, hrows]
  have hfull : ∀ row ∈ short ++ long, dl ≤ row.length := by
    intro row hrow
    rcases List.mem_append.mp hrow with hrow | hrow
    · exact (hshort row hrow).ge
    · exact (Nat.le_succ dl).trans (hlong row hrow).ge
  have hlast : ((short ++ long).map (List.drop dl)).filterMap List.head? =
      long.map fun row => row.getD dl 0 := by
    have hnone : (short.map (List.drop dl)).filterMap List.head? = [] := by
      rw [List.filterMap_map, List.filterMap_eq_nil_iff]
      intro row hrow
      show (row.drop dl).head? = none
      rw [List.drop_of_length_le (hshort row hrow).le]
      rfl
    have hsome : (long.map (List.drop dl)).filterMap List.head? =
        long.map fun row => row.getD dl 0 := by
      rw [List.filterMap_map, ← List.filterMap_eq_map]
      apply List.filterMap_congr
      intro row hrow
      have hlt : dl < row.length := by
        rw [hlong row hrow]
        exact Nat.lt_succ_self dl
      show (row.drop dl).head? = some (row.getD dl 0)
      rw [List.head?_drop, List.getD_eq_getElem?_getD, List.getElem?_eq_getElem hlt]
      rfl
    rw [List.map_append, List.filterMap_append, hnone, hsome, List.nil_append]
  rw [hrows, columns_add, columns_rectangle hfull 0, columns, columns, hlast, List.append_nil,
    hcount, List.length_append, List.range_add, List.map_append, List.map_map]
  congr 1
  · apply List.map_congr_left
    intro i hi
    have hlt : i < dl * (short.length + long.length) := List.mem_range.mp hi
    have hdiv : ¬i / (short.length + long.length) ≥ dl :=
      Nat.not_le_of_lt (Nat.div_lt_of_lt_mul (by rwa [Nat.mul_comm] at hlt))
    rw [hcode i (by omega), if_neg hdiv]
  · apply List.ext_getElem
    · rw [List.length_map, List.length_range, List.length_map]
    · intro r hr _
      rw [List.length_map, List.length_range] at hr
      have hlt : r < short.length + long.length := by omega
      have hdiv : (dl * (short.length + long.length) + r) / (short.length + long.length) = dl := by
        rw [Nat.mul_comm, Nat.mul_add_div (by omega), Nat.div_eq_of_lt hlt, Nat.add_zero]
      have hmod : (dl * (short.length + long.length) + r) % (short.length + long.length) = r := by
        rw [Nat.mul_comm, Nat.mul_add_mod, Nat.mod_eq_of_lt hlt]
      rw [List.getElem_map, List.getElem_range, List.getElem_map, Function.comp_apply,
        hcode _ (by omega), hdiv, hmod, if_pos le_rfl, Nat.add_comm r,
        List.getD_append_right _ _ _ _ (Nat.le_add_right _ _), Nat.add_sub_cancel_left,
        List.getD_eq_getElem _ _ hr]

/-- The check codes are the columns of the check bytes of the blocks. -/
theorem codeAt_ecc (hpos : 1 ≤ version) (hmax : version ≤ QRSPEC_VERSION_MAX) :
    (List.range (rawCode version level datacode).eccLength).map (fun i =>
        (rawCode version level datacode).codeAt
          ((rawCode version level datacode).dataLength + i)) =
      columns (QRspec_getEccSpec version level).rsEccCodes
        ((rawCode version level datacode).rsblock.map RSblock.ecc) := by
  have hreg := regular hpos hmax level
  set raw := rawCode version level datacode
  have hfull : ∀ row ∈ raw.rsblock.map RSblock.ecc,
      (QRspec_getEccSpec version level).rsEccCodes ≤ row.length := by
    intro row hrow
    obtain ⟨block, hblock, rfl⟩ := List.mem_map.mp hrow
    exact (RSblock_init_ecc hreg hblock).2.1.ge
  have hblocks : (raw.rsblock.map RSblock.ecc).length = raw.blocks := by
    rw [List.length_map]
    exact length_RSblock_init _ _
  have hcount : raw.eccLength =
      (QRspec_getEccSpec version level).rsEccCodes * raw.blocks := Nat.mul_comm _ _
  rw [columns_rectangle hfull 0, hblocks, ← hcount]
  apply List.map_congr_left
  intro i hi
  have hlt := List.mem_range.mp hi
  unfold QRRawCode.codeAt
  rw [if_neg (by omega), if_pos (by omega)]
  simp only
  rw [Nat.add_sub_cancel_left, block_ecc]

/-- The code words of the bytes of an input. -/
def codeWords (version : ℕ) (level : QRecLevel) (datacode : List UInt8) : List UInt8 :=
  QRraw_codes (QRspec_getDataLength version level + QRspec_getECCLength version level)
    (rawCode version level datacode)

theorem codeWords_eq (hpos : 1 ≤ version) (hmax : version ≤ QRSPEC_VERSION_MAX)
    (hlength : datacode.length = QRspec_getDataLength version level) :
    codeWords version level datacode =
      columns ((QRspec_getEccSpec version level).rsDataCodes1 + 1)
          ((rawCode version level datacode).rsblock.map RSblock.data) ++
        columns (QRspec_getEccSpec version level).rsEccCodes
          ((rawCode version level datacode).rsblock.map RSblock.ecc) := by
  have hreg := regular hpos hmax level
  have hdata : (rawCode version level datacode).dataLength =
    QRspec_getDataLength version level := hreg.data
  have hecc : (rawCode version level datacode).eccLength =
    QRspec_getECCLength version level := hreg.ecc
  have hcount : (rawCode version level datacode).count = 0 := rfl
  unfold codeWords
  rw [QRraw_codes_eq (by rw [hcount, hdata, hecc, Nat.zero_add]), ← codeAt_data hpos hmax hlength,
    ← codeAt_ecc hpos hmax, List.range_add, List.map_append, List.map_map, hcount, hdata, hecc]
  simp only [Nat.zero_add]
  rfl

end Codes

section Reading

variable {version : ℕ} {level : QRecLevel} {datacode : List UInt8}

theorem rows_le (hpos : 1 ≤ version) (hmax : version ≤ QRSPEC_VERSION_MAX)
    (hlength : datacode.length = QRspec_getDataLength version level) :
    ∀ row ∈ (rawCode version level datacode).rsblock.map RSblock.data,
      row.length ≤ (QRspec_getEccSpec version level).rsDataCodes1 + 1 := by
  obtain ⟨short, long, hrows, -, -, hshort, hlong, -⟩ :=
    rows_split hpos hmax hlength
  intro row hrow
  rw [hrows] at hrow
  rcases List.mem_append.mp hrow with hrow | hrow
  · exact (hshort row hrow).le.trans (Nat.le_succ _)
  · exact (hlong row hrow).le

/-- A reader sorts the code words back into the blocks. -/
theorem readBlocks_codeWords (hpos : 1 ≤ version) (hmax : version ≤ QRSPEC_VERSION_MAX)
    (hlength : datacode.length = QRspec_getDataLength version level) :
    readBlocks version level (codeWords version level datacode) =
      RSblock_init (QRspec_getEccSpec version level) datacode := by
  have hreg := regular hpos hmax level
  have hle := rows_le hpos hmax hlength
  have hshape := dataShape_eq hreg hlength
  have hcolumns := length_columns hle
  have hecc : ∀ row ∈ (rawCode version level datacode).rsblock.map RSblock.ecc,
      row.length ≤ (QRspec_getEccSpec version level).rsEccCodes := by
    intro row hrow
    obtain ⟨block, hblock, rfl⟩ := List.mem_map.mp hrow
    exact (RSblock_init_ecc hreg hblock).2.1.le
  have hsum : (columns ((QRspec_getEccSpec version level).rsDataCodes1 + 1)
      ((rawCode version level datacode).rsblock.map RSblock.data)).length =
      (QRspec_getEccSpec version level).rsDataLength := by
    rw [← codeAt_data hpos hmax hlength, List.length_map, List.length_range]
    rfl
  unfold readBlocks
  simp only
  rw [codeWords_eq hpos hmax hlength, List.drop_left' hsum, ← hshape,
    ← eccShape_eq hreg]
  have hdata := rowsOf_columns hle (columns (QRspec_getEccSpec version level).rsEccCodes
    ((rawCode version level datacode).rsblock.map RSblock.ecc))
  have hcheck := rowsOf_columns hecc []
  have hblocks : (rawCode version level datacode).rsblock =
    RSblock_init (QRspec_getEccSpec version level) datacode := rfl
  rw [List.append_nil] at hcheck
  rw [hblocks] at hdata hcheck ⊢
  rw [hdata, hcheck, List.zipWith_map, List.zipWith_self, List.map_id']

/-- Without damage a reader finds the bytes of the input. -/
theorem readCodes_codeWords (hpos : 1 ≤ version) (hmax : version ≤ QRSPEC_VERSION_MAX)
    (hlength : datacode.length = QRspec_getDataLength version level) :
    readCodes version level (codeWords version level datacode) = datacode := by
  unfold readCodes
  rw [readBlocks_codeWords hpos hmax hlength, List.flatMap_def]
  exact flatten_RSblock_init (regular hpos hmax level) hlength

end Reading

section Correction

variable {version : ℕ} {level : QRecLevel} {datacode received : List UInt8}

/-- A block in the order of its code word. -/
def RSblock.bytes (block : RSblock) : List UInt8 := block.data ++ block.ecc

/-- What a reader may take for a damaged block: a code word of the same lengths that differs from
it in at most half as many bytes as there are check bytes. -/
structure Corrected (n : ℕ) (damaged block : RSblock) : Prop where
  data : block.data.length = damaged.data.length
  ecc : block.ecc.length = damaged.ecc.length
  vanishes : Vanishes g n (word block.bytes)
  few : 2 * differences block.bytes damaged.bytes ≤ n

theorem Corrected.unique {n : ℕ} {damaged block block' : RSblock}
    (hshort : damaged.bytes.length ≤ symbols) (h : Corrected n damaged block)
    (h' : Corrected n damaged block') : block = block' := by
  have hlength (b : RSblock) (hb : Corrected n damaged b) :
      (word b.bytes).length = (word damaged.bytes).length := by
    rw [length_word, length_word]
    unfold RSblock.bytes
    rw [List.length_append, List.length_append, hb.data, hb.ecc]
  have hfew (b : RSblock) (hb : Corrected n damaged b) :
      2 * differences (word b.bytes) (word damaged.bytes) ≤ n := by
    unfold word
    rw [differences_map mk_injective]
    exact hb.few
  have hword := eq_of_damaged h.vanishes h'.vanishes (hlength _ h) (hlength _ h')
    (distinct_g.mono (by rw [length_word]; exact hshort)) (hfew _ h) (hfew _ h')
  have hbytes : block.bytes = block'.bytes := List.map_injective_iff.mpr mk_injective hword
  have hdata := List.append_inj hbytes (h.data.trans h'.data.symm)
  cases block
  cases block'
  exact congrArg₂ RSblock.mk hdata.1 hdata.2

theorem map_data_zipWith {data ecc : List (List UInt8)} (h : data.length = ecc.length) :
    (List.zipWith RSblock.mk data ecc).map RSblock.data = data ∧
      (List.zipWith RSblock.mk data ecc).map RSblock.ecc = ecc := by
  induction data generalizing ecc with
  | nil => exact ⟨rfl, (List.length_eq_zero_iff.mp h.symm).symm⟩
  | cons row data ih =>
    cases ecc with
    | nil => cases h
    | cons check ecc =>
      obtain ⟨hdata, hecc⟩ := ih (Nat.succ.inj h)
      exact ⟨congrArg (List.cons row) hdata, congrArg (List.cons check) hecc⟩

theorem le_of_mem_dataShape {spec : EccSpec} (h : Regular version level spec) {k : ℕ}
    (hk : k ∈ dataShape spec) : k ≤ spec.rsDataCodes1 + 1 := by
  rcases List.mem_append.mp hk with hk | hk
  · rw [List.eq_of_mem_replicate hk]
    exact Nat.le_succ _
  · rcases h.second with hzero | hsecond
    · rw [hzero] at hk
      cases hk
    · rw [List.eq_of_mem_replicate hk, hsecond]

theorem sum_dataShape (spec : EccSpec) : (dataShape spec).sum = spec.rsDataLength := by
  unfold dataShape EccSpec.rsDataLength
  rw [List.sum_append, List.sum_replicate_nat, List.sum_replicate_nat]

theorem sum_eccShape (spec : EccSpec) : (eccShape spec).sum = spec.rsEccLength := by
  unfold eccShape EccSpec.rsEccLength
  rw [List.sum_replicate_nat]

/-- The blocks of any code words have the lengths of the version. -/
theorem readBlocks_shape (hpos : 1 ≤ version) (hmax : version ≤ QRSPEC_VERSION_MAX)
    (hreceived : received.length =
      QRspec_getDataLength version level + QRspec_getECCLength version level) :
    ((readBlocks version level received).map RSblock.data).map List.length =
        dataShape (QRspec_getEccSpec version level) ∧
      ((readBlocks version level received).map RSblock.ecc).map List.length =
        eccShape (QRspec_getEccSpec version level) := by
  have hreg := regular hpos hmax level
  have hdata := hreg.data
  have hecc := hreg.ecc
  set spec := QRspec_getEccSpec version level
  have hdataSum : (dataShape spec).sum ≤ received.length := by
    rw [sum_dataShape]
    omega
  have heccSum : (eccShape spec).sum ≤ (received.drop spec.rsDataLength).length := by
    rw [sum_eccShape, List.length_drop]
    omega
  have hdataRows := length_rowsOf (fun k hk => le_of_mem_dataShape hreg hk) hdataSum
  have heccLe : ∀ k ∈ eccShape spec, k ≤ spec.rsEccCodes :=
    fun k hk => (List.eq_of_mem_replicate hk).le
  have heccRows := length_rowsOf heccLe heccSum
  have hcount : (rowsOf (spec.rsDataCodes1 + 1) (dataShape spec) received).length =
      (rowsOf spec.rsEccCodes (eccShape spec) (received.drop spec.rsDataLength)).length := by
    have hd := congrArg List.length hdataRows
    have he := congrArg List.length heccRows
    rw [List.length_map] at hd he
    rw [hd, he]
    unfold dataShape eccShape EccSpec.rsBlockNum
    rw [List.length_append, List.length_replicate, List.length_replicate, List.length_replicate]
  obtain ⟨hmapData, hmapEcc⟩ := map_data_zipWith hcount
  unfold readBlocks
  simp only
  rw [hmapData, hmapEcc]
  exact ⟨hdataRows, heccRows⟩

/-- Blocks that are damaged in few bytes each, beside what they were. -/
def LightlyDamaged (n : ℕ) (sent damaged : List RSblock) : Prop :=
  List.Forall₂ (fun block damaged => 2 * differences block.bytes damaged.bytes ≤ n) sent damaged

theorem LightlyDamaged.corrected {n : ℕ} {sent damaged : List RSblock}
    (h : LightlyDamaged n sent damaged)
    (hdata : (sent.map RSblock.data).map List.length = (damaged.map RSblock.data).map List.length)
    (hecc : (sent.map RSblock.ecc).map List.length = (damaged.map RSblock.ecc).map List.length)
    (hvanishes : ∀ block ∈ sent, Vanishes g n (word block.bytes)) :
    List.Forall₂ (Corrected n) damaged sent := by
  induction h with
  | nil => exact .nil
  | cons hfew _ ih =>
    obtain ⟨hheadData, htailData⟩ := List.cons.inj hdata
    obtain ⟨hheadEcc, htailEcc⟩ := List.cons.inj hecc
    exact .cons ⟨hheadData, hheadEcc, hvanishes _ List.mem_cons_self, hfew⟩
      (ih htailData htailEcc fun block hblock => hvanishes block (List.mem_cons_of_mem _ hblock))

theorem Corrected.all_unique {n : ℕ} {sent damaged blocks : List RSblock}
    (hshort : ∀ block ∈ damaged, block.bytes.length ≤ symbols)
    (h : List.Forall₂ (Corrected n) damaged sent)
    (h' : List.Forall₂ (Corrected n) damaged blocks) : blocks = sent := by
  induction h generalizing blocks with
  | nil => exact (List.forall₂_nil_left_iff.mp h')
  | cons hhead _ ih =>
    obtain ⟨block, rest, hblock, hrest, rfl⟩ := List.forall₂_cons_left_iff.mp h'
    rw [hblock.unique (hshort _ List.mem_cons_self) hhead,
      ih (fun block hmem => hshort block (List.mem_cons_of_mem _ hmem)) hrest]

/-- A symbol that is damaged in at most half as many bytes of a block as the block has check bytes
can be corrected in one way only, which brings back the bytes of the input. -/
theorem codeWords_corrected (hpos : 1 ≤ version) (hmax : version ≤ QRSPEC_VERSION_MAX)
    (hlength : datacode.length = QRspec_getDataLength version level)
    (hreceived : received.length =
      QRspec_getDataLength version level + QRspec_getECCLength version level)
    (hfew : LightlyDamaged (QRspec_getEccSpec version level).rsEccCodes
      (readBlocks version level (codeWords version level datacode))
      (readBlocks version level received)) (blocks : List RSblock) :
    List.Forall₂ (Corrected (QRspec_getEccSpec version level).rsEccCodes)
        (readBlocks version level received) blocks ↔
      blocks = readBlocks version level (codeWords version level datacode) ∧
        blocks.flatMap RSblock.data = datacode := by
  have hreg := regular hpos hmax level
  obtain ⟨hdata, hecc⟩ := readBlocks_shape hpos hmax hreceived
  have hread : (readBlocks version level (codeWords version level datacode)).flatMap RSblock.data =
    datacode := readCodes_codeWords hpos hmax hlength
  have hsent := readBlocks_codeWords hpos hmax hlength
  have hcorrected : List.Forall₂ (Corrected (QRspec_getEccSpec version level).rsEccCodes)
      (readBlocks version level received)
      (readBlocks version level (codeWords version level datacode)) := by
    refine hfew.corrected ?_ ?_ ?_
    · rw [hsent, dataShape_eq hreg hlength, hdata]
    · rw [hsent, eccShape_eq hreg, hecc]
    · intro block hblock
      rw [hsent] at hblock
      exact (RSblock_init_ecc hreg hblock).2.2
  have hshort : ∀ block ∈ readBlocks version level received, block.bytes.length ≤ symbols := by
    intro block hblock
    have hblockData : block.data.length ∈ dataShape (QRspec_getEccSpec version level) := by
      rw [← hdata]
      exact List.mem_map_of_mem (List.mem_map_of_mem hblock)
    have hblockEcc : block.ecc.length ∈ eccShape (QRspec_getEccSpec version level) := by
      rw [← hecc]
      exact List.mem_map_of_mem (List.mem_map_of_mem hblock)
    have hle := le_of_mem_dataShape hreg hblockData
    have heq := List.eq_of_mem_replicate hblockEcc
    have hbound := hreg.short
    unfold RSblock.bytes
    rw [List.length_append]
    omega
  constructor
  · intro hblocks
    have heq := Corrected.all_unique hshort hcorrected hblocks
    exact ⟨heq, heq ▸ hread⟩
  · rintro ⟨rfl, -⟩
    exact hcorrected

end Correction

end ConcealDesktop.Qrencode
