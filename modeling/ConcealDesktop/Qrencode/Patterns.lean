import ConcealDesktop.Qrencode.Mask

/-! The patterns of a symbol as a reader expects them, by their places and colors, and the words of
the format and the version information by the codes that protect them. What libqrencode draws from
its tables is compared with them. -/
namespace ConcealDesktop.Qrencode
open Raster QRecLevel

section Expected

/-- The modules that a reader sees as dark. -/
abbrev Scan := ℕ → ℕ → Bool

/-- The modules along a side of a symbol. -/
def side (version : ℕ) : ℕ := 4 * version + 17

def InSymbol (version : ℕ) (p : ℕ × ℕ) : Prop := p.1 < side version ∧ p.2 < side version

/-- The ring around `c` on which a module lies. -/
def ring (c p : ℕ × ℕ) : ℕ := max (c.1 - p.1 + (p.1 - c.1)) (c.2 - p.2 + (p.2 - c.2))

def finderCenters (version : ℕ) : List (ℕ × ℕ) :=
  [(3, 3), (3, side version - 4), (side version - 4, 3)]

/-- The distance of the alignment patterns; version 32 does not follow the rule. -/
def alignmentStep (version : ℕ) : ℕ :=
  let n := version / 7 + 2
  if version = 32 then 26 else (4 * version + 2 * n + 1) / (2 * n - 2) * 2

/-- The rows, and the columns, with alignment patterns: 6, and the others from the last one back. -/
def alignmentLines (version : ℕ) : List ℕ :=
  if version < 2 then []
  else
    6 :: (List.range (version / 7 + 1)).map fun k => side version - 7 - k * alignmentStep version

/-- An alignment pattern stands wherever two of the lines meet, but not upon a finder pattern. -/
def alignmentPlaces (version : ℕ) : List (ℕ × ℕ) :=
  ((alignmentLines version).flatMap fun y => (alignmentLines version).map fun x => (y, x)).filter
    fun c => ∀ f ∈ finderCenters version, 4 < ring f c

/-- What is left of a word of `n` bits above the degree of a generator when it is divided by it,
with coefficients of one bit. -/
def checkBits (generator degree : ℕ) : ℕ → ℕ → ℕ
  | 0, word => word
  | n + 1, word => checkBits generator degree n
      (if word.testBit (n + degree) then word ^^^ (generator <<< n) else word)

/-- The version in six bits and twelve check bits. -/
def versionWord (version : ℕ) : ℕ :=
  (version <<< 12) ||| checkBits 0x1f25 12 6 (version <<< 12)

def levelIndicator : QRecLevel → ℕ
  | QR_ECLEVEL_L => 1
  | QR_ECLEVEL_M => 0
  | QR_ECLEVEL_Q => 3
  | QR_ECLEVEL_H => 2

/-- The level and the mask in five bits and ten check bits, turned over where 0x5412 says so. -/
def formatWord (level : QRecLevel) (mask : ℕ) : ℕ :=
  let word := ((levelIndicator level <<< 3) ||| mask) <<< 10
  (word ||| checkBits 0x537 10 5 word) ^^^ 0x5412

/-- The patterns that a symbol shows whatever text it carries. -/
structure Patterns (version : ℕ) (scan : Scan) : Prop where
  finder : ∀ c ∈ finderCenters version, ∀ p, InSymbol version p → ring c p ≤ 4 →
    scan p.1 p.2 = decide (ring c p ≠ 2 ∧ ring c p ≠ 4)
  timing : ∀ i, 8 ≤ i → i + 8 < side version →
    scan 6 i = decide (i % 2 = 0) ∧ scan i 6 = decide (i % 2 = 0)
  alignment : ∀ c ∈ alignmentPlaces version, ∀ p, ring c p ≤ 2 →
    scan p.1 p.2 = decide (ring c p ≠ 1)
  information : 7 ≤ version → ∀ i < 18,
    scan (side version - 11 + i % 3) (i / 3) = (versionWord version).testBit i ∧
      scan (i / 3) (side version - 11 + i % 3) = (versionWord version).testBit i
  darkModule : scan (side version - 8) 8 = true

/-- A module of a pattern, or of the format or the version information: no data goes there. -/
def FunctionModule (version : ℕ) (p : ℕ × ℕ) : Prop :=
  (∃ c ∈ finderCenters version, ring c p ≤ 4) ∨ (p.1 = 6 ∨ p.2 = 6) ∨
  (∃ c ∈ alignmentPlaces version, ring c p ≤ 2) ∨
  (p.1 = 8 ∧ (p.2 ≤ 8 ∨ side version ≤ p.2 + 8) ∨
    p.2 = 8 ∧ (p.1 ≤ 8 ∨ side version ≤ p.1 + 8)) ∨
  7 ≤ version ∧ (p.2 < 6 ∧ side version ≤ p.1 + 11 ∧ p.1 + 8 < side version ∨
    p.1 < 6 ∧ side version ≤ p.2 + 11 ∧ p.2 + 8 < side version)

instance (version : ℕ) (p : ℕ × ℕ) : Decidable (FunctionModule version p) := by
  unfold FunctionModule
  infer_instance

theorem ring_le_iff {c p : ℕ × ℕ} {n : ℕ} : ring c p ≤ n ↔
    (c.1 ≤ p.1 + n ∧ p.1 ≤ c.1 + n) ∧ c.2 ≤ p.2 + n ∧ p.2 ≤ c.2 + n := by
  unfold ring
  omega

theorem lt_side {version : ℕ} (hpos : 1 ≤ version) : 20 < side version := by
  unfold side
  omega

end Expected

section Tables

variable {version : ℕ}

/-- The table of the source holds the words of the version information. -/
theorem QRspec_getVersionPattern_eq (hlow : 7 ≤ version) (hmax : version ≤ QRSPEC_VERSION_MAX) :
    QRspec_getVersionPattern version = versionWord version := by
  have hall : ∀ v < 34, QRspec_getVersionPattern (v + 7) = versionWord (v + 7) := by
    decide +kernel
  obtain ⟨v, rfl⟩ := Nat.exists_eq_add_of_le' hlow
  unfold QRSPEC_VERSION_MAX at hmax
  exact hall v (by omega)

theorem QRspec_getFormatInfo_eq {mask : ℕ} (hmask : mask < maskNum) (level : QRecLevel) :
    QRspec_getFormatInfo mask level = formatWord level mask := by
  have hall : ∀ mask < maskNum, QRspec_getFormatInfo mask level = formatWord level mask := by
    cases level <;> decide +kernel
  exact hall mask hmask

theorem width_eq_side (hpos : 1 ≤ version) (hmax : version ≤ QRSPEC_VERSION_MAX) :
    QRspec_getWidth version = side version := width_eq hpos hmax

/-- The loops of QRspec_putAlignmentPattern come to the places of the alignment patterns. -/
theorem mem_alignmentCenters (hpos : 1 ≤ version) (hmax : version ≤ QRSPEC_VERSION_MAX) {y x : ℕ} :
    (x, y) ∈ alignmentCenters version (side version) ↔ (y, x) ∈ alignmentPlaces version := by
  have hall : ∀ v < QRSPEC_VERSION_MAX,
      (∀ c ∈ alignmentCenters (v + 1) (side (v + 1)), (c.2, c.1) ∈ alignmentPlaces (v + 1)) ∧
        ∀ c ∈ alignmentPlaces (v + 1), (c.2, c.1) ∈ alignmentCenters (v + 1) (side (v + 1)) := by
    decide +kernel
  obtain ⟨v, rfl⟩ := Nat.exists_eq_add_of_le' hpos
  obtain ⟨hto, hfrom⟩ := hall v hmax
  exact ⟨hto (x, y), hfrom (y, x)⟩

/-- The lines of the alignment patterns are even, and line 6 or behind the timing pattern. -/
theorem alignmentLines_facts (hpos : 1 ≤ version) (hmax : version ≤ QRSPEC_VERSION_MAX) :
    (∀ y ∈ alignmentLines version, y % 2 = 0 ∧ (y = 6 ∨ 11 ≤ y) ∧ y + 7 ≤ side version) ∧
      ∀ y ∈ alignmentLines version, ∀ x ∈ alignmentLines version, y = x ∨ 5 ≤ y - x + (x - y) := by
  have hall : ∀ v < QRSPEC_VERSION_MAX,
      (∀ y ∈ alignmentLines (v + 1), y % 2 = 0 ∧ (y = 6 ∨ 11 ≤ y) ∧ y + 7 ≤ side (v + 1)) ∧
        ∀ y ∈ alignmentLines (v + 1), ∀ x ∈ alignmentLines (v + 1),
          y = x ∨ 5 ≤ y - x + (x - y) := by
    decide +kernel
  obtain ⟨v, rfl⟩ := Nat.exists_eq_add_of_le' hpos
  exact hall v hmax

theorem mem_alignmentLines {c : ℕ × ℕ} (hc : c ∈ alignmentPlaces version) :
    c.1 ∈ alignmentLines version ∧ c.2 ∈ alignmentLines version := by
  obtain ⟨y, hy, hrow⟩ := List.mem_flatMap.mp (List.mem_filter.mp hc).1
  obtain ⟨x, hx, rfl⟩ := List.mem_map.mp hrow
  exact ⟨hy, hx⟩

/-- No module lies on the first rings of two alignment patterns. -/
theorem alignmentPlaces_separate (hpos : 1 ≤ version) (hmax : version ≤ QRSPEC_VERSION_MAX)
    {c c' p : ℕ × ℕ} (hc : c ∈ alignmentPlaces version) (hc' : c' ∈ alignmentPlaces version)
    (hring : ring c p ≤ 2) (hring' : ring c' p ≤ 2) : c = c' := by
  have hapart := (alignmentLines_facts hpos hmax).2
  have hrow := hapart _ (mem_alignmentLines hc).1 _ (mem_alignmentLines hc').1
  have hcol := hapart _ (mem_alignmentLines hc).2 _ (mem_alignmentLines hc').2
  obtain ⟨hy, hx⟩ := ring_le_iff.mp hring
  obtain ⟨hy', hx'⟩ := ring_le_iff.mp hring'
  exact Prod.ext (by omega) (by omega)

end Tables

section Drawn

variable {version : ℕ}

/-- What QRspec_createFrame draws behind the timing and the alignment patterns. -/
def lastPatches (version : ℕ) : List (Patch UInt8) :=
  versionPatches version (side version) ++ [fill (side version - 8) 8 1 1 0x81]

/-- What it draws behind the format information. -/
def innerPatches (version : ℕ) : List (Patch UInt8) :=
  timingPatches (side version) ++ (QRspec_putAlignmentPattern version (side version) ++
    lastPatches version)

theorem framePatches_eq (hpos : 1 ≤ version) (hmax : version ≤ QRSPEC_VERSION_MAX) :
    framePatches version = finderPatches (side version) ++
      (formatPatches (side version) ++ innerPatches version) := by
  unfold framePatches innerPatches lastPatches
  simp only [width_eq_side hpos hmax, List.append_assoc]

theorem patches_apart (hpos : 1 ≤ version) (hmax : version ≤ QRSPEC_VERSION_MAX) :
    Apart (side version) (finderPatches (side version))
        (formatPatches (side version) ++ innerPatches version) ∧
      Apart (side version) (timingPatches (side version) ++
        QRspec_putAlignmentPattern version (side version)) (lastPatches version) ∧
      Apart (side version) (versionPatches version (side version))
        [fill (side version - 8) 8 1 1 0x81] := by
  have hall : ∀ v < QRSPEC_VERSION_MAX,
      Apart (side (v + 1)) (finderPatches (side (v + 1)))
          (formatPatches (side (v + 1)) ++ innerPatches (v + 1)) ∧
        Apart (side (v + 1)) (timingPatches (side (v + 1)) ++
          QRspec_putAlignmentPattern (v + 1) (side (v + 1))) (lastPatches (v + 1)) ∧
        Apart (side (v + 1)) (versionPatches (v + 1) (side (v + 1)))
          [fill (side (v + 1) - 8) 8 1 1 0x81] := by
    decide +kernel
  obtain ⟨v, rfl⟩ := Nat.exists_eq_add_of_le' hpos
  exact hall v hmax

theorem covered_finderPatches (hpos : 1 ≤ version) {y x : ℕ} (hy : y < side version)
    (hx : x < side version) : covered (finderPatches (side version)) y x = true ↔
      ∃ c ∈ finderCenters version, ring c (y, x) ≤ 4 := by
  unfold side at hy hx
  simp only [covered, finderPatches, List.any_cons, List.any_nil, Bool.or_false, Bool.or_eq_true,
    Patch.covers, decide_eq_true_eq, finderCenters, List.mem_cons, List.not_mem_nil, or_false,
    exists_eq_or_imp, exists_eq_left, putFinderPattern, fill, ring_le_iff, side]
  omega

/-- The bytes of the finder patterns show their rings. -/
theorem dark_finder {oy ox y x : ℕ} (hy : oy ≤ y ∧ y < oy + 7) (hx : ox ≤ x ∧ x < ox + 7) :
    dark (finder.getD ((y - oy) * 7 + (x - ox)) 0) =
      decide (ring (oy + 3, ox + 3) (y, x) ≠ 2 ∧ ring (oy + 3, ox + 3) (y, x) ≠ 4) := by
  have hall : ∀ i < 7, ∀ j < 7, dark (finder.getD (i * 7 + j) 0) =
      decide (ring (3, 3) (i, j) ≠ 2 ∧ ring (3, 3) (i, j) ≠ 4) := by decide
  obtain ⟨i, rfl⟩ := Nat.exists_eq_add_of_le hy.1
  obtain ⟨j, rfl⟩ := Nat.exists_eq_add_of_le hx.1
  have hring : ring (oy + 3, ox + 3) (oy + i, ox + j) = ring (3, 3) (i, j) := by
    unfold ring
    simp only [Nat.add_sub_add_left]
  rw [Nat.add_sub_cancel_left, Nat.add_sub_cancel_left, hring]
  exact hall i (by omega) j (by omega)

theorem finder_center_eq (hpos : 1 ≤ version) {c c' p : ℕ × ℕ} (hc : c ∈ finderCenters version)
    (hc' : c' ∈ finderCenters version) (hring : ring c p ≤ 4) (hring' : ring c' p ≤ 4) :
    c = c' := by
  obtain ⟨hy, hx⟩ := ring_le_iff.mp hring
  obtain ⟨hy', hx'⟩ := ring_le_iff.mp hring'
  simp only [finderCenters, List.mem_cons, List.not_mem_nil, or_false, Prod.ext_iff, side] at hc hc'
  exact Prod.ext (by omega) (by omega)

/-- The rectangles around a finder pattern show its rings. -/
theorem finderPatches_shows (hpos : 1 ≤ version) {c : ℕ × ℕ} (hc : c ∈ finderCenters version)
    {p : Patch UInt8} (hp : p ∈ finderPatches (side version)) {y x : ℕ}
    (hcovers : p.covers y x = true) (hring : ring c (y, x) ≤ 4) :
    dark (p.value (y - p.row) (x - p.col)) =
      decide (ring c (y, x) ≠ 2 ∧ ring c (y, x) ≠ 4) := by
  obtain ⟨hrow, hcol⟩ := of_decide_eq_true hcovers
  have hlarge := lt_side hpos
  have hlast : side version - 7 + 3 = side version - 4 := by omega
  have hpattern (oy ox : ℕ) (hcenter : (oy + 3, ox + 3) ∈ finderCenters version)
      (hy : oy ≤ y ∧ y < oy + 7) (hx : ox ≤ x ∧ x < ox + 7) :
      dark (finder.getD ((y - oy) * 7 + (x - ox)) 0) =
        decide (ring c (y, x) ≠ 2 ∧ ring c (y, x) ≠ 4) := by
    have hnear : ring (oy + 3, ox + 3) (y, x) ≤ 4 := ring_le_iff.mpr (by simp only; omega)
    rw [finder_center_eq hpos hc hcenter hring hnear]
    exact dark_finder hy hx
  have hseparator (hfar : ¬ring c (y, x) ≤ 3) :
      dark 0xc0 = decide (ring c (y, x) ≠ 2 ∧ ring c (y, x) ≠ 4) :=
    (decide_eq_false (by omega)).symm
  simp only [finderPatches, List.mem_cons, List.not_mem_nil, or_false] at hp
  rcases hp with rfl | rfl | rfl | hp
  · exact hpattern 0 0 (by simp [finderCenters]) hrow hcol
  · exact hpattern 0 (side version - 7) (by simp [finderCenters, hlast]) hrow hcol
  · exact hpattern (side version - 7) 0 (by simp [finderCenters, hlast]) hrow hcol
  · have hfar : ¬ring c (y, x) ≤ 3 := by
      rw [ring_le_iff] at hring ⊢
      simp only [finderCenters, List.mem_cons, List.not_mem_nil, or_false, Prod.ext_iff] at hc
      rcases hp with rfl | rfl | rfl | rfl | rfl | rfl <;>
        simp only [fill] at hrow hcol <;> omega
    rcases hp with rfl | rfl | rfl | rfl | rfl | rfl <;> exact hseparator hfar

/-- The bytes of the alignment patterns show their rings. -/
theorem dark_alignmentFinder {c : ℕ × ℕ} {y x : ℕ} (hc : 2 ≤ c.1 ∧ 2 ≤ c.2)
    (hring : ring c (y, x) ≤ 2) :
    dark (alignmentFinder.getD ((y - (c.1 - 2)) * 5 + (x - (c.2 - 2))) 0) =
      decide (ring c (y, x) ≠ 1) := by
  have hall : ∀ i < 5, ∀ j < 5, dark (alignmentFinder.getD (i * 5 + j) 0) =
      decide (ring (2, 2) (i, j) ≠ 1) := by decide
  obtain ⟨cy, cx⟩ := c
  obtain ⟨oy, rfl⟩ := Nat.exists_eq_add_of_le' hc.1
  obtain ⟨ox, rfl⟩ := Nat.exists_eq_add_of_le' hc.2
  obtain ⟨hy, hx⟩ := ring_le_iff.mp hring
  simp only [Nat.add_sub_cancel] at hy hx ⊢
  obtain ⟨i, rfl⟩ := Nat.exists_eq_add_of_le (show oy ≤ y by omega)
  obtain ⟨j, rfl⟩ := Nat.exists_eq_add_of_le (show ox ≤ x by omega)
  have hshift : ring (oy + 2, ox + 2) (oy + i, ox + j) = ring (2, 2) (i, j) := by
    unfold ring
    simp only [Nat.add_sub_add_left]
  rw [Nat.add_sub_cancel_left, Nat.add_sub_cancel_left, hshift]
  exact hall i (by omega) j (by omega)

theorem le_of_mem_alignmentPlaces (hpos : 1 ≤ version) (hmax : version ≤ QRSPEC_VERSION_MAX)
    {c : ℕ × ℕ} (hc : c ∈ alignmentPlaces version) :
    2 ≤ c.1 ∧ 2 ≤ c.2 := by
  obtain ⟨hrow, hcol⟩ := mem_alignmentLines hc
  have hlines := (alignmentLines_facts hpos hmax).1
  have hy := hlines _ hrow
  have hx := hlines _ hcol
  omega

/-- A rectangle of QRspec_putAlignmentPattern lies over the first two rings around its center. -/
theorem mem_putAlignmentPattern (hpos : 1 ≤ version) (hmax : version ≤ QRSPEC_VERSION_MAX)
    {y x : ℕ} {p : Patch UInt8} :
    (p ∈ QRspec_putAlignmentPattern version (side version) ∧ p.covers y x = true) ↔
      ∃ c ∈ alignmentPlaces version, ring c (y, x) ≤ 2 ∧
        p = QRspec_putAlignmentMarker c.2 c.1 := by
  have hcovers {c : ℕ × ℕ} (hc : c ∈ alignmentPlaces version) :
      (QRspec_putAlignmentMarker c.2 c.1).covers y x = true ↔ ring c (y, x) ≤ 2 := by
    have hlow := le_of_mem_alignmentPlaces hpos hmax hc
    unfold Patch.covers QRspec_putAlignmentMarker
    rw [decide_eq_true_eq, ring_le_iff]
    simp only
    omega
  unfold QRspec_putAlignmentPattern
  rw [List.mem_map]
  constructor
  · rintro ⟨⟨c, hc, rfl⟩, hcover⟩
    have hplace := (mem_alignmentCenters hpos hmax).mp hc
    exact ⟨(c.2, c.1), hplace, (hcovers hplace).mp hcover, rfl⟩
  · rintro ⟨c, hc, hring, rfl⟩
    exact ⟨⟨(c.2, c.1), (mem_alignmentCenters hpos hmax).mpr hc, rfl⟩, (hcovers hc).mpr hring⟩

theorem covered_alignment (hpos : 1 ≤ version) (hmax : version ≤ QRSPEC_VERSION_MAX) {y x : ℕ} :
    covered (QRspec_putAlignmentPattern version (side version)) y x = true ↔
      ∃ c ∈ alignmentPlaces version, ring c (y, x) ≤ 2 := by
  unfold covered
  rw [List.any_eq_true]
  constructor
  · rintro ⟨p, hp⟩
    obtain ⟨c, hc, hring, -⟩ := (mem_putAlignmentPattern hpos hmax).mp hp
    exact ⟨c, hc, hring⟩
  · rintro ⟨c, hc, hring⟩
    exact ⟨_, (mem_putAlignmentPattern hpos hmax).mpr ⟨c, hc, hring, rfl⟩⟩

theorem dark_or_bit {mark : UInt8} (hmark : dark mark = false) (n : ℕ) :
    dark (mark ||| UInt8.ofNat (n &&& 1)) = decide (n % 2 = 1) := by
  rw [dark_or, hmark, Bool.false_or, Nat.and_one_is_mod]
  rcases Nat.mod_two_eq_zero_or_one n with h | h <;> rw [h] <;> rfl

/-- A module shows a rectangle of the last group that lies over it. -/
theorem createFrame_of_last {ps qs rs : List (Patch UInt8)} {y x : ℕ}
    (hframe : framePatches version = ps ++ (qs ++ rs)) (hqs : covered qs y x = true)
    (hrs : covered rs y x = false) : ∃ q ∈ qs, q.covers y x = true ∧
      dark (QRspec_createFrame version y x) = dark (q.value (y - q.row) (x - q.col)) := by
  obtain ⟨q, hq, hcovers, hvalue⟩ :=
    paintAll_of_last (fun _ _ => (0 : UInt8)) ps hqs hrs
  refine ⟨q, hq, hcovers, ?_⟩
  unfold QRspec_createFrame
  rw [hframe, hvalue]

theorem createFrame_finder (hpos : 1 ≤ version) (hmax : version ≤ QRSPEC_VERSION_MAX)
    {c : ℕ × ℕ} (hc : c ∈ finderCenters version) {y x : ℕ} (hy : y < side version)
    (hx : x < side version) (hring : ring c (y, x) ≤ 4) :
    dark (QRspec_createFrame version y x) =
      decide (ring c (y, x) ≠ 2 ∧ ring c (y, x) ≠ 4) := by
  have hcovered := (covered_finderPatches hpos hy hx).mpr ⟨c, hc, hring⟩
  obtain ⟨q, hq, hcovers, hvalue⟩ := createFrame_of_last
    ((framePatches_eq hpos hmax).trans (List.nil_append _).symm) hcovered
    ((patches_apart hpos hmax).1.not_covered hx hcovered)
  rw [hvalue]
  exact finderPatches_shows hpos hc hq hcovers hring

theorem createFrame_alignment (hpos : 1 ≤ version) (hmax : version ≤ QRSPEC_VERSION_MAX)
    {c : ℕ × ℕ} (hc : c ∈ alignmentPlaces version) {y x : ℕ} (hx : x < side version)
    (hring : ring c (y, x) ≤ 2) :
    dark (QRspec_createFrame version y x) = decide (ring c (y, x) ≠ 1) := by
  have hcovered := (covered_alignment hpos hmax).mpr ⟨c, hc, hring⟩
  have hlast : covered (lastPatches version) y x = false := by
    refine (patches_apart hpos hmax).2.1.not_covered hx ?_
    rw [covered_append, hcovered, Bool.or_true]
  have hframe : framePatches version = (finderPatches (side version) ++
      (formatPatches (side version) ++ timingPatches (side version))) ++
      (QRspec_putAlignmentPattern version (side version) ++ lastPatches version) := by
    simp only [framePatches_eq hpos hmax, innerPatches, List.append_assoc]
  obtain ⟨q, hq, hcovers, hvalue⟩ := createFrame_of_last hframe hcovered hlast
  obtain ⟨c', hc', hring', rfl⟩ := (mem_putAlignmentPattern hpos hmax).mp ⟨hq, hcovers⟩
  obtain rfl := alignmentPlaces_separate hpos hmax hc hc' hring hring'
  rw [hvalue]
  exact dark_alignmentFinder (le_of_mem_alignmentPlaces hpos hmax hc) hring

/-- An alignment pattern upon a timing pattern shows the same modules. -/
theorem alignment_timing (hpos : 1 ≤ version) (hmax : version ≤ QRSPEC_VERSION_MAX) {c : ℕ × ℕ}
    (hc : c ∈ alignmentPlaces version) {i : ℕ} :
    (ring c (6, i) ≤ 2 → decide (ring c (6, i) ≠ 1) = decide (i % 2 = 0)) ∧
      (ring c (i, 6) ≤ 2 → decide (ring c (i, 6) ≠ 1) = decide (i % 2 = 0)) := by
  obtain ⟨hrow, hcol⟩ := mem_alignmentLines hc
  have hlines := (alignmentLines_facts hpos hmax).1
  have hy := hlines _ hrow
  have hx := hlines _ hcol
  unfold ring
  constructor <;> intro hring <;> apply decide_eq_decide.mpr <;> omega

theorem createFrame_timing (hpos : 1 ≤ version) (hmax : version ≤ QRSPEC_VERSION_MAX)
    {i y x : ℕ} (hlow : 8 ≤ i) (hhigh : i + 8 < side version)
    (hplace : y = 6 ∧ x = i ∨ y = i ∧ x = 6) :
    dark (QRspec_createFrame version y x) = decide (i % 2 = 0) := by
  have hframe : framePatches version = (finderPatches (side version) ++
      formatPatches (side version)) ++ ((timingPatches (side version) ++
        QRspec_putAlignmentPattern version (side version)) ++ lastPatches version) := by
    simp only [framePatches_eq hpos hmax, innerPatches, List.append_assoc]
  have htiming : covered (timingPatches (side version)) y x = true := by
    simp only [covered, timingPatches, List.any_cons, List.any_nil, Patch.covers, Bool.or_eq_true,
      Bool.or_false, decide_eq_true_eq]
    omega
  have hcovered : covered (timingPatches (side version) ++
      QRspec_putAlignmentPattern version (side version)) y x = true := by
    rw [covered_append, htiming, Bool.true_or]
  obtain ⟨q, hq, hcovers, hvalue⟩ := createFrame_of_last hframe hcovered
    ((patches_apart hpos hmax).2.1.not_covered (by omega) hcovered)
  have hbit (n : ℕ) (hn : n + 8 = i) :
      dark (0x90 ||| UInt8.ofNat ((n + 1) &&& 1)) = decide (i % 2 = 0) := by
    rw [dark_or_bit rfl]
    exact decide_eq_decide.mpr (by omega)
  rw [hvalue]
  rcases List.mem_append.mp hq with hq | hq
  · obtain ⟨hrow, hcol⟩ := of_decide_eq_true hcovers
    simp only [timingPatches, List.mem_cons, List.not_mem_nil, or_false] at hq
    rcases hq with rfl | rfl
    · exact hbit (x - 8) (by simp only at hrow hcol; omega)
    · exact hbit (y - 8) (by simp only at hrow hcol; omega)
  · obtain ⟨c, hc, hring, rfl⟩ := (mem_putAlignmentPattern hpos hmax).mp ⟨hq, hcovers⟩
    refine (dark_alignmentFinder (le_of_mem_alignmentPlaces hpos hmax hc) hring).trans ?_
    rcases hplace with ⟨rfl, rfl⟩ | ⟨rfl, rfl⟩
    · exact (alignment_timing hpos hmax hc).1 hring
    · exact (alignment_timing hpos hmax hc).2 hring

theorem dark_versionByte (verinfo i : ℕ) : dark (versionByte verinfo i) = verinfo.testBit i := by
  unfold versionByte
  rw [dark_or_bit rfl, Nat.testBit_eq_decide_div_mod_eq, Nat.shiftRight_eq_div_pow]

theorem createFrame_information (hmax : version ≤ QRSPEC_VERSION_MAX) (hlow : 7 ≤ version)
    {i y x : ℕ} (hi : i < 18) (hplace : y = side version - 11 + i % 3 ∧ x = i / 3 ∨
      y = i / 3 ∧ x = side version - 11 + i % 3) :
    dark (QRspec_createFrame version y x) = (versionWord version).testBit i := by
  have hpos : 1 ≤ version := by omega
  have hlarge : 44 < side version := by
    unfold side
    omega
  have hframe : framePatches version = (finderPatches (side version) ++
      (formatPatches (side version) ++ (timingPatches (side version) ++
        QRspec_putAlignmentPattern version (side version)))) ++
      (versionPatches version (side version) ++ [fill (side version - 8) 8 1 1 0x81]) := by
    simp only [framePatches_eq hpos hmax, innerPatches, lastPatches, List.append_assoc]
  have hpatches : versionPatches version (side version) =
      [⟨side version - 11, 0, 3, 6, fun y x => versionByte (versionWord version) (x * 3 + y)⟩,
        ⟨0, side version - 11, 6, 3, fun y x =>
          versionByte (versionWord version) (y * 3 + x)⟩] := by
    unfold versionPatches
    rw [if_pos hlow, QRspec_getVersionPattern_eq hlow hmax]
  have hcovered : covered (versionPatches version (side version)) y x = true := by
    rw [hpatches]
    simp only [covered, List.any_cons, List.any_nil, Patch.covers, Bool.or_eq_true, Bool.or_false,
      decide_eq_true_eq]
    omega
  obtain ⟨q, hq, hcovers, hvalue⟩ := createFrame_of_last hframe hcovered
    ((patches_apart hpos hmax).2.2.not_covered (by omega) hcovered)
  obtain ⟨hrow, hcol⟩ := of_decide_eq_true hcovers
  have hbit (n : ℕ) (hn : n = i) :
      dark (versionByte (versionWord version) n) = (versionWord version).testBit i := by
    rw [dark_versionByte, hn]
  rw [hvalue]
  rw [hpatches] at hq
  simp only [List.mem_cons, List.not_mem_nil, or_false] at hq
  rcases hq with rfl | rfl
  · exact hbit _ (by simp only at hrow hcol ⊢; omega)
  · exact hbit _ (by simp only at hrow hcol ⊢; omega)

theorem createFrame_darkModule (hpos : 1 ≤ version) (hmax : version ≤ QRSPEC_VERSION_MAX) :
    dark (QRspec_createFrame version (side version - 8) 8) = true := by
  have hframe : framePatches version = (finderPatches (side version) ++
      (formatPatches (side version) ++ (timingPatches (side version) ++
        (QRspec_putAlignmentPattern version (side version) ++
          versionPatches version (side version))))) ++
      ([fill (side version - 8) 8 1 1 0x81] ++ []) := by
    simp only [framePatches_eq hpos hmax, innerPatches, lastPatches, List.append_assoc,
      List.append_nil]
  have hcovered : covered [fill (side version - 8) 8 1 1 0x81] (side version - 8) 8 = true := by
    simp [covered, Patch.covers, fill]
  obtain ⟨q, hq, -, hvalue⟩ := createFrame_of_last hframe hcovered rfl
  rw [hvalue, List.mem_singleton.mp hq]
  exact (by decide : dark 0x81 = true)

/-- What libqrencode draws shows the patterns of its version. -/
theorem createFrame_patterns (hpos : 1 ≤ version) (hmax : version ≤ QRSPEC_VERSION_MAX) :
    Patterns version fun y x => dark (QRspec_createFrame version y x) where
  finder _ hc _ hin hring := createFrame_finder hpos hmax hc hin.1 hin.2 hring
  timing _ hlow hhigh :=
    ⟨createFrame_timing hpos hmax hlow hhigh (.inl ⟨rfl, rfl⟩),
      createFrame_timing hpos hmax hlow hhigh (.inr ⟨rfl, rfl⟩)⟩
  alignment c hc p hring := by
    obtain ⟨-, hx⟩ := ring_le_iff.mp hring
    have hline := (alignmentLines_facts hpos hmax).1 _ (mem_alignmentLines hc).2
    exact createFrame_alignment hpos hmax hc (by omega) hring
  information hlow _ hi :=
    ⟨createFrame_information hmax hlow hi (.inl ⟨rfl, rfl⟩),
      createFrame_information hmax hlow hi (.inr ⟨rfl, rfl⟩)⟩
  darkModule := createFrame_darkModule hpos hmax

end Drawn

section Regions

variable {version : ℕ}

theorem covered_formatPatches (hpos : 1 ≤ version) {y x : ℕ} (hy : y < side version)
    (hx : x < side version) :
    (covered (formatPatches (side version)) y x = true ∨
        covered [fill (side version - 8) 8 1 1 0x81] y x = true) ↔
      y = 8 ∧ (x ≤ 8 ∨ side version ≤ x + 8) ∨ x = 8 ∧ (y ≤ 8 ∨ side version ≤ y + 8) := by
  have hlarge := lt_side hpos
  simp only [covered, formatPatches, fill, List.any_cons, List.any_nil, Bool.or_false,
    Patch.covers, Bool.or_eq_true, decide_eq_true_eq]
  omega

theorem covered_timingPatches (hpos : 1 ≤ version) {y x : ℕ} (hy : y < side version)
    (hx : x < side version) :
    (covered (finderPatches (side version)) y x = true ∨
        covered (timingPatches (side version)) y x = true) ↔
      covered (finderPatches (side version)) y x = true ∨ y = 6 ∨ x = 6 := by
  have hlarge := lt_side hpos
  have htiming : covered (timingPatches (side version)) y x = true ↔
      y = 6 ∧ 8 ≤ x ∧ x + 8 < side version ∨ x = 6 ∧ 8 ≤ y ∧ y + 8 < side version := by
    simp only [covered, timingPatches, List.any_cons, List.any_nil, Bool.or_false, Patch.covers,
      Bool.or_eq_true, decide_eq_true_eq]
    omega
  have hedge (hnot : covered (finderPatches (side version)) y x ≠ true) :
      ¬(y ≤ 7 ∧ (x ≤ 7 ∨ side version ≤ x + 8) ∨ side version ≤ y + 8 ∧ x ≤ 7) := by
    rw [Ne, covered_finderPatches hpos hy hx] at hnot
    simp only [finderCenters, List.mem_cons, List.not_mem_nil, or_false, exists_eq_or_imp,
      exists_eq_left, ring_le_iff] at hnot
    omega
  rw [htiming]
  by_cases hfinder : covered (finderPatches (side version)) y x = true
  · simp only [hfinder, true_or]
  · have hedge := hedge hfinder
    rw [or_iff_right hfinder, or_iff_right hfinder]
    omega

theorem covered_versionPatches {y x : ℕ} (hy : y < side version) (hx : x < side version) :
    covered (versionPatches version (side version)) y x = true ↔
      7 ≤ version ∧ (x < 6 ∧ side version ≤ y + 11 ∧ y + 8 < side version ∨
        y < 6 ∧ side version ≤ x + 11 ∧ x + 8 < side version) := by
  have hlarge : 16 < side version := by
    unfold side
    omega
  unfold versionPatches
  split_ifs with hversion
  · simp only [covered, List.any_cons, List.any_nil, Bool.or_false, Patch.covers, Bool.or_eq_true,
      decide_eq_true_eq]
    omega
  · exact iff_of_false Bool.false_ne_true fun h => hversion h.1

/-- What QRspec_createFrame draws lies over the function modules and over no others. -/
theorem covered_framePatches (hpos : 1 ≤ version) (hmax : version ≤ QRSPEC_VERSION_MAX) {y x : ℕ}
    (hy : y < side version) (hx : x < side version) :
    covered (framePatches version) y x = true ↔ FunctionModule version (y, x) := by
  have htiming := covered_timingPatches hpos hy hx
  have hformat := covered_formatPatches hpos hy hx
  unfold FunctionModule
  rw [← covered_finderPatches hpos hy hx, ← covered_alignment hpos hmax, ← hformat,
    ← covered_versionPatches hy hx, ← or_assoc, ← htiming, framePatches_eq hpos hmax]
  unfold innerPatches lastPatches
  simp only [covered_append, Bool.or_eq_true, or_assoc, or_comm, or_left_comm]

/-- The places of the data in the order in which they are read. -/
def dataPlaces (version : ℕ) : List (ℕ × ℕ) :=
  (zigzag (side version) (version + 2)).filter fun p => ¬FunctionModule version p

theorem dataPlaces_eq (hpos : 1 ≤ version) (hmax : version ≤ QRSPEC_VERSION_MAX) :
    dataPlaces version = dataModules version := by
  unfold dataPlaces dataModules
  rw [width_eq_side hpos hmax]
  apply List.filter_congr
  rintro ⟨y, x⟩ hp
  have hlarge : 9 < side version := width_eq_side hpos hmax ▸ lt_width hpos hmax
  obtain ⟨hy, hcol, -⟩ := (mem_zigzag hlarge).mp hp
  have hx : x < side version := by
    unfold side
    simp only at hcol
    omega
  have hcovered : covered (framePatches version) y x = decide (FunctionModule version (y, x)) :=
    Bool.eq_iff_iff.mpr ((covered_framePatches hpos hmax hy hx).trans decide_eq_true_iff.symm)
  show (decide ¬FunctionModule version (y, x)) = !covered (framePatches version) y x
  rw [hcovered, decide_not]

/-- The format information stands between the finder patterns, beside the timing patterns. -/
theorem mem_formatPlaces {width : ℕ} (hwidth : 20 < width) {y x : ℕ}
    (hp : (y, x) ∈ formatPlaces width) :
    y = 8 ∧ x ≠ 6 ∧ (x ≤ 8 ∨ width ≤ x + 8) ∨ x = 8 ∧ y ≠ 6 ∧ (y ≤ 8 ∨ width ≤ y + 7) := by
  simp only [formatPlaces, formatWrites, List.map_append, List.map_flatMap, List.mem_append,
    List.mem_flatMap, List.mem_range, List.map_cons, List.map_nil, List.mem_cons,
    List.not_mem_nil, or_false] at hp
  rcases hp with ⟨i, hi, hp | hp⟩ | ⟨i, hi, hp | hp⟩
  · obtain ⟨rfl, rfl⟩ := Prod.mk.inj hp
    omega
  · split_ifs at hp <;> obtain ⟨rfl, rfl⟩ := Prod.mk.inj hp <;> omega
  · obtain ⟨rfl, rfl⟩ := Prod.mk.inj hp
    omega
  · split_ifs at hp <;> obtain ⟨rfl, rfl⟩ := Prod.mk.inj hp <;> omega

/-- Beside the timing patterns the alignment patterns keep away from the finder patterns. -/
theorem alignmentPlaces_edge (hpos : 1 ≤ version) (hmax : version ≤ QRSPEC_VERSION_MAX) :
    ∀ c ∈ alignmentPlaces version, (c.1 = 6 → 11 ≤ c.2 ∧ c.2 + 11 ≤ side version) ∧
      (c.2 = 6 → 11 ≤ c.1 ∧ c.1 + 11 ≤ side version) := by
  have hall : ∀ v < QRSPEC_VERSION_MAX, ∀ c ∈ alignmentPlaces (v + 1),
      (c.1 = 6 → 11 ≤ c.2 ∧ c.2 + 11 ≤ side (v + 1)) ∧
        (c.2 = 6 → 11 ≤ c.1 ∧ c.1 + 11 ≤ side (v + 1)) := by
    decide +kernel
  obtain ⟨v, rfl⟩ := Nat.exists_eq_add_of_le' hpos
  exact hall v hmax

/-- A module that does not depend on the text, the level or the mask. -/
structure Fixed (version : ℕ) (p : ℕ × ℕ) : Prop where
  inSymbol : InSymbol version p
  functionModule : FunctionModule version p
  notMem : p ∉ formatPlaces (side version)

theorem fixed_finder (hpos : 1 ≤ version) {c : ℕ × ℕ} (hc : c ∈ finderCenters version) {y x : ℕ}
    (hin : InSymbol version (y, x)) (hring : ring c (y, x) ≤ 4) : Fixed version (y, x) := by
  have hlarge := lt_side hpos
  refine ⟨hin, .inl ⟨c, hc, hring⟩, fun hmem => ?_⟩
  have hformat := mem_formatPlaces hlarge hmem
  simp only [finderCenters, List.mem_cons, List.not_mem_nil, or_false, Prod.ext_iff] at hc
  rw [ring_le_iff] at hring
  omega

theorem fixed_timing (hpos : 1 ≤ version) {i y x : ℕ} (hlow : 8 ≤ i) (hhigh : i + 8 < side version)
    (hplace : y = 6 ∧ x = i ∨ y = i ∧ x = 6) : Fixed version (y, x) := by
  refine ⟨⟨?_, ?_⟩, .inr (.inl ?_), fun hmem => ?_⟩
  · show y < side version
    omega
  · show x < side version
    omega
  · show y = 6 ∨ x = 6
    omega
  · have hformat := mem_formatPlaces (lt_side hpos) hmem
    omega

theorem fixed_alignment (hpos : 1 ≤ version) (hmax : version ≤ QRSPEC_VERSION_MAX) {c : ℕ × ℕ}
    (hc : c ∈ alignmentPlaces version) {y x : ℕ} (hring : ring c (y, x) ≤ 2) :
    Fixed version (y, x) := by
  have hlines := (alignmentLines_facts hpos hmax).1
  have hrow := hlines _ (mem_alignmentLines hc).1
  have hcol := hlines _ (mem_alignmentLines hc).2
  have hedge := alignmentPlaces_edge hpos hmax c hc
  have hnear := ring_le_iff.mp hring
  refine ⟨⟨?_, ?_⟩, .inr (.inr (.inl ⟨c, hc, hring⟩)), fun hmem => ?_⟩
  · show y < side version
    omega
  · show x < side version
    omega
  · have hformat := mem_formatPlaces (lt_side hpos) hmem
    omega

theorem fixed_information (hlow : 7 ≤ version) {i y x : ℕ} (hi : i < 18)
    (hplace : y = side version - 11 + i % 3 ∧ x = i / 3 ∨
      y = i / 3 ∧ x = side version - 11 + i % 3) : Fixed version (y, x) := by
  have hlarge : 44 < side version := by
    unfold side
    omega
  refine ⟨⟨?_, ?_⟩, .inr (.inr (.inr (.inr ⟨hlow, ?_⟩))), fun hmem => ?_⟩
  · show y < side version
    omega
  · show x < side version
    omega
  · simp only
    omega
  · have hformat := mem_formatPlaces (by omega) hmem
    omega

theorem fixed_darkModule (hpos : 1 ≤ version) : Fixed version (side version - 8, 8) := by
  have hlarge := lt_side hpos
  refine ⟨⟨?_, ?_⟩, .inr (.inr (.inr (.inl (.inr ⟨rfl, .inr ?_⟩)))), fun hmem => ?_⟩
  · show side version - 8 < side version
    omega
  · show 8 < side version
    omega
  · show side version ≤ side version - 8 + 8
    omega
  · have hformat := mem_formatPlaces hlarge hmem
    omega

/-- The patterns depend on these modules alone. -/
theorem Patterns.congr (hpos : 1 ≤ version) (hmax : version ≤ QRSPEC_VERSION_MAX)
    {drawn scan : Scan} (h : Patterns version drawn)
    (hscan : ∀ y x, Fixed version (y, x) → scan y x = drawn y x) : Patterns version scan := by
  constructor
  · rintro c hc ⟨y, x⟩ hin hring
    rw [← h.finder c hc (y, x) hin hring]
    exact hscan y x (fixed_finder hpos hc hin hring)
  · intro i hlow hhigh
    rw [hscan _ _ (fixed_timing hpos hlow hhigh (.inl ⟨rfl, rfl⟩)),
      hscan _ _ (fixed_timing hpos hlow hhigh (.inr ⟨rfl, rfl⟩))]
    exact h.timing i hlow hhigh
  · rintro c hc ⟨y, x⟩ hring
    rw [← h.alignment c hc (y, x) hring]
    exact hscan y x (fixed_alignment hpos hmax hc hring)
  · intro hlow i hi
    rw [hscan _ _ (fixed_information hlow hi (.inl ⟨rfl, rfl⟩)),
      hscan _ _ (fixed_information hlow hi (.inr ⟨rfl, rfl⟩))]
    exact h.information hlow i hi
  · rw [← h.darkModule]
    exact hscan _ _ (fixed_darkModule hpos)

/-- Filling a frame and putting a mask on it leave the patterns as they were drawn. -/
theorem Masked.patterns_shown (hpos : 1 ≤ version) (hmax : version ≤ QRSPEC_VERSION_MAX)
    {level : QRecLevel} {mask : ℕ} {frame symbol : Frame}
    (h : Masked version level mask frame symbol)
    (hframe : ∀ y x, reserved (QRspec_createFrame version y x) = true →
      frame y x = QRspec_createFrame version y x) :
    Patterns version fun y x => dark (symbol y x) := by
  refine (createFrame_patterns hpos hmax).congr hpos hmax fun y x hfixed => ?_
  have hreserved : reserved (QRspec_createFrame version y x) = true := by
    rw [reserved_createFrame]
    exact (covered_framePatches hpos hmax hfixed.inSymbol.1 hfixed.inSymbol.2).mpr
      hfixed.functionModule
  have hnot : (y, x) ∉ formatPlaces (QRspec_getWidth version) :=
    width_eq_side hpos hmax ▸ hfixed.notMem
  rw [h.patterns y x ((hframe y x hreserved).symm ▸ hreserved) hnot, hframe y x hreserved]

end Regions

end ConcealDesktop.Qrencode
