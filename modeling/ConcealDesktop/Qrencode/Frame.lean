import ConcealDesktop.Library.Raster
import ConcealDesktop.Qrencode.Qrspec

/-! The frame of a QR code: its finder, timing and alignment patterns, the places of the format
information and the version information. A frame gives the byte of a module for its row and its
column; the source keeps the rows one after the other. Bit 7 of the byte marks a module that
carries no data. -/
namespace ConcealDesktop.Qrencode
open Raster

section Source

abbrev Frame := ℕ → ℕ → UInt8

def alignmentPattern : List (ℕ × ℕ) := [
  (0, 0), (0, 0), (18, 0), (22, 0), (26, 0), (30, 0), (34, 0), (22, 38), (24, 42), (26, 46),
  (28, 50), (30, 54), (32, 58), (34, 62), (26, 46), (26, 48), (26, 50), (30, 54), (30, 56),
  (30, 58), (34, 62), (28, 50), (26, 50), (30, 54), (28, 54), (32, 58), (30, 58), (34, 62),
  (26, 50), (30, 54), (26, 52), (30, 56), (34, 60), (30, 58), (34, 62), (30, 54), (24, 50),
  (28, 54), (32, 58), (26, 54), (30, 58)]

def alignmentFinder : List UInt8 := [
  0xa1, 0xa1, 0xa1, 0xa1, 0xa1,
  0xa1, 0xa0, 0xa0, 0xa0, 0xa1,
  0xa1, 0xa0, 0xa1, 0xa0, 0xa1,
  0xa1, 0xa0, 0xa0, 0xa0, 0xa1,
  0xa1, 0xa1, 0xa1, 0xa1, 0xa1]

def QRspec_putAlignmentMarker (ox oy : ℕ) : Patch UInt8 :=
  ⟨oy - 2, ox - 2, 5, 5, fun y x => alignmentFinder.getD (y * 5 + x) 0⟩

/-- The centers of the alignment markers, columns first. -/
def alignmentCenters (version width : ℕ) : List (ℕ × ℕ) :=
  if version < 2 then []
  else
    let (first, second) := alignmentPattern.getD version (0, 0)
    let d := second - first
    let w := if second < first then 2 else (width - first) / d + 2
    if w * w - 3 = 1 then [(first, first)]
    else
      (List.range (w - 2)).flatMap (fun i => [(6, first + i * d), (first + i * d, 6)]) ++
        (List.range (w - 1)).flatMap fun j =>
          (List.range (w - 1)).map fun i => (first + i * d, first + j * d)

def QRspec_putAlignmentPattern (version width : ℕ) : List (Patch UInt8) :=
  (alignmentCenters version width).map fun c => QRspec_putAlignmentMarker c.1 c.2

def versionPattern : List ℕ := [
  0x07c94, 0x085bc, 0x09a99, 0x0a4d3, 0x0bbf6, 0x0c762, 0x0d847, 0x0e60d, 0x0f928, 0x10b78,
  0x1145d, 0x12a17, 0x13532, 0x149a6, 0x15683, 0x168c9, 0x177ec, 0x18ec4, 0x191e1, 0x1afab,
  0x1b08e, 0x1cc1a, 0x1d33f, 0x1ed75, 0x1f250, 0x209d5, 0x216f0, 0x228ba, 0x2379f, 0x24b0b,
  0x2542e, 0x26a64, 0x27541, 0x28c69]

def QRspec_getVersionPattern (version : ℕ) : ℕ :=
  if version < 7 ∨ version > QRSPEC_VERSION_MAX then 0 else versionPattern.getD (version - 7) 0

def formatInfo : List (List ℕ) := [
  [0x77c4, 0x72f3, 0x7daa, 0x789d, 0x662f, 0x6318, 0x6c41, 0x6976],
  [0x5412, 0x5125, 0x5e7c, 0x5b4b, 0x45f9, 0x40ce, 0x4f97, 0x4aa0],
  [0x355f, 0x3068, 0x3f31, 0x3a06, 0x24b4, 0x2183, 0x2eda, 0x2bed],
  [0x1689, 0x13be, 0x1ce7, 0x19d0, 0x0762, 0x0255, 0x0d0c, 0x083b]]

def QRspec_getFormatInfo (mask : ℕ) (level : QRecLevel) : ℕ :=
  if mask > 7 then 0 else (formatInfo.getD level.index []).getD mask 0

def finder : List UInt8 := [
  0xc1, 0xc1, 0xc1, 0xc1, 0xc1, 0xc1, 0xc1,
  0xc1, 0xc0, 0xc0, 0xc0, 0xc0, 0xc0, 0xc1,
  0xc1, 0xc0, 0xc1, 0xc1, 0xc1, 0xc0, 0xc1,
  0xc1, 0xc0, 0xc1, 0xc1, 0xc1, 0xc0, 0xc1,
  0xc1, 0xc0, 0xc1, 0xc1, 0xc1, 0xc0, 0xc1,
  0xc1, 0xc0, 0xc0, 0xc0, 0xc0, 0xc0, 0xc1,
  0xc1, 0xc1, 0xc1, 0xc1, 0xc1, 0xc1, 0xc1]

def putFinderPattern (ox oy : ℕ) : Patch UInt8 :=
  ⟨oy, ox, 7, 7, fun y x => finder.getD (y * 7 + x) 0⟩

/-- A run of one byte over a rectangle, as the loops and calls of memset write it. -/
def fill (row col height width : ℕ) (byte : UInt8) : Patch UInt8 :=
  ⟨row, col, height, width, fun _ _ => byte⟩

/-- Bit `i` of the version information as it is drawn. -/
def versionByte (verinfo i : ℕ) : UInt8 := 0x88 ||| UInt8.ofNat ((verinfo >>> i) &&& 1)

/-- The finder patterns with their separators. -/
def finderPatches (width : ℕ) : List (Patch UInt8) :=
  [putFinderPattern 0 0, putFinderPattern (width - 7) 0, putFinderPattern 0 (width - 7),
    fill 0 7 7 1 0xc0, fill 0 (width - 8) 7 1 0xc0, fill (width - 7) 7 7 1 0xc0,
    fill 7 0 1 8 0xc0, fill 7 (width - 8) 1 8 0xc0, fill (width - 8) 0 1 8 0xc0]

def formatPatches (width : ℕ) : List (Patch UInt8) :=
  [fill 8 0 1 9 0x84, fill 8 (width - 8) 1 8 0x84, fill 0 8 8 1 0x84, fill (width - 7) 8 7 1 0x84]

def timingPatches (width : ℕ) : List (Patch UInt8) :=
  [⟨6, 8, 1, width - 16, fun _ x => 0x90 ||| UInt8.ofNat ((x + 1) &&& 1)⟩,
    ⟨8, 6, width - 16, 1, fun y _ => 0x90 ||| UInt8.ofNat ((y + 1) &&& 1)⟩]

def versionPatches (version width : ℕ) : List (Patch UInt8) :=
  if version ≥ 7 then
    let verinfo := QRspec_getVersionPattern version
    [⟨width - 11, 0, 3, 6, fun y x => versionByte verinfo (x * 3 + y)⟩,
      ⟨0, width - 11, 6, 3, fun y x => versionByte verinfo (y * 3 + x)⟩]
  else []

/-- What QRspec_createFrame draws, in its order. -/
def framePatches (version : ℕ) : List (Patch UInt8) :=
  let width := QRspec_getWidth version
  finderPatches width ++ formatPatches width ++ timingPatches width ++
    QRspec_putAlignmentPattern version width ++ versionPatches version width ++
    [fill (width - 8) 8 1 1 0x81]

def QRspec_createFrame (version : ℕ) : Frame := paintAll (fun _ _ => 0) (framePatches version)

/-- QRspec_newFrame; `none` is NULL. -/
def QRspec_newFrame (version : ℕ) : Option Frame :=
  if version < 1 ∨ version > QRSPEC_VERSION_MAX then none else some (QRspec_createFrame version)

end Source

section Modules

/-- Whether a module carries no data. -/
def reserved (byte : UInt8) : Bool := byte &&& 0x80 ≠ 0

/-- Everything that a patch shows is marked as carrying no data. -/
def Marked (p : Patch UInt8) : Prop :=
  ∀ y < p.height, ∀ x < p.width, reserved (p.value y x) = true

theorem marked_fill (row col height width : ℕ) {byte : UInt8} (h : reserved byte = true) :
    Marked (fill row col height width byte) := fun _ _ _ _ => h

theorem marked_finder (ox oy : ℕ) : Marked (putFinderPattern ox oy) := by
  have hall : ∀ y < 7, ∀ x < 7, reserved (finder.getD (y * 7 + x) 0) = true := by decide
  exact hall

theorem marked_alignment (ox oy : ℕ) : Marked (QRspec_putAlignmentMarker ox oy) := by
  have hall : ∀ y < 5, ∀ x < 5, reserved (alignmentFinder.getD (y * 5 + x) 0) = true := by decide
  exact hall

theorem reserved_or_bit {mark : UInt8} (n : ℕ) (hmark : reserved mark = true)
    (hbits : reserved (mark ||| 1) = true) : reserved (mark ||| UInt8.ofNat (n &&& 1)) = true := by
  rw [Nat.and_one_is_mod]
  rcases Nat.mod_two_eq_zero_or_one n with h | h <;> rw [h]
  · rwa [show UInt8.ofNat 0 = 0 from rfl, UInt8.or_zero]
  · exact hbits

theorem framePatches_marked (version : ℕ) : ∀ p ∈ framePatches version, Marked p := by
  unfold framePatches
  simp only [List.forall_mem_append]
  refine ⟨⟨⟨⟨⟨?_, ?_⟩, ?_⟩, ?_⟩, ?_⟩, ?_⟩
  · simp only [finderPatches, List.forall_mem_cons, List.not_mem_nil, false_implies, implies_true,
      and_true]
    exact ⟨marked_finder _ _, marked_finder _ _, marked_finder _ _, marked_fill _ _ _ _ rfl,
      marked_fill _ _ _ _ rfl, marked_fill _ _ _ _ rfl, marked_fill _ _ _ _ rfl,
      marked_fill _ _ _ _ rfl, marked_fill _ _ _ _ rfl⟩
  · simp only [formatPatches, List.forall_mem_cons, List.not_mem_nil, false_implies, implies_true,
      and_true]
    exact ⟨marked_fill _ _ _ _ rfl, marked_fill _ _ _ _ rfl, marked_fill _ _ _ _ rfl,
      marked_fill _ _ _ _ rfl⟩
  · simp only [timingPatches, List.forall_mem_cons, List.not_mem_nil, false_implies, implies_true,
      and_true]
    exact ⟨fun _ _ _ _ => reserved_or_bit _ rfl rfl, fun _ _ _ _ => reserved_or_bit _ rfl rfl⟩
  · intro p hp
    obtain ⟨c, -, rfl⟩ := List.mem_map.mp hp
    exact marked_alignment _ _
  · unfold versionPatches
    split_ifs
    · simp only [List.forall_mem_cons, List.not_mem_nil, false_implies, implies_true, and_true]
      exact ⟨fun _ _ _ _ => reserved_or_bit _ rfl rfl, fun _ _ _ _ => reserved_or_bit _ rfl rfl⟩
    · exact fun _ hp => absurd hp List.not_mem_nil
  · simp only [List.forall_mem_cons, List.not_mem_nil, false_implies, implies_true, and_true]
    exact marked_fill _ _ _ _ rfl

/-- The modules without data are those that the patterns cover. -/
theorem reserved_createFrame (version y x : ℕ) :
    reserved (QRspec_createFrame version y x) = covered (framePatches version) y x := by
  unfold QRspec_createFrame
  cases h : covered (framePatches version) y x with
  | false =>
    rw [paintAll_of_not_covered h]
    rfl
  | true =>
    obtain ⟨p, hp, hcovers, hvalue⟩ := paintAll_of_covered (fun _ _ => 0) h
    obtain ⟨⟨hrow, hrowEnd⟩, hcol, hcolEnd⟩ := of_decide_eq_true hcovers
    rw [hvalue]
    exact framePatches_marked version p hp _ (by omega) _ (by omega)

theorem width_eq {version : ℕ} (hpos : 1 ≤ version) (hmax : version ≤ QRSPEC_VERSION_MAX) :
    QRspec_getWidth version = 4 * version + 17 := by
  have hall : ∀ v < QRSPEC_VERSION_MAX, QRspec_getWidth (v + 1) = 4 * (v + 1) + 17 := by
    decide +kernel
  obtain ⟨v, rfl⟩ := Nat.exists_eq_add_of_le' hpos
  exact hall v hmax

/-- The modules left for data are as many as the version's words and remainder have bits. -/
theorem vacancies_framePatches {version : ℕ} (hpos : 1 ≤ version)
    (hmax : version ≤ QRSPEC_VERSION_MAX) :
    vacancies (framePatches version) (QRspec_getWidth version) =
      (capacityOf version).words * 8 + QRspec_getRemainder version := by
  have hall : ∀ v < QRSPEC_VERSION_MAX,
      vacancies (framePatches (v + 1)) (QRspec_getWidth (v + 1)) =
        (capacityOf (v + 1)).words * 8 + QRspec_getRemainder (v + 1) := by
    decide +kernel
  obtain ⟨v, rfl⟩ := Nat.exists_eq_add_of_le' hpos
  exact hall v hmax

end Modules

end ConcealDesktop.Qrencode
