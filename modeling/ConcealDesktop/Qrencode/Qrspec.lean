import Mathlib.Algebra.Ring.Nat
import Mathlib.Order.Basic

/-! Capacities, lengths of the count fields and blocks of the versions of a QR code. -/
namespace ConcealDesktop.Qrencode

section Source

inductive QRencodeMode where
  | QR_MODE_NUL
  | QR_MODE_NUM
  | QR_MODE_AN
  | QR_MODE_8
deriving DecidableEq, Repr

inductive QRecLevel where
  | QR_ECLEVEL_L
  | QR_ECLEVEL_M
  | QR_ECLEVEL_Q
  | QR_ECLEVEL_H
deriving DecidableEq, Repr

open QRencodeMode QRecLevel

def QRecLevel.index : QRecLevel → ℕ
  | QR_ECLEVEL_L => 0
  | QR_ECLEVEL_M => 1
  | QR_ECLEVEL_Q => 2
  | QR_ECLEVEL_H => 3

def QRSPEC_VERSION_MAX : ℕ := 40

def QRSPEC_WIDTH_MAX : ℕ := 177

structure QRspec_Capacity where
  width : ℕ
  words : ℕ
  remainder : ℕ
  ec : List ℕ

def qrspecCapacity : List QRspec_Capacity := [
  ⟨0, 0, 0, [0, 0, 0, 0]⟩, ⟨21, 26, 0, [7, 10, 13, 17]⟩, ⟨25, 44, 7, [10, 16, 22, 28]⟩,
  ⟨29, 70, 7, [15, 26, 36, 44]⟩, ⟨33, 100, 7, [20, 36, 52, 64]⟩, ⟨37, 134, 7, [26, 48, 72, 88]⟩,
  ⟨41, 172, 7, [36, 64, 96, 112]⟩, ⟨45, 196, 0, [40, 72, 108, 130]⟩,
  ⟨49, 242, 0, [48, 88, 132, 156]⟩, ⟨53, 292, 0, [60, 110, 160, 192]⟩,
  ⟨57, 346, 0, [72, 130, 192, 224]⟩, ⟨61, 404, 0, [80, 150, 224, 264]⟩,
  ⟨65, 466, 0, [96, 176, 260, 308]⟩, ⟨69, 532, 0, [104, 198, 288, 352]⟩,
  ⟨73, 581, 3, [120, 216, 320, 384]⟩, ⟨77, 655, 3, [132, 240, 360, 432]⟩,
  ⟨81, 733, 3, [144, 280, 408, 480]⟩, ⟨85, 815, 3, [168, 308, 448, 532]⟩,
  ⟨89, 901, 3, [180, 338, 504, 588]⟩, ⟨93, 991, 3, [196, 364, 546, 650]⟩,
  ⟨97, 1085, 3, [224, 416, 600, 700]⟩, ⟨101, 1156, 4, [224, 442, 644, 750]⟩,
  ⟨105, 1258, 4, [252, 476, 690, 816]⟩, ⟨109, 1364, 4, [270, 504, 750, 900]⟩,
  ⟨113, 1474, 4, [300, 560, 810, 960]⟩, ⟨117, 1588, 4, [312, 588, 870, 1050]⟩,
  ⟨121, 1706, 4, [336, 644, 952, 1110]⟩, ⟨125, 1828, 4, [360, 700, 1020, 1200]⟩,
  ⟨129, 1921, 3, [390, 728, 1050, 1260]⟩, ⟨133, 2051, 3, [420, 784, 1140, 1350]⟩,
  ⟨137, 2185, 3, [450, 812, 1200, 1440]⟩, ⟨141, 2323, 3, [480, 868, 1290, 1530]⟩,
  ⟨145, 2465, 3, [510, 924, 1350, 1620]⟩, ⟨149, 2611, 3, [540, 980, 1440, 1710]⟩,
  ⟨153, 2761, 3, [570, 1036, 1530, 1800]⟩, ⟨157, 2876, 0, [570, 1064, 1590, 1890]⟩,
  ⟨161, 3034, 0, [600, 1120, 1680, 1980]⟩, ⟨165, 3196, 0, [630, 1204, 1770, 2100]⟩,
  ⟨169, 3362, 0, [660, 1260, 1860, 2220]⟩, ⟨173, 3532, 0, [720, 1316, 1950, 2310]⟩,
  ⟨177, 3706, 0, [750, 1372, 2040, 2430]⟩]

def capacityOf (version : ℕ) : QRspec_Capacity := qrspecCapacity.getD version ⟨0, 0, 0, []⟩

def QRspec_getECCLength (version : ℕ) (level : QRecLevel) : ℕ :=
  (capacityOf version).ec.getD level.index 0

def QRspec_getDataLength (version : ℕ) (level : QRecLevel) : ℕ :=
  (capacityOf version).words - QRspec_getECCLength version level

def QRspec_getMinimumVersion (size : ℕ) (level : QRecLevel) : ℕ :=
  ((List.range' 1 QRSPEC_VERSION_MAX).find? fun i =>
    decide (QRspec_getDataLength i level ≥ size)).getD QRSPEC_VERSION_MAX

def QRspec_getWidth (version : ℕ) : ℕ := (capacityOf version).width

def QRspec_getRemainder (version : ℕ) : ℕ := (capacityOf version).remainder

def QRinput_isSplittableMode (mode : QRencodeMode) : Bool := mode ≠ QR_MODE_NUL

/-- The rows of lengthTableBits; the last of them is for kanji. -/
def lengthTableBits : QRencodeMode → List ℕ
  | QR_MODE_NUL => []
  | QR_MODE_NUM => [10, 12, 14]
  | QR_MODE_AN => [9, 11, 13]
  | QR_MODE_8 => [8, 16, 16]

def lengthColumn (version : ℕ) : ℕ := if version ≤ 9 then 0 else if version ≤ 26 then 1 else 2

def QRspec_lengthIndicator (mode : QRencodeMode) (version : ℕ) : ℕ :=
  if QRinput_isSplittableMode mode then (lengthTableBits mode).getD (lengthColumn version) 0
  else 0

def QRspec_maximumWords (mode : QRencodeMode) (version : ℕ) : ℕ :=
  if QRinput_isSplittableMode mode then
    2 ^ (lengthTableBits mode).getD (lengthColumn version) 0 - 1
  else 0

def eccTable : List (List (ℕ × ℕ)) := [
  [(0, 0), (0, 0), (0, 0), (0, 0)], [(1, 0), (1, 0), (1, 0), (1, 0)],
  [(1, 0), (1, 0), (1, 0), (1, 0)], [(1, 0), (1, 0), (2, 0), (2, 0)],
  [(1, 0), (2, 0), (2, 0), (4, 0)], [(1, 0), (2, 0), (2, 2), (2, 2)],
  [(2, 0), (4, 0), (4, 0), (4, 0)], [(2, 0), (4, 0), (2, 4), (4, 1)],
  [(2, 0), (2, 2), (4, 2), (4, 2)], [(2, 0), (3, 2), (4, 4), (4, 4)],
  [(2, 2), (4, 1), (6, 2), (6, 2)], [(4, 0), (1, 4), (4, 4), (3, 8)],
  [(2, 2), (6, 2), (4, 6), (7, 4)], [(4, 0), (8, 1), (8, 4), (12, 4)],
  [(3, 1), (4, 5), (11, 5), (11, 5)], [(5, 1), (5, 5), (5, 7), (11, 7)],
  [(5, 1), (7, 3), (15, 2), (3, 13)], [(1, 5), (10, 1), (1, 15), (2, 17)],
  [(5, 1), (9, 4), (17, 1), (2, 19)], [(3, 4), (3, 11), (17, 4), (9, 16)],
  [(3, 5), (3, 13), (15, 5), (15, 10)], [(4, 4), (17, 0), (17, 6), (19, 6)],
  [(2, 7), (17, 0), (7, 16), (34, 0)], [(4, 5), (4, 14), (11, 14), (16, 14)],
  [(6, 4), (6, 14), (11, 16), (30, 2)], [(8, 4), (8, 13), (7, 22), (22, 13)],
  [(10, 2), (19, 4), (28, 6), (33, 4)], [(8, 4), (22, 3), (8, 26), (12, 28)],
  [(3, 10), (3, 23), (4, 31), (11, 31)], [(7, 7), (21, 7), (1, 37), (19, 26)],
  [(5, 10), (19, 10), (15, 25), (23, 25)], [(13, 3), (2, 29), (42, 1), (23, 28)],
  [(17, 0), (10, 23), (10, 35), (19, 35)], [(17, 1), (14, 21), (29, 19), (11, 46)],
  [(13, 6), (14, 23), (44, 7), (59, 1)], [(12, 7), (12, 26), (39, 14), (22, 41)],
  [(6, 14), (6, 34), (46, 10), (2, 64)], [(17, 4), (29, 14), (49, 10), (24, 46)],
  [(4, 18), (13, 32), (48, 14), (42, 32)], [(20, 4), (40, 7), (43, 22), (10, 67)],
  [(19, 6), (18, 31), (34, 34), (20, 61)]]

/-- The array `spec` under the names of the macros that read it. -/
structure EccSpec where
  rsBlockNum1 : ℕ
  rsDataCodes1 : ℕ
  rsEccCodes : ℕ
  rsBlockNum2 : ℕ
  rsDataCodes2 : ℕ
deriving DecidableEq

def QRspec_getEccSpec (version : ℕ) (level : QRecLevel) : EccSpec :=
  let (b1, b2) := (eccTable.getD version []).getD level.index (0, 0)
  let data := QRspec_getDataLength version level
  let ecc := QRspec_getECCLength version level
  if b2 = 0 then ⟨b1, data / b1, ecc / b1, 0, 0⟩
  else ⟨b1, data / (b1 + b2), ecc / (b1 + b2), b2, data / (b1 + b2) + 1⟩

end Source

open QRencodeMode

/-- A count that the source does not split fits its field. -/
theorem QRspec_maximumWords_lt (mode : QRencodeMode) (version : ℕ) :
    QRspec_maximumWords mode version < 2 ^ QRspec_lengthIndicator mode version := by
  unfold QRspec_maximumWords QRspec_lengthIndicator
  split_ifs
  · exact Nat.sub_lt (Nat.two_pow_pos _) Nat.one_pos
  · exact Nat.one_pos

theorem QRspec_maximumWords_pos {mode : QRencodeMode} (hmode : mode ≠ QR_MODE_NUL)
    (version : ℕ) : 0 < QRspec_maximumWords mode version := by
  unfold QRspec_maximumWords lengthColumn
  cases mode with
  | QR_MODE_NUL => exact absurd rfl hmode
  | _ =>
    rw [if_pos (by decide)]
    split_ifs <;> decide

theorem dataLength_le_succ : ∀ version < QRSPEC_VERSION_MAX, ∀ level : QRecLevel,
    QRspec_getDataLength version level ≤ QRspec_getDataLength (version + 1) level := by
  intro version hversion level
  revert version
  cases level <;> decide +kernel

theorem dataLength_mono {v w : ℕ} (hvw : v ≤ w) (hw : w ≤ QRSPEC_VERSION_MAX)
    (level : QRecLevel) : QRspec_getDataLength v level ≤ QRspec_getDataLength w level := by
  induction w, hvw using Nat.le_induction with
  | base => exact le_rfl
  | succ w _ ih => exact (ih (by omega)).trans (dataLength_le_succ w (by omega) level)

theorem QRspec_getMinimumVersion_range (size : ℕ) (level : QRecLevel) :
    1 ≤ QRspec_getMinimumVersion size level ∧
      QRspec_getMinimumVersion size level ≤ QRSPEC_VERSION_MAX := by
  unfold QRspec_getMinimumVersion
  cases hfind : (List.range' 1 QRSPEC_VERSION_MAX).find? fun i =>
    decide (QRspec_getDataLength i level ≥ size) with
  | none => decide
  | some v =>
    have hmem := List.mem_range'_1.mp (List.mem_of_find?_eq_some hfind)
    simp only [Option.getD_some]
    omega

/-- The version found holds `size` words, unless it is the largest one. -/
theorem QRspec_getMinimumVersion_fits (size : ℕ) (level : QRecLevel) :
    size ≤ QRspec_getDataLength (QRspec_getMinimumVersion size level) level ∨
      QRspec_getMinimumVersion size level = QRSPEC_VERSION_MAX := by
  unfold QRspec_getMinimumVersion
  cases hfind : (List.range' 1 QRSPEC_VERSION_MAX).find? fun i =>
    decide (QRspec_getDataLength i level ≥ size) with
  | none => exact .inr rfl
  | some v =>
    have hv := List.find?_some hfind
    exact .inl (of_decide_eq_true hv)

end ConcealDesktop.Qrencode
