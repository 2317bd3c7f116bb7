import Mathlib.Algebra.Order.BigOperators.Group.List
import Mathlib.Tactic.IntervalCases
import ConcealDesktop.Library.LeastCost
import ConcealDesktop.Qrencode.FrameFiller

/-! The masks of libqrencode: what they turn over, what a masked symbol costs and which mask is
taken, and the format information that names it. -/
namespace ConcealDesktop.Qrencode
open Raster QRecLevel

section Source

/-- A sum over the rows and columns that two loops go through. -/
def sumOver (rows cols : ℕ) (f : ℕ → ℕ → ℤ) : ℤ :=
  ((List.range rows).map fun y => ((List.range cols).map (f y)).sum).sum

/-- The macro MASKMAKER: the masked frame and its number of dark modules. -/
def MASKMAKER (exp : ℕ → ℕ → ℕ) (width : ℕ) (s : Frame) : Frame × ℤ :=
  let d : Frame := fun y x =>
    if reserved (s y x) then s y x else s y x ^^^ (if exp x y = 0 then 1 else 0)
  (d, sumOver width width fun y x => (d y x &&& 1).toNat)

def Mask_mask0 := MASKMAKER fun x y => (x + y) &&& 1

def Mask_mask1 := MASKMAKER fun _ y => y &&& 1

def Mask_mask2 := MASKMAKER fun x _ => x % 3

def Mask_mask3 := MASKMAKER fun x y => (x + y) % 3

def Mask_mask4 := MASKMAKER fun x y => (y / 2 + x / 3) &&& 1

def Mask_mask5 := MASKMAKER fun x y => ((x * y) &&& 1) + (x * y) % 3

def Mask_mask6 := MASKMAKER fun x y => (((x * y) &&& 1) + (x * y) % 3) &&& 1

def Mask_mask7 := MASKMAKER fun x y => ((x * y) % 3 + ((x + y) &&& 1)) &&& 1

def maskMakers : List (ℕ → Frame → Frame × ℤ) :=
  [Mask_mask0, Mask_mask1, Mask_mask2, Mask_mask3, Mask_mask4, Mask_mask5, Mask_mask6, Mask_mask7]

def maskNum : ℕ := 8

def maskMaker (mask : ℕ) : ℕ → Frame → Frame × ℤ := maskMakers.getD mask Mask_mask0

/-- The module of bit `i` of the format information. -/
def formatByte (format i : ℕ) : UInt8 := if (format >>> i) &&& 1 ≠ 0 then 0x85 else 0x84

/-- What the loops of Mask_writeFormatInformation write: every bit twice. -/
def formatWrites (width format : ℕ) : List ((ℕ × ℕ) × UInt8) :=
  (List.range 8).flatMap (fun i =>
    [((8, width - 1 - i), formatByte format i),
      (if i < 6 then (i, 8) else (i + 1, 8), formatByte format i)]) ++
  (List.range 7).flatMap fun i =>
    [((width - 7 + i, 8), formatByte format (8 + i)),
      (if i = 0 then (8, 7) else (8, 6 - i), formatByte format (8 + i))]

/-- The frame with its format information, and the dark modules that this has written. -/
def Mask_writeFormatInformation (width : ℕ) (frame : Frame) (mask : ℕ) (level : QRecLevel) :
    Frame × ℤ :=
  let format := QRspec_getFormatInfo mask level
  (putAll frame (formatWrites width format),
    ((List.range 15).map fun i => if (format >>> i) &&& 1 ≠ 0 then (2 : ℤ) else 0).sum)

/-- Mask_makeMask; `none` is NULL. -/
def Mask_makeMask (width : ℕ) (frame : Frame) (mask : ℤ) (level : QRecLevel) : Option Frame :=
  if mask < 0 ∨ mask ≥ maskNum then none
  else
    let masked := (maskMaker mask.toNat width frame).1
    some (Mask_writeFormatInformation width masked mask.toNat level).1

def N1 : ℤ := 3
def N2 : ℤ := 3
def N3 : ℤ := 40
def N4 : ℤ := 10

def Mask_calcN1N3 (runLength : List ℤ) : ℤ :=
  let length := runLength.length
  let run := fun i => runLength.getD i 0
  ((List.range length).map fun i =>
    (if run i ≥ 5 then N1 + (run i - 5) else 0) +
      if i &&& 1 ≠ 0 ∧ (i ≥ 3 ∧ i + 2 < length ∧ (run i).tmod 3 = 0) then
        let fact := (run i).tdiv 3
        if run (i - 2) = fact ∧ run (i - 1) = fact ∧ run (i + 1) = fact ∧ run (i + 2) = fact then
          if i = 3 ∨ run (i - 3) ≥ 4 * fact then N3
          else if i + 4 ≥ length ∨ run (i + 3) ≥ 4 * fact then N3
          else 0
        else 0
      else 0).sum

def Mask_calcN2 (width : ℕ) (frame : Frame) : ℤ :=
  sumOver (width - 1) (width - 1) fun y x =>
    let b22 := frame (y + 1) (x + 1) &&& frame (y + 1) x &&& frame y (x + 1) &&& frame y x
    let w22 := frame (y + 1) (x + 1) ||| frame (y + 1) x ||| frame y (x + 1) ||| frame y x
    if (b22 ||| (w22 ^^^ 1)) &&& 1 ≠ 0 then N2 else 0

/-- The run lengths of a line so far: those before `head` with the last one first, the one at
`head`, and the byte that its run began with. -/
structure RunLengths where
  before : List ℤ
  head : ℤ
  prev : UInt8

def RunLengths.start (byte : UInt8) : RunLengths :=
  ⟨if byte &&& 1 ≠ 0 then [-1] else [], 1, byte⟩

def RunLengths.next (r : RunLengths) (byte : UInt8) : RunLengths :=
  if (byte ^^^ r.prev) &&& 1 ≠ 0 then ⟨r.head :: r.before, 1, byte⟩
  else { r with head := r.head + 1 }

/-- `runLength[0 .. head]`. -/
def RunLengths.list (r : RunLengths) : List ℤ := (r.head :: r.before).reverse

def Mask_calcRunLength (width : ℕ) (line : ℕ → UInt8) : List ℤ :=
  (((List.range' 1 (width - 1)).map line).foldl RunLengths.next (.start (line 0))).list

def Mask_calcRunLengthH (width : ℕ) (frame : Frame) (y : ℕ) : List ℤ :=
  Mask_calcRunLength width fun i => frame y i

def Mask_calcRunLengthV (width : ℕ) (frame : Frame) (x : ℕ) : List ℤ :=
  Mask_calcRunLength width fun i => frame i x

def Mask_evaluateSymbol (width : ℕ) (frame : Frame) : ℤ :=
  Mask_calcN2 width frame +
    ((List.range width).map fun y => Mask_calcN1N3 (Mask_calcRunLengthH width frame y)).sum +
    ((List.range width).map fun x => Mask_calcN1N3 (Mask_calcRunLengthV width frame x)).sum

def INT_MAX : ℤ := 2 ^ 31 - 1

/-- One pass of the loop of Mask_mask: the masked frame with its format information, and what it
costs. -/
def maskPass (width : ℕ) (frame : Frame) (level : QRecLevel) (i : ℕ) : Frame × ℤ :=
  let mask := maskMaker i width frame
  let written := Mask_writeFormatInformation width mask.1 i level
  let blacks := mask.2 + written.2
  let w2 : ℤ := width * width
  let bratio := ((200 * blacks + w2).tdiv w2).tdiv 2
  (written.1, ((bratio - 50).natAbs / 5 : ℕ) * N4 + Mask_evaluateSymbol width written.1)

def demerit (width : ℕ) (frame : Frame) (level : QRecLevel) (i : ℕ) : ℤ :=
  (maskPass width frame level i).2

/-- Mask_mask; `none` is the memory of `bestMask` as malloc gives it. -/
def Mask_mask (width : ℕ) (frame : Frame) (level : QRecLevel) : Option Frame :=
  ((List.range maskNum).foldl (fun (best : ℤ × Option Frame) i =>
    let pass := maskPass width frame level i
    if pass.2 < best.1 then (pass.2, some pass.1) else best) (INT_MAX, none)).2

end Source

section Modules

/-- Whether a module is drawn in black. -/
def dark (byte : UInt8) : Bool := byte &&& 1 ≠ 0

/-- A mask of one bit reads this bit. -/
theorem land_ne_zero {byte mark : UInt8} {i : ℕ} (h : mark.toNat = 2 ^ i) :
    decide (byte &&& mark ≠ 0) = byte.toNat.testBit i := by
  have hnat : (byte &&& mark).toNat = (byte.toNat.testBit i).toNat * 2 ^ i := by
    rw [UInt8.toNat_and, h, Nat.and_two_pow]
  cases hbit : byte.toNat.testBit i with
  | true =>
    refine decide_eq_true fun hzero => ?_
    rw [hzero, hbit, Bool.toNat_true, one_mul] at hnat
    exact (Nat.two_pow_pos i).ne hnat
  | false =>
    refine decide_eq_false (not_not.mpr (UInt8.toNat_inj.mp ?_))
    rw [hnat, hbit, Bool.toNat_false, zero_mul]
    rfl

theorem dark_eq (byte : UInt8) : dark byte = byte.toNat.testBit 0 := land_ne_zero rfl

theorem reserved_eq (byte : UInt8) : reserved byte = byte.toNat.testBit 7 := land_ne_zero rfl

theorem dark_xor (byte other : UInt8) : dark (byte ^^^ other) = (dark byte ^^ dark other) := by
  rw [dark_eq, dark_eq, dark_eq, UInt8.toNat_xor, Nat.testBit_xor]

theorem reserved_xor (byte other : UInt8) :
    reserved (byte ^^^ other) = (reserved byte ^^ reserved other) := by
  rw [reserved_eq, reserved_eq, reserved_eq, UInt8.toNat_xor, Nat.testBit_xor]

theorem dark_or (byte other : UInt8) : dark (byte ||| other) = (dark byte || dark other) := by
  rw [dark_eq, dark_eq, dark_eq, UInt8.toNat_or, Nat.testBit_or]

theorem reserved_or (byte other : UInt8) :
    reserved (byte ||| other) = (reserved byte || reserved other) := by
  rw [reserved_eq, reserved_eq, reserved_eq, UInt8.toNat_or, Nat.testBit_or]

/-- The modules that a mask turns over: row `y`, column `x`. -/
def maskCondition : ℕ → ℕ → ℕ → Bool
  | 0, y, x => (y + x) % 2 = 0
  | 1, y, _ => y % 2 = 0
  | 2, _, x => x % 3 = 0
  | 3, y, x => (y + x) % 3 = 0
  | 4, y, x => (y / 2 + x / 3) % 2 = 0
  | 5, y, x => (y * x) % 2 + (y * x) % 3 = 0
  | 6, y, x => ((y * x) % 2 + (y * x) % 3) % 2 = 0
  | _, y, x => ((y + x) % 2 + (y * x) % 3) % 2 = 0

/-- Every mask of the table turns over the modules of its condition. -/
theorem maskMaker_eq {mask : ℕ} (hmask : mask < maskNum) :
    ∃ exp, maskMaker mask = MASKMAKER exp ∧
      ∀ y x, decide (exp x y = 0) = maskCondition mask y x := by
  have hlt : mask < 8 := hmask
  interval_cases mask
  · exact ⟨_, rfl, fun y x => by simp only [maskCondition, Nat.and_one_is_mod, Nat.add_comm x y]⟩
  · exact ⟨_, rfl, fun y x => by simp only [maskCondition, Nat.and_one_is_mod]⟩
  · exact ⟨_, rfl, fun y x => rfl⟩
  · exact ⟨_, rfl, fun y x => by simp only [maskCondition, Nat.add_comm x y]⟩
  · exact ⟨_, rfl, fun y x => by simp only [maskCondition, Nat.and_one_is_mod]⟩
  · exact ⟨_, rfl, fun y x => by simp only [maskCondition, Nat.and_one_is_mod, Nat.mul_comm x y]⟩
  · exact ⟨_, rfl, fun y x => by simp only [maskCondition, Nat.and_one_is_mod, Nat.mul_comm x y]⟩
  · exact ⟨_, rfl, fun y x => by
      simp only [maskCondition, Nat.and_one_is_mod, Nat.mul_comm x y, Nat.add_comm x y,
        Nat.add_comm (y * x % 3)]⟩

theorem MASKMAKER_reserved (exp : ℕ → ℕ → ℕ) (width : ℕ) {s : Frame} {y x : ℕ}
    (h : reserved (s y x) = true) : (MASKMAKER exp width s).1 y x = s y x := if_pos h

theorem MASKMAKER_free (exp : ℕ → ℕ → ℕ) (width : ℕ) {s : Frame} {y x : ℕ}
    (h : reserved (s y x) = false) :
    (MASKMAKER exp width s).1 y x = s y x ^^^ (if exp x y = 0 then 1 else 0) :=
  if_neg (Bool.eq_false_iff.mp h)

/-- A mask that is put on twice is taken off again. -/
theorem MASKMAKER_twice (exp : ℕ → ℕ → ℕ) (width : ℕ) (s : Frame) :
    (MASKMAKER exp width (MASKMAKER exp width s).1).1 = s := by
  funext y x
  cases hmark : reserved (s y x) with
  | true =>
    have honce := MASKMAKER_reserved exp width hmark
    rw [MASKMAKER_reserved exp width (honce.symm ▸ hmark), honce]
  | false =>
    have honce := MASKMAKER_free exp width hmark
    have hkept : reserved ((MASKMAKER exp width s).1 y x) = false := by
      rw [honce, reserved_xor, hmark]
      split_ifs <;> rfl
    rw [MASKMAKER_free exp width hkept, honce, UInt8.xor_assoc, UInt8.xor_self, UInt8.xor_zero]

end Modules

section Runs

/-- The colors of a line with these runs: those at even indices are light. -/
def colors (runs : List ℤ) : List Bool :=
  runs.zipIdx.flatMap fun run => List.replicate run.1.toNat (decide (run.2 % 2 = 1))

theorem colors_concat (runs : List ℤ) (run : ℤ) :
    colors (runs ++ [run]) =
      colors runs ++ List.replicate run.toNat (decide (runs.length % 2 = 1)) := by
  unfold colors
  rw [List.zipIdx_append, List.flatMap_append, Nat.zero_add, List.zipIdx_singleton,
    List.flatMap_singleton]

/-- The runs of the bytes that were looked at. -/
structure Runs (bytes : List UInt8) (r : RunLengths) : Prop where
  colors_eq : colors r.list = bytes.map dark
  prev_eq : dark r.prev = decide (r.before.length % 2 = 1)
  head_pos : 1 ≤ r.head
  before_pos : ∀ run ∈ r.before.reverse.tail, 1 ≤ run
  length_le : r.before.length ≤ bytes.length
  le_length : ∀ run ∈ r.head :: r.before, run ≤ bytes.length

theorem RunLengths.list_eq (r : RunLengths) : r.list = r.before.reverse ++ [r.head] :=
  List.reverse_cons

theorem runs_start (byte : UInt8) : Runs [byte] (.start byte) := by
  unfold RunLengths.start
  by_cases h : byte &&& 1 ≠ 0
  · rw [if_pos h]
    have hdark : dark byte = true := decide_eq_true h
    refine ⟨?_, hdark, le_refl 1, fun run hrun => absurd hrun List.not_mem_nil, le_refl 1, ?_⟩
    · show [true] = [dark byte]
      rw [hdark]
    · simp
  · rw [if_neg h]
    have hdark : dark byte = false := decide_eq_false h
    refine ⟨?_, hdark, le_refl 1, fun run hrun => absurd hrun List.not_mem_nil, Nat.zero_le 1, ?_⟩
    · show [false] = [dark byte]
      rw [hdark]
    · simp

theorem dark_ne_iff (byte prev : UInt8) :
    (byte ^^^ prev) &&& 1 ≠ 0 ↔ dark byte = !dark prev := by
  have hxor := dark_xor byte prev
  rw [← decide_eq_true_iff (p := (byte ^^^ prev) &&& 1 ≠ 0)]
  show dark (byte ^^^ prev) = true ↔ _
  rw [hxor]
  cases dark byte <;> cases dark prev <;> decide

theorem mod_two_succ (n : ℕ) : decide ((n + 1) % 2 = 1) = !decide (n % 2 = 1) := by
  rcases Nat.mod_two_eq_zero_or_one n with h | h
  · rw [Nat.succ_mod_two_eq_one_iff.mpr h, h]
    rfl
  · rw [Nat.succ_mod_two_eq_zero_iff.mpr h, h]
    rfl

theorem Runs.next {bytes : List UInt8} {r : RunLengths} (h : Runs bytes r) (byte : UInt8) :
    Runs (bytes ++ [byte]) (r.next byte) := by
  have hcolors := h.colors_eq
  have hlength : (bytes ++ [byte]).length = bytes.length + 1 := List.length_append
  rw [RunLengths.list_eq, colors_concat, List.length_reverse] at hcolors
  unfold RunLengths.next
  split_ifs with hnew
  · have hdark : dark byte = decide ((r.before.length + 1) % 2 = 1) := by
      rw [(dark_ne_iff byte r.prev).mp hnew, h.prev_eq, mod_two_succ]
    have hall := h.le_length
    refine ⟨?_, hdark, le_refl 1, ?_, ?_, ?_⟩
    · rw [RunLengths.list_eq, List.reverse_cons, colors_concat, colors_concat, List.length_append,
        List.length_reverse, hcolors, List.map_append]
      show _ ++ [decide ((r.before.length + 1) % 2 = 1)] = _ ++ [dark byte]
      rw [hdark]
    · intro run hrun
      rw [List.reverse_cons] at hrun
      cases hbefore : r.before.reverse with
      | nil =>
        rw [hbefore] at hrun
        exact absurd hrun List.not_mem_nil
      | cons first rest =>
        have hrest := h.before_pos
        rw [hbefore] at hrun hrest
        rcases List.mem_append.mp hrun with hrun | hrun
        · exact hrest run hrun
        · rw [List.mem_singleton.mp hrun]
          exact h.head_pos
    · rw [hlength]
      exact Nat.succ_le_succ h.length_le
    · rw [hlength]
      refine List.forall_mem_cons.mpr ⟨by push_cast; omega, fun run hrun => ?_⟩
      exact (hall run hrun).trans (by push_cast; omega)
  · have hdark : dark byte = decide (r.before.length % 2 = 1) := by
      have hsame := mt (dark_ne_iff byte r.prev).mpr hnew
      rw [← h.prev_eq]
      revert hsame
      cases dark byte <;> cases dark r.prev <;> decide
    have hpos := h.head_pos
    obtain ⟨hhead, hbefore⟩ := List.forall_mem_cons.mp h.le_length
    refine ⟨?_, h.prev_eq, by show 1 ≤ r.head + 1; omega, h.before_pos, ?_, ?_⟩
    · have hsucc : (r.head + 1).toNat = r.head.toNat + 1 := by omega
      rw [RunLengths.list_eq, colors_concat, List.length_reverse, hsucc, List.replicate_succ',
        ← List.append_assoc, hcolors, List.map_append, ← hdark]
      rfl
    · rw [hlength]
      exact h.length_le.trans (Nat.le_succ _)
    · rw [hlength]
      refine List.forall_mem_cons.mpr ⟨by push_cast; omega, fun run hrun => ?_⟩
      exact (hbefore run hrun).trans (by push_cast; omega)

theorem runs_foldl {bytes more : List UInt8} {r : RunLengths} (h : Runs bytes r) :
    Runs (bytes ++ more) (more.foldl RunLengths.next r) := by
  induction more generalizing bytes r with
  | nil => rwa [List.append_nil]
  | cons byte more ih =>
    have hrest := ih (h.next byte)
    rwa [List.append_assoc] at hrest

theorem runs_line {width : ℕ} (hpos : 0 < width) (line : ℕ → UInt8) :
    ∃ r, Mask_calcRunLength width line = r.list ∧ Runs ((List.range width).map line) r := by
  have hline : (List.range width).map line =
      [line 0] ++ (List.range' 1 (width - 1)).map line := by
    obtain ⟨n, rfl⟩ := Nat.exists_eq_succ_of_ne_zero hpos.ne'
    rw [List.range_eq_range', List.range'_succ]
    rfl
  rw [hline]
  exact ⟨_, rfl, runs_foldl (runs_start (line 0))⟩

/-- The run lengths of a line draw it again, light and dark in turns; a line that begins with a
dark module has a run before it that is none. -/
theorem Mask_calcRunLength_spec {width : ℕ} (hpos : 0 < width) (line : ℕ → UInt8) :
    colors (Mask_calcRunLength width line) = (List.range width).map (fun i => dark (line i)) ∧
      (∀ run ∈ (Mask_calcRunLength width line).tail, 1 ≤ run) ∧
      (Mask_calcRunLength width line).length ≤ width + 1 ∧
      ∀ run ∈ Mask_calcRunLength width line, run ≤ width := by
  obtain ⟨r, hr, hruns⟩ := runs_line hpos line
  have hlength := hruns.length_le
  have hle := hruns.le_length
  rw [List.length_map, List.length_range] at hlength hle
  rw [hr]
  refine ⟨?_, ?_, ?_, ?_⟩
  · rw [hruns.colors_eq, List.map_map]
    rfl
  · have hpos := hruns.before_pos
    rw [RunLengths.list_eq]
    cases hbefore : r.before.reverse with
    | nil => exact fun run hrun => absurd hrun List.not_mem_nil
    | cons first rest =>
      rw [hbefore] at hpos
      intro run hrun
      rcases List.mem_append.mp hrun with hrun | hrun
      · exact hpos run hrun
      · rw [List.mem_singleton.mp hrun]
        exact hruns.head_pos
  · unfold RunLengths.list
    rw [List.length_reverse, List.length_cons]
    omega
  · intro run hrun
    exact hle run (List.mem_reverse.mp hrun)

/-- The run lengths of the rows and of the columns draw them again. -/
theorem Mask_calcRunLength_lines {width : ℕ} (hpos : 0 < width) (frame : Frame) (i : ℕ) :
    (colors (Mask_calcRunLengthH width frame i) =
        (List.range width).map (fun x => dark (frame i x)) ∧
      ∀ run ∈ (Mask_calcRunLengthH width frame i).tail, 1 ≤ run) ∧
    colors (Mask_calcRunLengthV width frame i) =
        (List.range width).map (fun y => dark (frame y i)) ∧
      ∀ run ∈ (Mask_calcRunLengthV width frame i).tail, 1 ≤ run := by
  obtain ⟨hrow, hrowRuns, -⟩ := Mask_calcRunLength_spec hpos fun x => frame i x
  obtain ⟨hcol, hcolRuns, -⟩ := Mask_calcRunLength_spec hpos fun y => frame y i
  exact ⟨⟨hrow, hrowRuns⟩, hcol, hcolRuns⟩

/-- The upper edge of the smallest frame, which begins with a finder pattern. -/
theorem Mask_calcRunLength_lines_edge :
    (colors (Mask_calcRunLengthH 21 (QRspec_createFrame 1) 0) =
        (List.range 21).map (fun x => dark (QRspec_createFrame 1 0 x)) ∧
      ∀ run ∈ (Mask_calcRunLengthH 21 (QRspec_createFrame 1) 0).tail, 1 ≤ run) ∧
    colors (Mask_calcRunLengthV 21 (QRspec_createFrame 1) 0) =
        (List.range 21).map (fun y => dark (QRspec_createFrame 1 y 0)) ∧
      ∀ run ∈ (Mask_calcRunLengthV 21 (QRspec_createFrame 1) 0).tail, 1 ≤ run :=
  Mask_calcRunLength_lines (by decide) (QRspec_createFrame 1) 0

end Runs

section Cost

theorem sum_range_le {n : ℕ} {f : ℕ → ℤ} {b : ℤ} (h : ∀ i < n, f i ≤ b) :
    ((List.range n).map f).sum ≤ n * b := by
  induction n with
  | zero => rw [Nat.cast_zero, zero_mul]; rfl
  | succ n ih =>
    have hinit := ih fun i hi => h i (hi.trans (Nat.lt_succ_self n))
    have hlast := h n (Nat.lt_succ_self n)
    rw [List.range_succ, List.map_append, List.sum_append, List.map_singleton, List.sum_singleton]
    push_cast
    rw [add_mul, one_mul]
    exact add_le_add hinit hlast

theorem sumOver_le {n m : ℕ} {f : ℕ → ℕ → ℤ} {b : ℤ} (h : ∀ y x, f y x ≤ b) :
    sumOver n m f ≤ n * (m * b) := sum_range_le fun y _ => sum_range_le fun x _ => h y x

theorem sumOver_nonneg {n m : ℕ} {f : ℕ → ℕ → ℤ} (h : ∀ y x, 0 ≤ f y x) : 0 ≤ sumOver n m f := by
  unfold sumOver
  refine List.sum_nonneg fun row hrow => ?_
  obtain ⟨y, -, rfl⟩ := List.mem_map.mp hrow
  refine List.sum_nonneg fun cell hcell => ?_
  obtain ⟨x, -, rfl⟩ := List.mem_map.mp hcell
  exact h y x

/-- A line costs at most this much for each of its runs. -/
theorem Mask_calcN1N3_le {runs : List ℤ} {b : ℤ} (hb : 0 ≤ b) (h : ∀ run ∈ runs, run ≤ b) :
    Mask_calcN1N3 runs ≤ runs.length * (b + 40) := by
  unfold Mask_calcN1N3
  refine sum_range_le fun i hi => ?_
  have hrun : runs.getD i 0 ≤ b := by
    rw [List.getD_eq_getElem _ _ hi]
    exact h _ (List.getElem_mem hi)
  have hlong : (if runs.getD i 0 ≥ 5 then N1 + (runs.getD i 0 - 5) else 0) ≤ b := by
    unfold N1
    split_ifs <;> omega
  refine add_le_add hlong ?_
  unfold N3
  simp only
  split_ifs <;> decide

theorem calcRunLength_cost {width : ℕ} (hpos : 0 < width) (line : ℕ → UInt8) :
    Mask_calcN1N3 (Mask_calcRunLength width line) ≤ (width + 1) * (width + 40) := by
  obtain ⟨-, -, hlength, hle⟩ := Mask_calcRunLength_spec hpos line
  refine (Mask_calcN1N3_le (Int.natCast_nonneg width) hle).trans ?_
  exact mul_le_mul_of_nonneg_right (by exact_mod_cast hlength) (by omega)

theorem evaluateSymbol_le {width : ℕ} (hmax : width ≤ QRSPEC_WIDTH_MAX) (frame : Frame) :
    Mask_evaluateSymbol width frame ≤ 14000000 := by
  have hlines (line : ℕ → ℕ → UInt8) :
      ((List.range width).map fun i => Mask_calcN1N3 (Mask_calcRunLength width (line i))).sum ≤
        177 * (178 * 217) := by
    have hwidth : (width : ℤ) ≤ 177 := by exact_mod_cast hmax
    refine (sum_range_le fun i hi => calcRunLength_cost (Nat.zero_lt_of_lt hi) (line i)).trans ?_
    gcongr <;> omega
  have hblocks : Mask_calcN2 width frame ≤ 177 * (177 * 3) := by
    have hwidth : ((width - 1 : ℕ) : ℤ) ≤ 177 := by
      have hlt : width ≤ 177 := hmax
      omega
    unfold Mask_calcN2
    refine (sumOver_le (b := 3) fun y x => ?_).trans ?_
    · simp only
      unfold N2
      split_ifs <;> decide
    · gcongr
  have hrows := hlines fun y i => frame y i
  have hcols := hlines fun x i => frame i x
  unfold Mask_evaluateSymbol Mask_calcRunLengthH Mask_calcRunLengthV
  omega

theorem writeFormatInformation_blacks (width : ℕ) (frame : Frame) (mask : ℕ) (level : QRecLevel) :
    0 ≤ (Mask_writeFormatInformation width frame mask level).2 ∧
      (Mask_writeFormatInformation width frame mask level).2 ≤ 30 := by
  constructor
  · refine List.sum_nonneg fun bit hbit => ?_
    obtain ⟨i, -, rfl⟩ := List.mem_map.mp hbit
    split_ifs <;> decide
  · refine (sum_range_le (b := 2) fun i _ => ?_).trans (by decide)
    split_ifs <;> decide

theorem MASKMAKER_blacks (exp : ℕ → ℕ → ℕ) (width : ℕ) (s : Frame) :
    0 ≤ (MASKMAKER exp width s).2 ∧ (MASKMAKER exp width s).2 ≤ width * (width * 1) := by
  have hbit (byte : UInt8) : (byte &&& 1).toNat ≤ 1 := by
    rw [UInt8.toNat_and]
    exact Nat.and_le_right
  exact ⟨sumOver_nonneg fun y x => Int.natCast_nonneg _,
    sumOver_le fun y x => by exact_mod_cast hbit _⟩

/-- What the share of dark modules costs. -/
theorem share_le {bratio : ℤ} (hpos : 0 ≤ bratio) (hmax : bratio ≤ 7000000) :
    (((bratio - 50).natAbs / 5 : ℕ) : ℤ) * N4 ≤ 14000000 := by
  unfold N4
  omega

/-- No symbol costs as much as the search begins with. -/
theorem demerit_lt {width : ℕ} (hmax : width ≤ QRSPEC_WIDTH_MAX) (frame : Frame)
    (level : QRecLevel) {i : ℕ} (hi : i < maskNum) : demerit width frame level i < INT_MAX := by
  obtain ⟨exp, hexp, -⟩ := maskMaker_eq hi
  have hwidth : (width : ℤ) ≤ 177 := by exact_mod_cast hmax
  have hwidthPos : (0 : ℤ) ≤ width := Int.natCast_nonneg width
  have hsquare : (width : ℤ) * width ≤ 177 * 177 := by gcongr
  have hsquarePos : (0 : ℤ) ≤ width * width := mul_nonneg hwidthPos hwidthPos
  obtain ⟨hdark, hdarkMax⟩ := MASKMAKER_blacks exp width frame
  rw [mul_one] at hdarkMax
  set mask := MASKMAKER exp width frame
  obtain ⟨hformat, hformatMax⟩ := writeFormatInformation_blacks width mask.1 i level
  have heval := evaluateSymbol_le hmax (Mask_writeFormatInformation width mask.1 i level).1
  unfold demerit maskPass
  rw [hexp]
  simp only
  set written := Mask_writeFormatInformation width mask.1 i level
  have hnum : 0 ≤ 200 * (mask.2 + written.2) + (width : ℤ) * width := by omega
  have hquot := Int.tdiv_le_self ((width : ℤ) * width) hnum
  have hquotPos := Int.tdiv_nonneg hnum hsquarePos
  have hhalf := Int.tdiv_le_self 2 hquotPos
  have hhalfPos := Int.tdiv_nonneg hquotPos (by decide : (0 : ℤ) ≤ 2)
  have hshare := share_le hhalfPos (by omega)
  refine (add_le_add hshare heval).trans_lt ?_
  decide

/-- The loop of Mask_mask ends with one of its masked frames. -/
theorem Mask_mask_search {width : ℕ} (hmax : width ≤ QRSPEC_WIDTH_MAX) (frame : Frame)
    (level : QRecLevel) :
    ∃ i < maskNum, Mask_mask width frame level = some (maskPass width frame level i).1 ∧
      (∀ j < maskNum, demerit width frame level i ≤ demerit width frame level j) ∧
      ∀ j < i, demerit width frame level i < demerit width frame level j :=
  LeastCost.search_range (by decide) fun _ hi => demerit_lt hmax frame level hi

theorem Mask_makeMask_eq {mask : ℕ} (hmask : mask < maskNum) (width : ℕ) (frame : Frame)
    (level : QRecLevel) :
    Mask_makeMask width frame mask level = some (maskPass width frame level mask).1 :=
  if_neg (by omega)

end Cost

section Format

variable {version : ℕ}

/-- Where bit `i` of the format information stands beside the upper left finder pattern. -/
def formatPlace (i : ℕ) : ℕ × ℕ :=
  if i < 6 then (i, 8) else if i < 8 then (i + 1, 8) else if i = 8 then (8, 7) else (8, 14 - i)

/-- Where bit `i` stands beside the other two finder patterns. -/
def otherPlace (width i : ℕ) : ℕ × ℕ :=
  if i < 8 then (8, width - 1 - i) else (width - 7 + (i - 8), 8)

def formatPlaces (width : ℕ) : List (ℕ × ℕ) := (formatWrites width 0).map Prod.fst

theorem formatPlaces_facts (hpos : 1 ≤ version) (hmax : version ≤ QRSPEC_VERSION_MAX) :
    (formatPlaces (QRspec_getWidth version)).Nodup ∧
      ∀ p ∈ formatPlaces (QRspec_getWidth version), free (framePatches version) p = false := by
  have hall : ∀ v < QRSPEC_VERSION_MAX, (formatPlaces (QRspec_getWidth (v + 1))).Nodup ∧
      ∀ p ∈ formatPlaces (QRspec_getWidth (v + 1)), free (framePatches (v + 1)) p = false := by
    decide +kernel
  obtain ⟨v, rfl⟩ := Nat.exists_eq_add_of_le' hpos
  exact hall v hmax

theorem mem_formatWrites (width format : ℕ) {i : ℕ} (hi : i < 15) :
    (formatPlace i, formatByte format i) ∈ formatWrites width format ∧
      (otherPlace width i, formatByte format i) ∈ formatWrites width format := by
  unfold formatWrites
  rcases Nat.lt_or_ge i 8 with hlow | hhigh
  · have hplace : formatPlace i = if i < 6 then (i, 8) else (i + 1, 8) := by
      unfold formatPlace
      rw [if_pos hlow]
    have hother : otherPlace width i = (8, width - 1 - i) := if_pos hlow
    rw [hplace, hother]
    constructor <;> refine List.mem_append_left _ (List.mem_flatMap.mpr ⟨i, List.mem_range.mpr hlow, ?_⟩)
    · exact List.mem_cons_of_mem _ List.mem_cons_self
    · exact List.mem_cons_self
  · obtain ⟨k, rfl⟩ := Nat.exists_eq_add_of_le hhigh
    have hk : k < 7 := by omega
    have hplace : formatPlace (8 + k) = if k = 0 then (8, 7) else (8, 6 - k) := by
      unfold formatPlace
      rw [if_neg (by omega), if_neg (by omega)]
      by_cases hzero : k = 0
      · rw [if_pos (by omega), if_pos hzero]
      · rw [if_neg (by omega), if_neg hzero]
        congr 1
        omega
    have hother : otherPlace width (8 + k) = (width - 7 + k, 8) := by
      unfold otherPlace
      rw [if_neg (by omega), Nat.add_sub_cancel_left]
    rw [hplace, hother]
    constructor <;> refine List.mem_append_right _ (List.mem_flatMap.mpr ⟨k, List.mem_range.mpr hk, ?_⟩)
    · exact List.mem_cons_of_mem _ List.mem_cons_self
    · exact List.mem_cons_self

theorem dark_formatByte (format i : ℕ) : dark (formatByte format i) = format.testBit i := by
  unfold formatByte
  rw [Nat.testBit_eq_decide_div_mod_eq, Nat.and_one_is_mod, Nat.shiftRight_eq_div_pow]
  rcases Nat.mod_two_eq_zero_or_one (format / 2 ^ i) with h | h <;> rw [h] <;> rfl

/-- What a masked symbol of a version shows: both copies of the format information, and every
module for data turned over where the mask says so. -/
structure Masked (version : ℕ) (level : QRecLevel) (mask : ℕ) (frame symbol : Frame) : Prop where
  mask_lt : mask < maskNum
  format : ∀ i < 15, dark (symbol (formatPlace i).1 (formatPlace i).2) =
    (QRspec_getFormatInfo mask level).testBit i
  copy : ∀ i < 15, dark (symbol (otherPlace (QRspec_getWidth version) i).1
    (otherPlace (QRspec_getWidth version) i).2) = (QRspec_getFormatInfo mask level).testBit i
  data : ∀ y x, reserved (frame y x) = false →
    dark (symbol y x) = (dark (frame y x) ^^ maskCondition mask y x)
  patterns : ∀ y x, reserved (frame y x) = true →
    (y, x) ∉ formatPlaces (QRspec_getWidth version) → symbol y x = frame y x

/-- A frame with the marks of its version. -/
def HasMarks (version : ℕ) (frame : Frame) : Prop :=
  ∀ y x, reserved (frame y x) = !free (framePatches version) (y, x)

theorem maskPass_masked (hpos : 1 ≤ version) (hmax : version ≤ QRSPEC_VERSION_MAX)
    {frame : Frame} (hmarks : HasMarks version frame) {mask : ℕ} (hmask : mask < maskNum)
    (level : QRecLevel) :
    Masked version level mask frame (maskPass (QRspec_getWidth version) frame level mask).1 := by
  obtain ⟨exp, hexp, hcondition⟩ := maskMaker_eq hmask
  obtain ⟨hnodup, hcovered⟩ := formatPlaces_facts hpos hmax
  set format := QRspec_getFormatInfo mask level
  set symbol := (maskPass (QRspec_getWidth version) frame level mask).1
  have hsymbol : symbol = putAll (MASKMAKER exp (QRspec_getWidth version) frame).1
      (formatWrites (QRspec_getWidth version) format) := by
    rw [← hexp]
    rfl
  have hdistinct : ((formatWrites (QRspec_getWidth version) format).map Prod.fst).Nodup := hnodup
  have hwritten {p : ℕ × ℕ} {i : ℕ}
      (hp : (p, formatByte format i) ∈ formatWrites (QRspec_getWidth version) format) :
      dark (symbol p.1 p.2) = format.testBit i := by
    rw [hsymbol, putAll_of_mem (y := p.1) (x := p.2) hdistinct hp, dark_formatByte]
  have hkept {y x : ℕ} (hnot : (y, x) ∉ (formatWrites (QRspec_getWidth version) format).map
      Prod.fst) : symbol y x = (MASKMAKER exp (QRspec_getWidth version) frame).1 y x := by
    rw [hsymbol, putAll_of_not_mem hnot]
  refine ⟨hmask, ?_, ?_, ?_, ?_⟩
  · exact fun i hi => hwritten (mem_formatWrites _ _ hi).1
  · exact fun i hi => hwritten (mem_formatWrites _ _ hi).2
  · intro y x hfree
    have hnot : (y, x) ∉ formatPlaces (QRspec_getWidth version) := by
      intro hmem
      have hmark := hmarks y x
      rw [hfree, hcovered _ hmem] at hmark
      cases hmark
    rw [hkept hnot, MASKMAKER_free exp _ hfree, dark_xor, ← hcondition]
    congr 1
    by_cases hzero : exp x y = 0
    · rw [if_pos hzero, decide_eq_true hzero]
      rfl
    · rw [if_neg hzero, decide_eq_false hzero]
      rfl
  · intro y x hreserved hnot
    rw [hkept hnot, MASKMAKER_reserved exp _ hreserved]

theorem hasMarks_createFrame (version : ℕ) : HasMarks version (QRspec_createFrame version) :=
  fun y x => (reserved_createFrame version y x).trans (Bool.not_not _).symm

/-- Each of the eight masks gives a symbol that shows it, and putting it on twice brings the frame
back. -/
theorem Mask_makeMask_spec (hpos : 1 ≤ version) (hmax : version ≤ QRSPEC_VERSION_MAX)
    {frame : Frame} (hmarks : HasMarks version frame) (mask : ℤ) (level : QRecLevel) :
    match Mask_makeMask (QRspec_getWidth version) frame mask level with
    | none => mask < 0 ∨ maskNum ≤ mask
    | some symbol => ∃ i : ℕ, mask = i ∧ Masked version level i frame symbol ∧
        (maskMaker i (QRspec_getWidth version)
          (maskMaker i (QRspec_getWidth version) frame).1).1 = frame := by
  by_cases hmask : mask < 0 ∨ maskNum ≤ mask
  · have hnone : Mask_makeMask (QRspec_getWidth version) frame mask level = none := if_pos hmask
    rw [hnone]
    exact hmask
  · obtain ⟨i, rfl⟩ := Int.eq_ofNat_of_zero_le (not_lt.mp (not_or.mp hmask).1)
    have hi : i < maskNum := by omega
    obtain ⟨exp, hexp, -⟩ := maskMaker_eq hi
    rw [Mask_makeMask_eq hi]
    refine ⟨i, rfl, maskPass_masked hpos hmax hmarks hi level, ?_⟩
    rw [hexp]
    exact MASKMAKER_twice exp _ frame

/-- Mask 5 on the smallest frame. -/
theorem Mask_makeMask_spec_new :
    match Mask_makeMask (QRspec_getWidth 1) (QRspec_createFrame 1) 5 QR_ECLEVEL_H with
    | none => (5 : ℤ) < 0 ∨ maskNum ≤ (5 : ℤ)
    | some symbol => ∃ i : ℕ, (5 : ℤ) = i ∧ Masked 1 QR_ECLEVEL_H i (QRspec_createFrame 1) symbol ∧
        (maskMaker i (QRspec_getWidth 1)
          (maskMaker i (QRspec_getWidth 1) (QRspec_createFrame 1)).1).1 = QRspec_createFrame 1 :=
  Mask_makeMask_spec (by decide) (by decide) (hasMarks_createFrame 1) 5 QR_ECLEVEL_H

theorem width_le (hpos : 1 ≤ version) (hmax : version ≤ QRSPEC_VERSION_MAX) :
    QRspec_getWidth version ≤ QRSPEC_WIDTH_MAX := by
  have hwidth := width_eq hpos hmax
  unfold QRSPEC_VERSION_MAX at hmax
  unfold QRSPEC_WIDTH_MAX
  omega

/-- The symbol that Mask_mask chooses shows one of the masks. -/
theorem Mask_mask_masked (hpos : 1 ≤ version) (hmax : version ≤ QRSPEC_VERSION_MAX)
    {frame : Frame} (hmarks : HasMarks version frame) (level : QRecLevel) :
    ∃ mask symbol, Mask_mask (QRspec_getWidth version) frame level = some symbol ∧
      Masked version level mask frame symbol := by
  obtain ⟨mask, hmask, hfound, -⟩ := Mask_mask_search (width_le hpos hmax) frame level
  exact ⟨mask, _, hfound, maskPass_masked hpos hmax hmarks hmask level⟩

end Format

end ConcealDesktop.Qrencode
