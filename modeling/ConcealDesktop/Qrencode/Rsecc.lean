import Mathlib.Data.Nat.Bitwise
import ConcealDesktop.Library.ExponentField
import ConcealDesktop.Library.Syndromes

/-! The Reed-Solomon encoder of libqrencode. Its multiplications go through tables of exponents,
and its shift register runs the remainder of a division. The tables and the generators are made
once and kept in the source; here they are made where they are used. -/
namespace ConcealDesktop.Qrencode
open ShiftRegister Syndromes

section Source

def SYMBOL_SIZE : ℕ := 8

def symbols : ℕ := 2 ^ SYMBOL_SIZE - 1

def proot : ℕ := 0x11d

def min_length : ℕ := 2

def max_length : ℕ := 30

structure LookupTables where
  alpha : List UInt8
  aindex : List UInt8

/-- What the loop of RSECC_initLookupTable makes of `b`. -/
def nextPower (b : ℕ) : ℕ :=
  let b := b <<< 1
  let b := if b &&& (symbols + 1) ≠ 0 then b ^^^ proot else b
  b &&& symbols

/-- One round of RSECC_initLookupTable. -/
def lookupRound (p : ℕ × LookupTables) (i : ℕ) : ℕ × LookupTables :=
  (nextPower p.1,
    ⟨p.2.alpha.set i (UInt8.ofNat p.1), p.2.aindex.set p.1 (UInt8.ofNat i)⟩)

def emptyTables : LookupTables where
  alpha := (List.replicate (symbols + 1) 0).set symbols 0
  aindex := (List.replicate (symbols + 1) 0).set 0 (UInt8.ofNat symbols)

def RSECC_initLookupTable : LookupTables :=
  ((List.range symbols).foldl lookupRound (1, emptyTables)).2

def alpha (i : ℕ) : UInt8 := RSECC_initLookupTable.alpha.getD i 0

def aindex (b : UInt8) : ℕ := (RSECC_initLookupTable.aindex.getD b.toNat 0).toNat

/-- One round of generator_init over `g[0]` to `g[i]`. The inner loop runs downwards, so it reads
the entries of the round before. -/
def generatorRound (i : ℕ) (g : List UInt8) : List UInt8 :=
  let scaled := g.map fun c => alpha ((aindex c + i) % symbols)
  scaled.headD 0 :: List.zipWith (· ^^^ ·) g scaled.tail ++ [1]

def generatorRounds : ℕ → List UInt8
  | 0 => [1]
  | i + 1 => generatorRound i (generatorRounds i)

def generator_init (length : ℕ) : List ℕ := (generatorRounds length).map aindex

/-- What RSECC_encode makes of `ecc` for one byte of the data. -/
def encodeByte (gen : List ℕ) (ecc : List UInt8) (d : UInt8) : List UInt8 :=
  let feedback := aindex (d ^^^ ecc.headD 0)
  if feedback ≠ symbols then
    List.zipWith (· ^^^ ·) (ecc.tail ++ [0])
      (gen.dropLast.reverse.map fun e => alpha ((feedback + e) % symbols))
  else ecc.tail ++ [0]

/-- RSECC_encode; `none` is the result -1. Below `min_length` the source reads past its arrays. -/
def RSECC_encode (ecc_length : ℕ) (data : List UInt8) : Option (List UInt8) :=
  if ecc_length > max_length then none
  else
    some (data.foldl (encodeByte (generator_init ecc_length)) (List.replicate ecc_length 0))

end Source

section Tables

def power (n : ℕ) : ℕ := nextPower^[n] 1

theorem power_succ (n : ℕ) : power (n + 1) = nextPower (power n) :=
  Function.iterate_succ_apply' nextPower n 1

theorem nextPower_lt (b : ℕ) : nextPower b < 256 :=
  Nat.lt_of_le_of_lt Nat.and_le_right (by decide)

theorem power_lt (n : ℕ) : power n < 256 := by
  cases n with
  | zero => decide
  | succ n => exact power_succ n ▸ nextPower_lt _

theorem nextPower_xor (a b : ℕ) : nextPower (a ^^^ b) = nextPower a ^^^ nextPower b := by
  have hbit (c : ℕ) : (c <<< 1) &&& (symbols + 1) ≠ 0 ↔ c.testBit 7 = true := by
    rw [show symbols + 1 = 2 ^ 8 from rfl, Nat.and_two_pow, Nat.testBit_shiftLeft]
    cases c.testBit 7 <;> simp
  have hnext (c : ℕ) : nextPower c =
      ((c <<< 1) ^^^ (if c.testBit 7 = true then proot else 0)) &&& symbols := by
    unfold nextPower
    simp only [hbit]
    split_ifs
    · rfl
    · rw [Nat.xor_zero]
  have hreduce : (if (a ^^^ b).testBit 7 = true then proot else 0) =
      (if a.testBit 7 = true then proot else 0) ^^^ (if b.testBit 7 = true then proot else 0) := by
    rw [Nat.testBit_xor]
    cases a.testBit 7 <;> cases b.testBit 7 <;> rfl
  rw [hnext, hnext, hnext, hreduce, Nat.shiftLeft_xor_distrib, ← Nat.and_xor_distrib_right]
  congr 1
  ac_rfl

/-- The powers come back to one after 255 steps, and not earlier. -/
theorem power_facts : power symbols = 1 ∧ ∀ n < symbols, power n = 1 → n = 0 := by
  decide +kernel

theorem power_add (m n : ℕ) : power (m + n) = nextPower^[m] (power n) :=
  Function.iterate_add_apply nextPower m n 1

theorem power_injective {i j : ℕ} (hi : i < symbols) (hj : j < symbols)
    (h : power i = power j) : i = j := by
  wlog hle : i ≤ j generalizing i j
  · exact (this hj hi h.symm (Nat.le_of_not_le hle)).symm
  have hround : power (symbols - j + i) = 1 := by
    rw [power_add, h, ← power_add, Nat.sub_add_cancel hj.le]
    exact power_facts.1
  rcases Nat.lt_or_ge (symbols - j + i) symbols with hlt | hge
  · have hzero := power_facts.2 _ hlt hround
    omega
  · omega

theorem power_ne_zero (n : ℕ) : power n ≠ 0 := by
  have hzero (m : ℕ) : nextPower^[m] 0 = 0 := Function.iterate_fixed rfl m
  intro h
  have hle : n ≤ symbols * n := Nat.le_mul_of_pos_left n (by decide)
  have hone : power (symbols * n) = 1 := by
    unfold power
    rw [Function.iterate_mul]
    exact Function.iterate_fixed power_facts.1 n
  rw [← Nat.sub_add_cancel hle, power_add, h, hzero] at hone
  cases hone

/-- Every nonzero byte is a power: there are as many of the one as of the other. -/
theorem exists_power {b : ℕ} (hb : b < 256) (hne : b ≠ 0) : ∃ n < symbols, power n = b := by
  have hsub : (Finset.range symbols).image power ⊆ (Finset.range 256).erase 0 := by
    intro c hc
    obtain ⟨n, -, rfl⟩ := Finset.mem_image.mp hc
    exact Finset.mem_erase.mpr ⟨power_ne_zero n, Finset.mem_range.mpr (power_lt n)⟩
  have hcard : ((Finset.range symbols).image power).card = symbols := by
    rw [Finset.card_image_of_injOn, Finset.card_range]
    intro i hi j hj h
    exact power_injective (Finset.mem_range.mp hi) (Finset.mem_range.mp hj) h
  have heq := Finset.eq_of_subset_of_card_le hsub (by
    rw [hcard, Finset.card_erase_of_mem (by decide), Finset.card_range]
    decide)
  have hmem : b ∈ (Finset.range symbols).image power := by
    rw [heq]
    exact Finset.mem_erase.mpr ⟨hne, Finset.mem_range.mpr hb⟩
  obtain ⟨n, hn, hpow⟩ := Finset.mem_image.mp hmem
  exact ⟨n, Finset.mem_range.mp hn, hpow⟩

/-- The tables once `n` powers are entered. -/
structure Entered (n : ℕ) (p : ℕ × LookupTables) : Prop where
  current : p.1 = power n
  alpha_length : p.2.alpha.length = 256
  aindex_length : p.2.aindex.length = 256
  alpha_eq : ∀ i < n, p.2.alpha.getD i 0 = UInt8.ofNat (power i)
  aindex_eq : ∀ i < n, p.2.aindex.getD (power i) 0 = UInt8.ofNat i
  aindex_zero : p.2.aindex.getD 0 0 = UInt8.ofNat symbols

theorem Entered.round {n : ℕ} {p : ℕ × LookupTables} (h : Entered n p) (hn : n < symbols) :
    Entered (n + 1) (lookupRound p n) := by
  have hn' : n < 256 := hn.trans (by decide)
  have hset (l : List UInt8) (i j : ℕ) (c : UInt8) (hi : i < l.length) :
      (l.set i c).getD j 0 = if i = j then c else l.getD j 0 := by
    rw [List.getD_eq_getElem?_getD, List.getElem?_set, List.getD_eq_getElem?_getD]
    split_ifs <;> rfl
  constructor
  · rw [power_succ, ← h.current]
    rfl
  · exact (List.length_set).trans h.alpha_length
  · exact (List.length_set).trans h.aindex_length
  · intro i hi
    show (p.2.alpha.set n (UInt8.ofNat p.1)).getD i 0 = _
    rw [hset _ _ _ _ (h.alpha_length ▸ hn'), h.current]
    split_ifs with heq
    · rw [heq]
    · exact h.alpha_eq i (by omega)
  · intro i hi
    show (p.2.aindex.set p.1 (UInt8.ofNat n)).getD (power i) 0 = _
    rw [h.current, hset _ _ _ _ (h.aindex_length ▸ power_lt n)]
    split_ifs with heq
    · rw [power_injective hn (by omega) heq]
    · have hne : i ≠ n := fun hin => heq (hin ▸ rfl)
      exact h.aindex_eq i (by omega)
  · show (p.2.aindex.set p.1 (UInt8.ofNat n)).getD 0 0 = _
    rw [h.current, hset _ _ _ _ (h.aindex_length ▸ power_lt n), if_neg (power_ne_zero n)]
    exact h.aindex_zero

theorem entered : Entered symbols ((List.range symbols).foldl lookupRound (1, emptyTables)) := by
  have hall : ∀ n ≤ symbols, Entered n ((List.range n).foldl lookupRound (1, emptyTables)) := by
    intro n hn
    induction n with
    | zero =>
      have hlength (i : ℕ) (c : UInt8) :
          ((List.replicate (symbols + 1) (0 : UInt8)).set i c).length = 256 := by
        rw [List.length_set, List.length_replicate]
        rfl
      exact ⟨rfl, hlength _ _, hlength _ _, nofun, nofun, rfl⟩
    | succ n ih =>
      rw [List.range_succ, List.foldl_append]
      exact (ih (by omega)).round hn
  exact hall symbols le_rfl

theorem alpha_eq {i : ℕ} (hi : i < symbols) : alpha i = UInt8.ofNat (power i) :=
  entered.alpha_eq i hi

theorem aindex_power {i : ℕ} (hi : i < symbols) : aindex (UInt8.ofNat (power i)) = i := by
  have hbyte : (UInt8.ofNat i).toNat = i := UInt8.toNat_ofNat_of_lt' (hi.trans (by decide))
  unfold aindex
  rw [UInt8.toNat_ofNat_of_lt' (power_lt i)]
  exact (congrArg UInt8.toNat (entered.aindex_eq i hi)).trans hbyte

theorem aindex_zero : aindex 0 = symbols :=
  (congrArg UInt8.toNat entered.aindex_zero).trans (UInt8.toNat_ofNat_of_lt' (by decide))

theorem aindex_facts {b : UInt8} (hb : b ≠ 0) : aindex b < symbols ∧ power (aindex b) = b.toNat := by
  have hne : b.toNat ≠ 0 := fun h => hb (UInt8.toNat_inj.mp h)
  obtain ⟨n, hn, hpow⟩ := exists_power b.toNat_lt hne
  have hbyte : b = UInt8.ofNat (power n) := by
    rw [hpow, UInt8.ofNat_toNat]
  rw [hbyte, aindex_power hn, UInt8.toNat_ofNat_of_lt' (power_lt n)]
  exact ⟨hn, rfl⟩

end Tables

/-- A byte as an element of the field with 256 elements. -/
@[ext] structure Symbol where
  byte : UInt8
deriving DecidableEq

namespace Symbol

instance : Zero Symbol := ⟨⟨0⟩⟩

instance : Add Symbol := ⟨fun a b => ⟨a.byte ^^^ b.byte⟩⟩

instance : Neg Symbol := ⟨fun a => a⟩

instance : AddCommGroup Symbol where
  add_assoc _ _ _ := Symbol.ext (UInt8.xor_assoc _ _ _)
  zero_add _ := Symbol.ext UInt8.zero_xor
  add_zero _ := Symbol.ext UInt8.xor_zero
  add_comm _ _ := Symbol.ext (UInt8.xor_comm _ _)
  neg_add_cancel _ := Symbol.ext UInt8.xor_self
  nsmul := nsmulRec
  zsmul := zsmulRec

theorem add_byte (a b : Symbol) : (a + b).byte = a.byte ^^^ b.byte := rfl

def double : Symbol →+ Symbol where
  toFun a := ⟨UInt8.ofNat (nextPower a.byte.toNat)⟩
  map_zero' := rfl
  map_add' a b := by
    apply Symbol.ext
    show UInt8.ofNat (nextPower (a + b).byte.toNat) = _
    rw [add_byte, UInt8.toNat_xor, nextPower_xor, UInt8.ofNat_xor]
    rfl

theorem double_iterate (n : ℕ) : double^[n] ⟨1⟩ = ⟨UInt8.ofNat (power n)⟩ := by
  induction n with
  | zero => rfl
  | succ n ih =>
    rw [Function.iterate_succ_apply', ih, power_succ]
    show Symbol.mk (UInt8.ofNat (nextPower (UInt8.ofNat (power n)).toNat)) = _
    rw [UInt8.toNat_ofNat_of_lt' (power_lt n)]

/-- The tables of the source are logarithms and powers. -/
def powers : ExponentField.Powers Symbol where
  shift := double
  one := ⟨1⟩
  log a := aindex a.byte
  period := symbols
  one_ne_zero := by decide
  shift_log a ha := by
    have hbyte : a.byte ≠ 0 := fun h => ha (Symbol.ext h)
    rw [double_iterate, (aindex_facts hbyte).2, UInt8.ofNat_toNat]
  period_pos := by decide
  shift_period := by
    rw [double_iterate, power_facts.1]
    rfl

instance : Field Symbol := powers.toField

theorem exp_eq (n : ℕ) : powers.exp n = ⟨UInt8.ofNat (power n)⟩ := double_iterate n

theorem mul_eq (a b : Symbol) : a * b = powers.mul a b := rfl

/-- The element that the exponents belong to. -/
def g : Symbol := ⟨2⟩

theorem g_pow (n : ℕ) : g ^ n = powers.exp n := by
  have hg : g = powers.exp 1 := rfl
  induction n with
  | zero => rfl
  | succ n ih => rw [pow_succ, ih, mul_eq, hg, powers.exp_mul_exp]

/-- The multiplication of the source, which adds logarithms. -/
theorem alpha_sum {b : UInt8} (hb : b ≠ 0) (n : ℕ) :
    (⟨alpha ((aindex b + n) % symbols)⟩ : Symbol) = g ^ n * ⟨b⟩ := by
  have hlog : powers.exp (aindex b) = ⟨b⟩ := by
    rw [exp_eq, (aindex_facts hb).2, UInt8.ofNat_toNat]
  rw [alpha_eq (Nat.mod_lt _ (by decide)), ← exp_eq]
  show powers.exp ((aindex b + n) % powers.period) = _
  rw [powers.exp_mod, g_pow, ← hlog, mul_eq, powers.exp_mul_exp, Nat.add_comm]

theorem distinct_g : Distinct g symbols := by
  intro i hi j hj h
  rw [g_pow, g_pow, exp_eq, exp_eq, Symbol.mk.injEq] at h
  have hnat := congrArg UInt8.toNat h
  rw [UInt8.toNat_ofNat_of_lt' (power_lt i), UInt8.toNat_ofNat_of_lt' (power_lt j)] at hnat
  exact power_injective hi hj hnat

theorem add_self (a : Symbol) : a + a = 0 := neg_add_cancel a

theorem mk_injective : Function.Injective Symbol.mk := fun _ _ h => congrArg Symbol.byte h

end Symbol

open Qrencode.Symbol

/-- The bytes as a word over the field. -/
def word (data : List UInt8) : List Symbol := data.map Symbol.mk

@[simp] theorem length_word (data : List UInt8) : (word data).length = data.length :=
  List.length_map _

theorem word_append (a b : List UInt8) : word (a ++ b) = word a ++ word b := List.map_append

theorem word_headD (data : List UInt8) : (word data).headD 0 = ⟨data.headD 0⟩ := by
  cases data <;> rfl

theorem word_tail (data : List UInt8) : word data.tail = (word data).tail := List.map_tail

theorem word_xor (a b : List UInt8) :
    word (List.zipWith (· ^^^ ·) a b) = List.zipWith (· + ·) (word a) (word b) := by
  unfold word
  rw [List.map_zipWith, List.zipWith_map]
  rfl

section Generator

/-- The coefficients below the leading one of the product of the first `n` linear factors, the
lowest one first. -/
def lower : ℕ → List Symbol
  | 0 => []
  | n + 1 => (mulLinear double^[n] (lower n ++ [1])).dropLast

theorem lower_succ (n : ℕ) :
    lower (n + 1) ++ [1] = mulLinear double^[n] (lower n ++ [1]) :=
  congrArg (· ++ [1]) List.dropLast_concat

/-- The generator of every admissible length has no coefficient that is zero. The source relies on
it: its tables have no logarithm of zero. -/
theorem lower_ne_zero : ∀ n ≤ max_length, ∀ c ∈ lower n, c ≠ 0 := by
  decide +kernel

theorem length_lower (n : ℕ) : (lower n).length = n := by
  induction n with
  | zero => rfl
  | succ n ih =>
    have h := congrArg List.length (lower_succ n)
    rw [length_mulLinear _ (by simp), List.length_append, List.length_append, ih] at h
    exact Nat.succ.inj h

theorem value_lower (n : ℕ) {j : ℕ} (hj : j < n) : value (g ^ j) (lower n ++ [1]).reverse = 0 := by
  have hscale (m : ℕ) (c : Symbol) : double^[m] c = g ^ m * c := by
    rw [g_pow, mul_eq, powers.mul_exp]
    rfl
  induction n with
  | zero => cases hj
  | succ n ih =>
    rw [lower_succ, value_mulLinear (hscale n)]
    rcases Nat.lt_succ_iff_lt_or_eq.mp hj with hlt | rfl
    · rw [ih hlt, mul_zero]
    · rw [Symbol.add_self, zero_mul]

/-- A round of the source multiplies by a linear factor while no coefficient is zero. -/
theorem word_generatorRound (n : ℕ) {coefficients : List UInt8} (hne : ∀ c ∈ coefficients, c ≠ 0) :
    word (generatorRound n coefficients) = mulLinear double^[n] (word coefficients) := by
  have hscaled : word (coefficients.map fun c => alpha ((aindex c + n) % symbols)) =
      (word coefficients).map double^[n] := by
    unfold word
    rw [List.map_map, List.map_map]
    apply List.map_congr_left
    intro c hc
    show (⟨alpha ((aindex c + n) % symbols)⟩ : Symbol) = double^[n] ⟨c⟩
    rw [alpha_sum (hne c hc), g_pow, mul_eq, powers.mul_exp]
    rfl
  unfold generatorRound mulLinear
  rw [← hscaled, ← word_tail, ← word_xor, word_headD, word_append]
  rfl

theorem word_generatorRounds {n : ℕ} (hn : n ≤ max_length) :
    word (generatorRounds n) = lower n ++ [1] := by
  induction n with
  | zero => rfl
  | succ n ih =>
    have hrounds := ih (by omega)
    have hne : ∀ c ∈ generatorRounds n, c ≠ 0 := by
      rintro c hc rfl
      have hmem : (⟨0⟩ : Symbol) ∈ lower n ++ [1] := hrounds ▸ List.mem_map_of_mem hc
      rcases List.mem_append.mp hmem with hlow | hone
      · exact lower_ne_zero n (by omega) _ hlow rfl
      · cases List.mem_singleton.mp hone
    rw [lower_succ, ← hrounds]
    exact word_generatorRound n hne

end Generator

/-- The taps of the register. -/
def taps (n : ℕ) : List Symbol := (lower n).reverse

theorem length_taps (n : ℕ) : (taps n).length = n := by
  rw [taps, List.length_reverse, length_lower]

theorem value_taps {n j : ℕ} (hj : j < n) : value (g ^ j) (taps n) = (g ^ j) ^ (taps n).length := by
  have hroot := value_lower n hj
  rw [List.reverse_append, List.reverse_singleton, List.singleton_append, value_cons, one_mul]
    at hroot
  exact (neg_eq_of_add_eq_zero_right hroot).symm

section Encoder

variable {n : ℕ} {data ecc : List UInt8}

theorem logarithms_generator (hn : n ≤ max_length) :
    (generator_init n).dropLast.reverse = (taps n).map fun t => aindex t.byte := by
  have hgen : generator_init n = (word (generatorRounds n)).map fun t => aindex t.byte := by
    unfold generator_init word
    simp only [List.map_map, Function.comp_def]
  rw [hgen, word_generatorRounds hn, ← List.map_dropLast, List.dropLast_concat, taps,
    List.map_reverse]

/-- The source feeds the register as a division does. -/
theorem word_encodeByte (hn : n ≤ max_length) (hne : n ≠ 0) (hlength : ecc.length = n)
    (d : UInt8) : word (encodeByte (generator_init n) ecc d) = step (taps n) (word ecc) ⟨d⟩ := by
  have hregister : ((word ecc).tail ++ [0]).length = (taps n).length := by
    rw [List.length_append, List.length_tail, length_word, hlength, length_taps,
      List.length_singleton]
    omega
  have htail : word (ecc.tail ++ [0]) = (word ecc).tail ++ [0] := by
    rw [word_append, word_tail]
    rfl
  have hstep : step (taps n) (word ecc) ⟨d⟩ =
      List.zipWith (· + ·) ((word ecc).tail ++ [0])
        ((taps n).map ((⟨d ^^^ ecc.headD 0⟩ : Symbol) * ·)) := by
    unfold step
    rw [word_headD, List.zipWith_map_right]
    rfl
  rw [hstep]
  unfold encodeByte
  by_cases hfeedback : d ^^^ ecc.headD 0 = 0
  · rw [hfeedback, aindex_zero, if_neg (by decide), htail]
    apply List.ext_getElem (by simp [hregister])
    intro i hi hi'
    rw [List.getElem_zipWith, List.getElem_map]
    exact (add_eq_left.mpr (zero_mul _)).symm
  · rw [if_pos (aindex_facts hfeedback).1.ne, word_xor, htail, logarithms_generator hn]
    unfold word
    simp only [List.map_map, Function.comp_def]
    refine congrArg (List.zipWith (· + ·) _) (List.map_congr_left ?_)
    intro t ht
    have ht' : t.byte ≠ 0 :=
      fun h => lower_ne_zero n hn t (List.mem_reverse.mp ht) (Symbol.ext h)
    have hlog : g ^ aindex t.byte = t := by
      rw [g_pow, exp_eq, (aindex_facts ht').2, UInt8.ofNat_toNat]
    rw [alpha_sum hfeedback, hlog, mul_comm]

theorem length_encodeByte (hn : n ≤ max_length) (hne : n ≠ 0) (hlength : ecc.length = n)
    (d : UInt8) : (encodeByte (generator_init n) ecc d).length = n := by
  have hword : (word ecc).length = (taps n).length := by
    rw [length_word, length_taps, hlength]
  have htaps : taps n ≠ [] := List.ne_nil_of_length_pos (by rw [length_taps]; omega)
  rw [← length_word, word_encodeByte hn hne hlength, length_step htaps hword, length_taps]

/-- The check bytes are the register after the data. -/
theorem word_check (hn : n ≤ max_length) (hne : n ≠ 0) (data : List UInt8) :
    let ecc := data.foldl (encodeByte (generator_init n)) (List.replicate n 0)
    ecc.length = n ∧ word ecc = run (taps n) (word data) := by
  induction data using List.reverseRecOn with
  | nil =>
    refine ⟨List.length_replicate, ?_⟩
    show word (List.replicate n 0) = List.replicate (taps n).length 0
    rw [length_taps, word, List.map_replicate]
    rfl
  | append_singleton data d ih =>
    obtain ⟨hlength, hword⟩ := ih
    simp only [List.foldl_append, List.foldl_cons, List.foldl_nil]
    refine ⟨length_encodeByte hn hne hlength d, ?_⟩
    rw [word_encodeByte hn hne hlength, hword, word_append]
    unfold run
    rw [List.foldl_append]
    rfl

theorem RSECC_encode_some (hn : n ≤ max_length) (hne : n ≠ 0) (data : List UInt8) :
    ∃ ecc, RSECC_encode n data = some ecc ∧ ecc.length = n ∧
      Vanishes g n (word (data ++ ecc)) := by
  obtain ⟨hlength, hword⟩ := word_check hn hne data
  refine ⟨_, if_neg (by omega), hlength, ?_⟩
  intro j hj
  have htaps : taps n ≠ [] := List.ne_nil_of_length_pos (by rw [length_taps]; omega)
  rw [word_append, value_append, hword, value_run htaps (value_taps hj),
    length_run htaps, Symbol.add_self]

/-- The check bytes of the encoder are the ones that make the block vanish at the first powers,
and no others do. -/
theorem RSECC_encode_eq_some_iff (hmin : min_length ≤ n) (hmax : n ≤ max_length) :
    RSECC_encode n data = some ecc ↔ ecc.length = n ∧ Vanishes g n (word (data ++ ecc)) := by
  have hne : n ≠ 0 := (Nat.lt_of_lt_of_le (by decide) hmin).ne'
  obtain ⟨check, hcheck, hlength, hvanishes⟩ := RSECC_encode_some hmax hne data
  rw [hcheck, Option.some.injEq]
  constructor
  · rintro rfl
    exact ⟨hlength, hvanishes⟩
  · rintro ⟨hlength', hvanishes'⟩
    have hsame : (word check).length = (word ecc).length := by
      rw [length_word, length_word, hlength, hlength']
    have hdistinct : Distinct g (word check).length := by
      rw [length_word, hlength]
      exact distinct_g.mono (hmax.trans (by decide))
    have hvalue : ∀ j < n, value (g ^ j) (word check) = value (g ^ j) (word ecc) := by
      intro j hj
      have h := (hvanishes j hj).trans (hvanishes' j hj).symm
      rw [word_append, word_append, value_append, value_append, hsame] at h
      exact add_left_cancel h
    have hfew : differences (word check) (word ecc) ≤ n := by
      apply (differences_le_length _ _).trans
      rw [length_word, hlength]
    exact List.map_injective_iff.mpr mk_injective
      (eq_of_differences_le hsame hdistinct hvalue hfew)

theorem RSECC_encode_eq_some_iff_twoBytes :
    RSECC_encode 2 [1, 2] = some [1, 2] ∧ Vanishes g 2 (word ([1, 2] ++ [1, 2])) := by
  have hencode : RSECC_encode 2 [1, 2] = some [1, 2] := by decide +kernel
  exact ⟨hencode, ((RSECC_encode_eq_some_iff (by decide) (by decide)).mp hencode).2⟩

end Encoder
end ConcealDesktop.Qrencode
