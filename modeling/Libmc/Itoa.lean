import Mathlib.Data.List.GetD
import Libmc.Common
import Libmc.Support.Decimal

/-!
# Numbers in commands

`int64ToCharArray` is `i64toa` of the vendored `itoa.h`: the digits are taken in pairs from a table,
eight at a time. It writes the decimal numeral, with a minus sign in front of that of a negative
number (`int64ToCharArray_eq`).
-/

namespace Libmc

namespace Itoa

/-- `GetDigitsLut`. -/
def digitsLut : Bytes := List.map (fun c => UInt8.ofNat c.toNat) [
  '0', '0', '0', '1', '0', '2', '0', '3', '0', '4', '0', '5', '0', '6', '0', '7', '0', '8', '0', '9',
  '1', '0', '1', '1', '1', '2', '1', '3', '1', '4', '1', '5', '1', '6', '1', '7', '1', '8', '1', '9',
  '2', '0', '2', '1', '2', '2', '2', '3', '2', '4', '2', '5', '2', '6', '2', '7', '2', '8', '2', '9',
  '3', '0', '3', '1', '3', '2', '3', '3', '3', '4', '3', '5', '3', '6', '3', '7', '3', '8', '3', '9',
  '4', '0', '4', '1', '4', '2', '4', '3', '4', '4', '4', '5', '4', '6', '4', '7', '4', '8', '4', '9',
  '5', '0', '5', '1', '5', '2', '5', '3', '5', '4', '5', '5', '5', '6', '5', '7', '5', '8', '5', '9',
  '6', '0', '6', '1', '6', '2', '6', '3', '6', '4', '6', '5', '6', '6', '6', '7', '6', '8', '6', '9',
  '7', '0', '7', '1', '7', '2', '7', '3', '7', '4', '7', '5', '7', '6', '7', '7', '7', '8', '7', '9',
  '8', '0', '8', '1', '8', '2', '8', '3', '8', '4', '8', '5', '8', '6', '8', '7', '8', '8', '8', '9',
  '9', '0', '9', '1', '9', '2', '9', '3', '9', '4', '9', '5', '9', '6', '9', '7', '9', '8', '9', '9']

/-- `cDigitsLut[i]`. -/
def lut (i : ℕ) : UInt8 := digitsLut.getD i 0

/-- `*buffer++ = c`, under a condition. -/
def putIf (p : Prop) [Decidable p] (c : UInt8) : Bytes := if p then [c] else []

/-- The eight digits of `v`, with leading zeros. -/
def eightDigits (v : ℕ) : Bytes :=
  let b := v / 10000
  let c := v % 10000
  let d1 := b / 100 * 2
  let d2 := b % 100 * 2
  let d3 := c / 100 * 2
  let d4 := c % 100 * 2
  [lut d1, lut (d1 + 1), lut d2, lut (d2 + 1), lut d3, lut (d3 + 1), lut d4, lut (d4 + 1)]

/-- `u64toa` below `kTen8`. -/
def small (value : ℕ) : Bytes :=
  if value < 10000 then
    let d1 := value / 100 * 2
    let d2 := value % 100 * 2
    putIf (1000 ≤ value) (lut d1) ++ putIf (100 ≤ value) (lut (d1 + 1)) ++
      putIf (10 ≤ value) (lut d2) ++ [lut (d2 + 1)]
  else
    let b := value / 10000
    let c := value % 10000
    let d1 := b / 100 * 2
    let d2 := b % 100 * 2
    let d3 := c / 100 * 2
    let d4 := c % 100 * 2
    putIf (10000000 ≤ value) (lut d1) ++ putIf (1000000 ≤ value) (lut (d1 + 1)) ++
      putIf (100000 ≤ value) (lut d2) ++
        [lut (d2 + 1), lut d3, lut (d3 + 1), lut d4, lut (d4 + 1)]

/-- `u64toa` from `kTen8` on and below `kTen16`. -/
def medium (value : ℕ) : Bytes :=
  let v0 := value / 10 ^ 8
  let v1 := value % 10 ^ 8
  let b0 := v0 / 10000
  let c0 := v0 % 10000
  let d1 := b0 / 100 * 2
  let d2 := b0 % 100 * 2
  let d3 := c0 / 100 * 2
  let d4 := c0 % 100 * 2
  putIf (10 ^ 15 ≤ value) (lut d1) ++ putIf (10 ^ 14 ≤ value) (lut (d1 + 1)) ++
    putIf (10 ^ 13 ≤ value) (lut d2) ++ putIf (10 ^ 12 ≤ value) (lut (d2 + 1)) ++
    putIf (10 ^ 11 ≤ value) (lut d3) ++ putIf (10 ^ 10 ≤ value) (lut (d3 + 1)) ++
    putIf (10 ^ 9 ≤ value) (lut d4) ++ putIf (10 ^ 8 ≤ value) (lut (d4 + 1)) ++ eightDigits v1

/-- What is above `kTen16`, at most `1844`. -/
def top (a : ℕ) : Bytes :=
  if a < 10 then [UInt8.ofNat (48 + a)]
  else if a < 100 then [lut (a * 2), lut (a * 2 + 1)]
  else if a < 1000 then
    [UInt8.ofNat (48 + a / 100), lut (a % 100 * 2), lut (a % 100 * 2 + 1)]
  else
    [lut (a / 100 * 2), lut (a / 100 * 2 + 1), lut (a % 100 * 2), lut (a % 100 * 2 + 1)]

/-- `u64toa`. -/
def u64toa (value : ℕ) : Bytes :=
  if value < 10 ^ 8 then small value
  else if value < 10 ^ 16 then medium value
  else
    let a := value / 10 ^ 16
    let value := value % 10 ^ 16
    top a ++ eightDigits (value / 10 ^ 8) ++ eightDigits (value % 10 ^ 8)

/-- `i64toa`. -/
def i64toa (value : Int64) : Bytes :=
  if value < 0 then 45 :: u64toa (~~~value.toUInt64 + 1).toNat else u64toa value.toUInt64.toNat

end Itoa

/-- `utility::int64ToCharArray`. -/
def int64ToCharArray (n : Int64) : Bytes := Itoa.i64toa n

namespace Itoa

open Decimal

variable {a n v : ℕ}

theorem putIf_pos {p : Prop} [Decidable p] (h : p) (c : UInt8) : putIf p c = [c] := if_pos h

theorem putIf_neg {p : Prop} [Decidable p] (h : ¬ p) (c : UInt8) : putIf p c = [] := if_neg h

theorem putIf_congr {p q : Prop} [Decidable p] [Decidable q] (h : p ↔ q) (c : UInt8) :
    putIf p c = putIf q c := by
  unfold putIf
  simp only [h]

theorem digitsLut_eq : digitsLut = (List.range 200).map fun i =>
    if i % 2 = 0 then digit (i / 2 / 10) else digit (i / 2 % 10) := by
  decide +kernel

theorem lut_eq {i : ℕ} (h : i < 200) :
    lut i = if i % 2 = 0 then digit (i / 2 / 10) else digit (i / 2 % 10) := by
  unfold lut
  rw [digitsLut_eq, List.getD_eq_getElem _ _ (by simpa using h), List.getElem_map,
    List.getElem_range]

theorem lut_tens (h : n < 100) : lut (n * 2) = digit (n / 10) := by
  rw [lut_eq (by omega), if_pos (by omega), Nat.mul_div_cancel n (by decide)]

theorem lut_ones (h : n < 100) : lut (n * 2 + 1) = digit (n % 10) := by
  rw [lut_eq (by omega), if_neg (by omega), show (n * 2 + 1) / 2 = n by omega]

theorem eightDigits_eq (h : v < 10 ^ 8) : eightDigits v = pad 8 v := by
  unfold eightDigits
  simp only [pad, List.nil_append, List.cons_append]
  rw [lut_tens (by omega), lut_ones (by omega), lut_tens (by omega), lut_ones (by omega),
    lut_tens (by omega), lut_ones (by omega), lut_tens (by omega), lut_ones (by omega)]
  simp only [List.cons.injEq, and_true]
  refine ⟨?_, ?_, ?_, ?_, ?_, ?_, ?_, ?_⟩ <;> congr 1 <;> omega

/-- A numeral of up to four digits, each under its condition. -/
theorem numeral_four (h : v < 10000) :
    numeral v = putIf (1000 ≤ v) (digit (v / 1000)) ++ putIf (100 ≤ v) (digit (v / 100 % 10)) ++
      putIf (10 ≤ v) (digit (v / 10 % 10)) ++ [digit (v % 10)] := by
  unfold putIf
  rcases Nat.lt_or_ge v 10 with h1 | h1
  · rw [numeral_of_lt h1, Nat.mod_eq_of_lt h1]
    simp [show ¬ 10 ≤ v by omega, show ¬ 100 ≤ v by omega, show ¬ 1000 ≤ v by omega]
  rw [numeral_of_ge h1]
  rcases Nat.lt_or_ge v 100 with h2 | h2
  · rw [numeral_of_lt (by omega), Nat.mod_eq_of_lt (show v / 10 < 10 by omega)]
    simp [h1, show ¬ 100 ≤ v by omega, show ¬ 1000 ≤ v by omega]
  rw [numeral_of_ge (show 10 ≤ v / 10 by omega), Nat.div_div_eq_div_mul]
  rcases Nat.lt_or_ge v 1000 with h3 | h3
  · rw [numeral_of_lt (by omega), Nat.mod_eq_of_lt (show v / 100 < 10 by omega)]
    simp [h1, h2, show ¬ 1000 ≤ v by omega]
  rw [numeral_of_ge (show 10 ≤ v / (10 * 10) by omega), Nat.div_div_eq_div_mul,
    numeral_of_lt (by omega)]
  simp [h1, h2, h3]

theorem pair_digits (h : v < 10000) :
    lut (v / 100 * 2) = digit (v / 1000) ∧ lut (v / 100 * 2 + 1) = digit (v / 100 % 10) ∧
      lut (v % 100 * 2) = digit (v / 10 % 10) ∧ lut (v % 100 * 2 + 1) = digit (v % 10) := by
  refine ⟨?_, lut_ones (by omega), ?_, ?_⟩
  · rw [lut_tens (by omega), Nat.div_div_eq_div_mul]
  · rw [lut_tens (by omega)]
    congr 1
    omega
  · rw [lut_ones (by omega)]
    congr 1
    omega

theorem pad_four (v : ℕ) : pad 4 v =
    [digit (v / 1000 % 10), digit (v / 100 % 10), digit (v / 10 % 10), digit (v % 10)] := by
  simp [pad, Nat.div_div_eq_div_mul]

/-- The numeral of `v`, split in the middle. -/
theorem numeral_split (hv : 10000 ≤ v) :
    numeral v = numeral (v / 10000) ++ pad 4 (v % 10000) := by
  rw [← numeral_add 4 (by omega) (by omega)]
  congr 1
  omega

theorem numeral_eight (hpos : 0 < v) (h : v < 100000000) :
    numeral v = putIf (10000000 ≤ v) (digit (v / 10000 / 1000)) ++
      putIf (1000000 ≤ v) (digit (v / 10000 / 100 % 10)) ++
      putIf (100000 ≤ v) (digit (v / 10000 / 10 % 10)) ++
      putIf (10000 ≤ v) (digit (v / 10000 % 10)) ++
      putIf (1000 ≤ v) (digit (v % 10000 / 1000)) ++
      putIf (100 ≤ v) (digit (v % 10000 / 100 % 10)) ++
      putIf (10 ≤ v) (digit (v % 10000 / 10 % 10)) ++
      putIf (1 ≤ v) (digit (v % 10000 % 10)) := by
  rcases Nat.lt_or_ge v 10000 with hv | hv
  · rw [numeral_four hv, Nat.mod_eq_of_lt hv, putIf_neg (show ¬ 10000000 ≤ v by omega),
      putIf_neg (show ¬ 1000000 ≤ v by omega), putIf_neg (show ¬ 100000 ≤ v by omega),
      putIf_neg (show ¬ 10000 ≤ v by omega), putIf_pos (show 1 ≤ v from hpos)]
    simp only [List.nil_append]
  · rw [numeral_split hv, numeral_four (show v / 10000 < 10000 by omega), pad_four,
      Nat.mod_eq_of_lt (show v % 10000 / 1000 < 10 by omega),
      putIf_congr (show 1000 ≤ v / 10000 ↔ 10000000 ≤ v by omega),
      putIf_congr (show 100 ≤ v / 10000 ↔ 1000000 ≤ v by omega),
      putIf_congr (show 10 ≤ v / 10000 ↔ 100000 ≤ v by omega),
      putIf_pos (show 10000 ≤ v from hv), putIf_pos (show 1000 ≤ v by omega),
      putIf_pos (show 100 ≤ v by omega), putIf_pos (show 10 ≤ v by omega),
      putIf_pos (show 1 ≤ v by omega)]
    simp only [List.append_assoc, List.cons_append, List.nil_append]

theorem small_eq (h : v < 100000000) : small v = numeral v := by
  unfold small
  split_ifs with hv
  · obtain ⟨h1, h2, h3, h4⟩ := pair_digits hv
    simp only [h1, h2, h3, h4]
    exact (numeral_four hv).symm
  · obtain ⟨h1, h2, h3, h4⟩ := pair_digits (show v / 10000 < 10000 by omega)
    obtain ⟨h5, h6, h7, h8⟩ := pair_digits (show v % 10000 < 10000 by omega)
    simp only [h1, h2, h3, h4, h5, h6, h7, h8]
    rw [numeral_eight (by omega) h, putIf_pos (show 10000 ≤ v by omega),
      putIf_pos (show 1000 ≤ v by omega), putIf_pos (show 100 ≤ v by omega),
      putIf_pos (show 10 ≤ v by omega), putIf_pos (show 1 ≤ v by omega)]
    simp only [List.append_assoc, List.cons_append, List.nil_append]

theorem medium_eq (hge : 10 ^ 8 ≤ v) (h : v < 10 ^ 16) : medium v = numeral v := by
  have hsplit : numeral v = numeral (v / 10 ^ 8) ++ pad 8 (v % 10 ^ 8) := by
    rw [← numeral_add 8 (by omega) (by omega)]
    congr 1
    omega
  obtain ⟨h1, h2, h3, h4⟩ := pair_digits (show v / 10 ^ 8 / 10000 < 10000 by omega)
  obtain ⟨h5, h6, h7, h8⟩ := pair_digits (show v / 10 ^ 8 % 10000 < 10000 by omega)
  unfold medium
  simp only [h1, h2, h3, h4, h5, h6, h7, h8]
  rw [hsplit, eightDigits_eq (by omega), numeral_eight (show 0 < v / 10 ^ 8 by omega) (by omega),
    putIf_congr (show 10 ^ 15 ≤ v ↔ 10000000 ≤ v / 10 ^ 8 by omega),
    putIf_congr (show 10 ^ 14 ≤ v ↔ 1000000 ≤ v / 10 ^ 8 by omega),
    putIf_congr (show 10 ^ 13 ≤ v ↔ 100000 ≤ v / 10 ^ 8 by omega),
    putIf_congr (show 10 ^ 12 ≤ v ↔ 10000 ≤ v / 10 ^ 8 by omega),
    putIf_congr (show 10 ^ 11 ≤ v ↔ 1000 ≤ v / 10 ^ 8 by omega),
    putIf_congr (show 10 ^ 10 ≤ v ↔ 100 ≤ v / 10 ^ 8 by omega),
    putIf_congr (show 10 ^ 9 ≤ v ↔ 10 ≤ v / 10 ^ 8 by omega),
    putIf_congr (show 10 ^ 8 ≤ v ↔ 1 ≤ v / 10 ^ 8 by omega)]

theorem top_eq (h : a < 10000) : top a = numeral a := by
  obtain ⟨h1, h2, h3, h4⟩ := pair_digits h
  unfold top
  rw [numeral_four h]
  split_ifs with ha1 ha2 ha3
  · rw [putIf_neg (by omega), putIf_neg (by omega), putIf_neg (by omega), Nat.mod_eq_of_lt ha1]
    rfl
  · rw [putIf_neg (by omega), putIf_neg (by omega), putIf_pos (by omega), lut_tens ha2, lut_ones ha2,
      Nat.mod_eq_of_lt (show a / 10 < 10 by omega)]
    rfl
  · rw [putIf_neg (by omega), putIf_pos (by omega), putIf_pos (by omega), h3, h4,
      Nat.mod_eq_of_lt (show a / 100 < 10 by omega)]
    rfl
  · rw [putIf_pos (by omega), putIf_pos (by omega), putIf_pos (by omega), h1, h2, h3, h4]
    rfl

theorem u64toa_eq (h : v < 2 ^ 64) : u64toa v = numeral v := by
  unfold u64toa
  split_ifs with h1 h2
  · exact small_eq h1
  · exact medium_eq (by omega) h2
  · have hsplit : numeral v =
        numeral (v / 10 ^ 16) ++ pad 8 (v % 10 ^ 16 / 10 ^ 8) ++ pad 8 (v % 10 ^ 16 % 10 ^ 8) := by
      rw [← numeral_add 8 (by omega) (by omega), ← numeral_add 8 (by omega) (by omega)]
      congr 1
      omega
    simp only
    rw [top_eq (by omega), eightDigits_eq (by omega), eightDigits_eq (by omega), hsplit]

theorem toInt_eq (n : Int64) : n.toInt = n.toUInt64.toBitVec.toInt := rfl

theorem natAbs_of_neg {n : Int64} (h : n.toInt < 0) : (~~~n.toUInt64 + 1).toNat = n.toInt.natAbs := by
  have hneg : (~~~n.toUInt64 + 1).toNat = (-n.toUInt64.toBitVec).toNat := by
    rw [BitVec.neg_eq_not_add]
    rfl
  rw [toInt_eq] at h ⊢
  have hlt := n.toUInt64.toBitVec.isLt
  have hcond := BitVec.toInt_eq_toNat_cond n.toUInt64.toBitVec
  rw [hneg, BitVec.toNat_neg]
  split_ifs at hcond <;> omega

theorem natAbs_of_nonneg {n : Int64} (h : 0 ≤ n.toInt) : n.toUInt64.toNat = n.toInt.natAbs := by
  rw [toInt_eq] at h ⊢
  have hlt := n.toUInt64.toBitVec.isLt
  have hcond := BitVec.toInt_eq_toNat_cond n.toUInt64.toBitVec
  show n.toUInt64.toBitVec.toNat = _
  split_ifs at hcond <;> omega

end Itoa

open Itoa in
/-- **What is written is the decimal numeral.** -/
theorem int64ToCharArray_eq (n : Int64) : int64ToCharArray n = Decimal.signed n.toInt := by
  unfold int64ToCharArray Itoa.i64toa
  split_ifs with h
  · have hneg : n.toInt < 0 := by simpa [Int64.lt_iff_toInt_lt] using h
    rw [Itoa.u64toa_eq (UInt64.toNat_lt _), natAbs_of_neg hneg, Decimal.signed_of_neg hneg]
  · have hnonneg : 0 ≤ n.toInt := by simpa [Int64.lt_iff_toInt_lt] using h
    rw [Itoa.u64toa_eq (UInt64.toNat_lt _), natAbs_of_nonneg hnonneg,
      Decimal.signed_of_nonneg hnonneg]

end Libmc
