import Mathlib.Data.BitVec
import Mathlib.Tactic

/-!
# Cyclic redundancy checks

A reflected CRC of any width, bit by bit: the low bit is shifted out, and the polynomial is added
to the remainder where that bit was set. The shift is linear (`bit_xor`), so a word of `n` bits can
be taken at once with the remainders of the `n`-bit words from a table (`word_eq`).
-/

namespace Crc

variable {w n : ℕ} (poly : BitVec w)

/-- Shift one bit out of the remainder. -/
def bit (r : BitVec w) : BitVec w := if r.getLsbD 0 then r >>> 1 ^^^ poly else r >>> 1

/-- Shift `n` bits out. -/
def bits : ℕ → BitVec w → BitVec w
  | 0, r => r
  | n + 1, r => bits n (bit poly r)

/-- Take in a word of `n` bits. -/
def word (r : BitVec w) (c : BitVec n) : BitVec w := bits poly n (r ^^^ c.setWidth w)

/-- The checksum of a message of `n`-bit words. -/
def checksum (init xorOut : BitVec w) (msg : List (BitVec n)) : BitVec w :=
  msg.foldl (word poly) init ^^^ xorOut

theorem xor_xor_xor_self (a b p : BitVec w) : (a ^^^ p) ^^^ (b ^^^ p) = a ^^^ b := by
  apply BitVec.eq_of_getLsbD_eq
  intro i _
  simp only [BitVec.getLsbD_xor]
  cases a.getLsbD i <;> cases b.getLsbD i <;> cases p.getLsbD i <;> rfl

theorem bit_xor (r s : BitVec w) : bit poly (r ^^^ s) = bit poly r ^^^ bit poly s := by
  unfold bit
  rw [BitVec.getLsbD_xor, BitVec.ushiftRight_xor_distrib]
  cases r.getLsbD 0 <;> cases s.getLsbD 0
  · rfl
  · simp only [Bool.false_xor, if_true, Bool.false_eq_true, if_false, BitVec.xor_assoc]
  · simp only [Bool.xor_false, if_true, Bool.false_eq_true, if_false]
    rw [BitVec.xor_assoc, BitVec.xor_comm _ poly, ← BitVec.xor_assoc]
  · simp only [Bool.xor_self, Bool.false_eq_true, if_false, if_true]
    exact (xor_xor_xor_self _ _ poly).symm

theorem bits_xor (n : ℕ) (r s : BitVec w) :
    bits poly n (r ^^^ s) = bits poly n r ^^^ bits poly n s := by
  induction n generalizing r s with
  | zero => rfl
  | succ n ih =>
    simp only [bits]
    rw [bit_xor, ih]

/-- While the bits that go out are clear, the polynomial does not come in. -/
theorem bits_of_clear {r : BitVec w} (h : ∀ i < n, r.getLsbD i = false) :
    bits poly n r = r >>> n := by
  induction n generalizing r with
  | zero => simp only [bits, BitVec.ushiftRight_zero]
  | succ n ih =>
    have h0 : bit poly r = r >>> 1 := by
      unfold bit
      rw [h 0 (by omega)]
      rfl
    have h1 : ∀ i < n, (r >>> 1).getLsbD i = false := by
      intro i hi
      rw [BitVec.getLsbD_ushiftRight]
      exact h (1 + i) (by omega)
    rw [bits, h0, ih h1, ← BitVec.shiftRight_add, Nat.add_comm]

/-- The low `n` bits of a remainder. -/
def low (n : ℕ) (r : BitVec w) : BitVec w := (r.setWidth n).setWidth w

theorem getLsbD_low (r : BitVec w) (i : ℕ) :
    (low n r).getLsbD i = (decide (i < n) && r.getLsbD i) := by
  unfold low
  rw [BitVec.getLsbD_setWidth, BitVec.getLsbD_setWidth]
  by_cases hi : i < w
  · simp only [hi, decide_true, Bool.true_and]
  · rw [BitVec.getLsbD_of_ge r i (by omega), Bool.and_false, Bool.and_false]

/-- The low bits go out through the polynomial, the others only move down. -/
theorem bits_eq (n : ℕ) (r : BitVec w) : bits poly n r = r >>> n ^^^ bits poly n (low n r) := by
  have hsplit : r = (r ^^^ low n r) ^^^ low n r := by
    rw [BitVec.xor_assoc, BitVec.xor_self, BitVec.xor_zero]
  have hclear : ∀ i < n, (r ^^^ low n r).getLsbD i = false := by
    intro i hi
    rw [BitVec.getLsbD_xor, getLsbD_low]
    simp only [hi, decide_true, Bool.true_and, Bool.xor_self]
  have hhigh : (r ^^^ low n r) >>> n = r >>> n := by
    apply BitVec.eq_of_getLsbD_eq
    intro i _
    rw [BitVec.getLsbD_ushiftRight, BitVec.getLsbD_ushiftRight, BitVec.getLsbD_xor, getLsbD_low]
    simp only [show ¬ n + i < n by omega, decide_false, Bool.false_and, Bool.xor_false]
  calc bits poly n r = bits poly n ((r ^^^ low n r) ^^^ low n r) := by rw [← hsplit]
    _ = bits poly n (r ^^^ low n r) ^^^ bits poly n (low n r) := bits_xor poly n _ _
    _ = r >>> n ^^^ bits poly n (low n r) := by rw [bits_of_clear poly hclear, hhigh]

theorem setWidth_ushiftRight_self (c : BitVec n) : c.setWidth w >>> n = 0#w := by
  apply BitVec.eq_of_getLsbD_eq
  intro i _
  rw [BitVec.getLsbD_ushiftRight, BitVec.getLsbD_setWidth,
    BitVec.getLsbD_of_ge c (n + i) (by omega), Bool.and_false, BitVec.getLsbD_zero]

/-- **A word at a time**: what the low bits of `r + c` leave is looked up. -/
theorem word_eq (r : BitVec w) (c : BitVec n) :
    word poly r c = r >>> n ^^^ bits poly n (low n (r ^^^ c.setWidth w)) := by
  unfold word
  rw [bits_eq, BitVec.ushiftRight_xor_distrib, setWidth_ushiftRight_self, BitVec.xor_zero]

end Crc
