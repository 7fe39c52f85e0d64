import Mathlib.Analysis.Complex.Exponential
import Mathlib.Analysis.SpecialFunctions.Trigonometric.Basic
import Mathlib.NumberTheory.Zsqrtd.GaussianInt
import Mathlib.Tactic

/-!
# Integer parts of sines

`sin k` is the imaginary part of the `k`-th power of `exp I`, which a Taylor sum gives as a quotient
of whole numbers. `Bracket` compares whole numbers only, and decides the integer part of a multiple
of `|sin k|` (`floor_mul_abs_sin`).
-/

namespace Sines

open Complex

/-- `n !` times the Taylor sum of `exp I` up to the power `n`. -/
def expTaylor : ℕ → GaussianInt
  | 0 => 1
  | n + 1 => (n + 1) * expTaylor n + ⟨0, 1⟩ ^ (n + 1)

/-- The multiple of `|sin k|` by `c` lies between `t` and `t + 1`, as far as the first powers up to
`n` show. -/
def Bracket (n c k t : ℕ) : Prop :=
  let y := c * (expTaylor n ^ k).im.natAbs * ((n + 1).factorial * (n + 1))
  let err := c * 2 ^ k * (n + 2) * n.factorial ^ k
  let unit := n.factorial ^ k * ((n + 1).factorial * (n + 1))
  t * unit + err ≤ y ∧ y + err < (t + 1) * unit

instance (n c k t : ℕ) : Decidable (Bracket n c k t) := by
  unfold Bracket
  exact instDecidableAnd

variable {n c k t : ℕ}

theorem expTaylor_eq (n : ℕ) : (expTaylor n : ℂ) / n.factorial =
    ∑ m ∈ Finset.range (n + 1), I ^ m / (m.factorial : ℂ) := by
  induction n with
  | zero => simp [expTaylor]
  | succ n ih =>
    have hn : (n.factorial : ℂ) ≠ 0 := Nat.cast_ne_zero.2 n.factorial_ne_zero
    have hs : ((n : ℂ) + 1) ≠ 0 := Nat.cast_add_one_ne_zero n
    have hI : ((⟨0, 1⟩ : GaussianInt) : ℂ) = I := by simp [GaussianInt.toComplex_def']
    rw [Finset.sum_range_succ, ← ih, Nat.factorial_succ]
    have hcast : ((expTaylor (n + 1) : GaussianInt) : ℂ) = (n + 1) * expTaylor n + I ^ (n + 1) := by
      rw [expTaylor]
      simp [hI]
    rw [hcast]
    push_cast
    field_simp

/-- What the Taylor sum leaves out. -/
noncomputable def taylorError (n : ℕ) : ℝ := (n + 2) * ((n + 1).factorial * (n + 1) : ℝ)⁻¹

theorem norm_exp_sub (n : ℕ) : ‖exp I - (expTaylor n : ℂ) / n.factorial‖ ≤ taylorError n := by
  have h := exp_bound (x := I) (by rw [norm_I]) (n := n + 1) n.succ_pos
  rw [← expTaylor_eq, norm_I, one_pow, one_mul] at h
  refine h.trans (le_of_eq ?_)
  unfold taylorError
  push_cast
  ring

theorem norm_pow_sub_pow_le {z w : ℂ} {ε : ℝ} (hz : ‖z‖ = 1) (hε : ε ≤ 1) (h : ‖z - w‖ ≤ ε)
    (k : ℕ) : ‖z ^ k - w ^ k‖ ≤ 2 ^ k * ε := by
  have hε0 : 0 ≤ ε := (norm_nonneg _).trans h
  have hw : ‖w‖ ≤ 2 := by
    have := norm_sub_norm_le w z
    rw [norm_sub_rev] at this
    linarith
  induction k with
  | zero => simpa using hε0
  | succ k ih =>
    have hwk : ‖w ^ k‖ ≤ 2 ^ k := by
      rw [norm_pow]
      exact pow_le_pow_left₀ (norm_nonneg w) hw k
    calc ‖z ^ (k + 1) - w ^ (k + 1)‖ = ‖z * (z ^ k - w ^ k) + (z - w) * w ^ k‖ := by
          congr 1
          ring
      _ ≤ ‖z‖ * ‖z ^ k - w ^ k‖ + ‖z - w‖ * ‖w ^ k‖ := by
          rw [← norm_mul, ← norm_mul]
          exact norm_add_le _ _
      _ ≤ 1 * (2 ^ k * ε) + ε * 2 ^ k := by
          rw [hz]
          gcongr
      _ = 2 ^ (k + 1) * ε := by ring

theorem sin_eq_im (k : ℕ) : Real.sin k = (exp I ^ k).im := by
  rw [← exp_nat_mul]
  exact (exp_ofReal_mul_I_im k).symm

theorem taylorError_le_one (n : ℕ) : taylorError (n + 1) ≤ 1 := by
  unfold taylorError
  rw [← div_eq_mul_inv, div_le_one (by positivity)]
  have h : n + 3 ≤ (n + 2).factorial * (n + 2) := by
    have := (n + 2).self_le_factorial
    nlinarith
  have h' : ((n + 3 : ℕ) : ℝ) ≤ (((n + 2).factorial * (n + 2) : ℕ) : ℝ) := Nat.cast_le.2 h
  push_cast at h' ⊢
  linarith

/-- How close the power of the sum comes to the sine. -/
theorem abs_sin_sub_le (n k : ℕ) : |Real.sin k -
    ((expTaylor (n + 1) ^ k).im : ℝ) / (n + 1).factorial ^ k| ≤ 2 ^ k * taylorError (n + 1) := by
  have h := norm_pow_sub_pow_le (by simpa using norm_exp_ofReal_mul_I 1) (taylorError_le_one n)
    (norm_exp_sub (n + 1)) k
  have him : ((expTaylor (n + 1) : ℂ) / (n + 1).factorial) ^ k =
      ((expTaylor (n + 1) ^ k : GaussianInt) : ℂ) / (((n + 1).factorial ^ k : ℝ) : ℂ) := by
    rw [div_pow, map_pow]
    push_cast
    rfl
  rw [sin_eq_im, GaussianInt.intCast_im, ← div_ofReal_im, ← him, ← sub_im]
  exact (abs_im_le_norm _).trans h

/-- **The integer part of a multiple of a sine.** -/
theorem floor_mul_abs_sin (h : Bracket (n + 1) c k t) : ⌊(c : ℝ) * |Real.sin k|⌋₊ = t := by
  obtain ⟨hle, hlt⟩ := h
  have hsin := (abs_abs_sub_abs_le _ _).trans (abs_sin_sub_le n k)
  have hD : (0 : ℝ) < (n + 1).factorial ^ k := pow_pos (Nat.cast_pos.2 (n + 1).factorial_pos) k
  have hE : (0 : ℝ) < (n + 1 + 1).factorial * (n + 1 + 1) := by positivity
  rw [abs_div, abs_of_pos hD, ← Int.cast_abs, Int.abs_eq_natAbs, Int.cast_natCast] at hsin
  generalize (expTaylor (n + 1) ^ k).im.natAbs = y at *
  have hle' := (Nat.cast_le (α := ℝ)).2 hle
  have hlt' := (Nat.cast_lt (α := ℝ)).2 hlt
  push_cast at hle' hlt'
  -- the error and the multiple of the quotient, over one denominator
  have herr : (c : ℝ) * (2 ^ k * taylorError (n + 1)) * ((n + 1).factorial ^ k *
      ((n + 1 + 1).factorial * (n + 1 + 1))) =
        c * 2 ^ k * (n + 1 + 2) * (n + 1).factorial ^ k := by
    unfold taylorError
    push_cast
    field_simp
  have hy : (c : ℝ) * (y / (n + 1).factorial ^ k) * ((n + 1).factorial ^ k *
      ((n + 1 + 1).factorial * (n + 1 + 1))) =
        c * y * ((n + 1 + 1).factorial * (n + 1 + 1)) := by
    field_simp
  have hlow : (t : ℝ) + c * (2 ^ k * taylorError (n + 1)) ≤ c * (y / (n + 1).factorial ^ k) := by
    refine le_of_mul_le_mul_right ?_ (mul_pos hD hE)
    rw [add_mul, herr, hy]
    exact hle'
  have hhigh : (c : ℝ) * (y / (n + 1).factorial ^ k) + c * (2 ^ k * taylorError (n + 1)) < t + 1 := by
    refine lt_of_mul_lt_mul_right ?_ (mul_pos hD hE).le
    rw [add_mul, herr, hy]
    exact hlt'
  have hc := mul_le_mul_of_nonneg_left (abs_le.1 hsin).1 (Nat.cast_nonneg (α := ℝ) c)
  have hc' := mul_le_mul_of_nonneg_left (abs_le.1 hsin).2 (Nat.cast_nonneg (α := ℝ) c)
  rw [Nat.floor_eq_iff (by positivity)]
  constructor <;> nlinarith

end Sines
