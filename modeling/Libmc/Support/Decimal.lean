import Mathlib.Data.List.Basic
import Mathlib.Tactic

/-!
# Decimal numerals

`numeral n` is the decimal numeral of `n` in ASCII, without leading zeros, and `value` is the number
that a string of digits stands for. Reading back a numeral gives the number (`value_numeral`).
-/

namespace Decimal

/-- The number a digit string stands for, from `v` on. -/
def valueFrom (v : ℕ) (ds : List UInt8) : ℕ := ds.foldl (fun v c => v * 10 + (c.toNat - 48)) v

/-- The number a digit string stands for. -/
def value (ds : List UInt8) : ℕ := valueFrom 0 ds

/-- The digit of `d < 10`. -/
def digit (d : ℕ) : UInt8 := UInt8.ofNat (48 + d)

/-- The decimal numeral of `n`. -/
def numeral (n : ℕ) : List UInt8 :=
  if _h : n < 10 then [digit n] else numeral (n / 10) ++ [digit (n % 10)]
termination_by n
decreasing_by omega

variable {n d : ℕ} {c : UInt8}

theorem numeral_of_lt (h : n < 10) : numeral n = [digit n] := by
  rw [numeral, dif_pos h]

theorem numeral_of_ge (h : 10 ≤ n) : numeral n = numeral (n / 10) ++ [digit (n % 10)] := by
  rw [numeral, dif_neg (by omega)]

theorem digit_toNat (h : d < 10) : (digit d).toNat = 48 + d := by
  unfold digit
  rw [UInt8.toNat_ofNat']
  omega

theorem digit_bounds (h : d < 10) : 48 ≤ digit d ∧ digit d ≤ 57 := by
  rw [UInt8.le_iff_toNat_le, UInt8.le_iff_toNat_le, digit_toNat h]
  constructor
  · exact Nat.le_add_right 48 d
  · show 48 + d ≤ 57
    omega

theorem valueFrom_append (v : ℕ) (ds es : List UInt8) :
    valueFrom v (ds ++ es) = valueFrom (valueFrom v ds) es := List.foldl_append

theorem value_numeral (n : ℕ) : value (numeral n) = n := by
  induction n using Nat.strong_induction_on with
  | _ n ih =>
    rcases Nat.lt_or_ge n 10 with h | h
    · rw [numeral_of_lt h]
      simp [value, valueFrom, digit_toNat h]
    · have hq := ih (n / 10) (by omega)
      have hd : n % 10 < 10 := by omega
      unfold value at hq ⊢
      rw [numeral_of_ge h, valueFrom_append, hq]
      simp only [valueFrom, List.foldl_cons, List.foldl_nil, digit_toNat hd]
      omega

theorem bounds_of_mem_numeral (h : c ∈ numeral n) : 48 ≤ c ∧ c ≤ 57 := by
  induction n using Nat.strong_induction_on with
  | _ n ih =>
    rcases Nat.lt_or_ge n 10 with hn | hn
    · rw [numeral_of_lt hn] at h
      obtain rfl := List.mem_singleton.1 h
      exact digit_bounds hn
    · rw [numeral_of_ge hn] at h
      rcases List.mem_append.1 h with h | h
      · exact ih (n / 10) (by omega) h
      · obtain rfl := List.mem_singleton.1 h
        exact digit_bounds (by omega)

/-- The last `k` digits of `n`. -/
def pad : ℕ → ℕ → List UInt8
  | 0, _ => []
  | k + 1, n => pad k (n / 10) ++ [digit (n % 10)]

theorem numeral_add {a r : ℕ} (k : ℕ) (ha : 0 < a) (hr : r < 10 ^ k) :
    numeral (a * 10 ^ k + r) = numeral a ++ pad k r := by
  induction k generalizing r with
  | zero =>
    obtain rfl : r = 0 := by omega
    simp [pad]
  | succ k ih =>
    have hpos := Nat.mul_pos ha (Nat.pow_pos (n := k) (show 0 < 10 by decide))
    rw [pow_succ, ← Nat.mul_assoc]
    rw [pow_succ] at hr
    have hdiv : (a * 10 ^ k * 10 + r) / 10 = a * 10 ^ k + r / 10 := by omega
    have hmod : (a * 10 ^ k * 10 + r) % 10 = r % 10 := by omega
    rw [numeral_of_ge (by omega), hdiv, hmod, ih (by omega), pad, List.append_assoc]

def signed (n : ℤ) : List UInt8 := if n < 0 then 45 :: numeral n.natAbs else numeral n.natAbs

theorem signed_of_neg {n : ℤ} (h : n < 0) : signed n = 45 :: numeral n.natAbs := if_pos h

theorem signed_of_nonneg {n : ℤ} (h : 0 ≤ n) : signed n = numeral n.natAbs := if_neg (by omega)

theorem numeral_ne_nil (n : ℕ) : numeral n ≠ [] := by
  rcases Nat.lt_or_ge n 10 with hn | hn
  · rw [numeral_of_lt hn]
    exact List.cons_ne_nil _ _
  · rw [numeral_of_ge hn]
    simp

/-- A numeral that is cut off is a numeral. -/
theorem numeral_of_prefix {p : List UInt8} (h : p <+: numeral n) (hp : p ≠ []) :
    ∃ m, p = numeral m ∧ (0 < n → 0 < m) := by
  induction n using Nat.strong_induction_on with
  | _ n ih =>
    rcases Nat.lt_or_ge n 10 with hn | hn
    · rw [numeral_of_lt hn] at h
      rcases List.prefix_cons_iff.1 h with rfl | ⟨q, rfl, hq⟩
      · exact absurd rfl hp
      · rw [List.prefix_nil.1 hq]
        exact ⟨n, (numeral_of_lt hn).symm, id⟩
    · have hwhole := numeral_of_ge hn
      rw [hwhole] at h
      rcases List.prefix_concat_iff.1 h with rfl | hcut
      · exact ⟨n, hwhole.symm, id⟩
      · obtain ⟨m, hm, hpos⟩ := ih (n / 10) (by omega) hcut
        exact ⟨m, hm, fun _ => hpos (by omega)⟩

theorem signed_of_prefix {n : ℤ} {p : List UInt8} (h : p <+: signed n) (hp : 2 ≤ p.length) :
    ∃ m, p = signed m := by
  rcases lt_or_ge n 0 with hn | hn
  · rw [signed_of_neg hn] at h
    rcases List.prefix_cons_iff.1 h with rfl | ⟨q, rfl, hq⟩
    · cases hp
    · have hne : q ≠ [] := by
        rintro rfl
        exact absurd hp (by decide)
      obtain ⟨m, rfl, hpos⟩ := numeral_of_prefix hq hne
      have hm := hpos (Int.natAbs_pos.2 hn.ne)
      exact ⟨-m, by rw [signed_of_neg (by omega), Int.natAbs_neg, Int.natAbs_natCast]⟩
  · rw [signed_of_nonneg hn] at h
    have hne : p ≠ [] := by
      rintro rfl
      exact absurd hp (by decide)
    obtain ⟨m, rfl, -⟩ := numeral_of_prefix h hne
    exact ⟨m, by rw [signed_of_nonneg (by omega), Int.natAbs_natCast]⟩

theorem length_numeral_le {k : ℕ} (h : n < 10 ^ (k + 1)) : (numeral n).length ≤ k + 1 := by
  induction k generalizing n with
  | zero =>
    rw [numeral_of_lt (by simpa using h)]
    exact le_rfl
  | succ k ih =>
    rcases Nat.lt_or_ge n 10 with hn | hn
    · rw [numeral_of_lt hn]
      exact Nat.le_add_left 1 (k + 1)
    · have hdiv := ih (n := n / 10) (Nat.div_lt_of_lt_mul (by rwa [pow_succ'] at h))
      rw [numeral_of_ge hn, List.length_append]
      exact Nat.succ_le_succ hdiv

end Decimal
