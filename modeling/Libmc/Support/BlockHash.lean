import Mathlib.Data.List.Basic
import Mathlib.Tactic

/-!
# Hashes that read blocks

`absorb` takes the blocks of `n` elements off the front of a text, one after another, and leaves
what is less than a block. What comes in pieces is absorbed like the whole (`absorb_append`), so a
context that keeps the state and the rest of what it has read keeps it over every piece.
-/

namespace BlockHash

variable {α σ : Type*} {compress : σ → List α → σ} {n : ℕ} {s : σ} {xs ys : List α}

/-- Take `k` blocks in. -/
def absorbBlocks (compress : σ → List α → σ) (n : ℕ) : ℕ → σ → List α → σ × List α
  | 0, s, xs => (s, xs)
  | k + 1, s, xs => absorbBlocks compress n k (compress s (xs.take n)) (xs.drop n)

def absorb (compress : σ → List α → σ) (n : ℕ) (s : σ) (xs : List α) : σ × List α :=
  absorbBlocks compress n (xs.length / n) s xs

theorem absorb_of_lt (h : xs.length < n) : absorb compress n s xs = (s, xs) := by
  unfold absorb
  rw [Nat.div_eq_of_lt h]
  rfl

theorem absorb_of_le (hn : 0 < n) (h : n ≤ xs.length) :
    absorb compress n s xs = absorb compress n (compress s (xs.take n)) (xs.drop n) := by
  unfold absorb
  rw [List.length_drop, Nat.div_eq_sub_div hn h]
  rfl

theorem absorb_block_append (hn : 0 < n) (h : xs.length = n) :
    absorb compress n s (xs ++ ys) = absorb compress n (compress s xs) ys := by
  rw [absorb_of_le hn (by rw [List.length_append]; omega), List.take_left' h, List.drop_left' h]

/-- Induction over the blocks of a text. -/
theorem block_induction (compress : σ → List α → σ) (hn : 0 < n) {P : σ → List α → Prop}
    (hlt : ∀ s xs, xs.length < n → P s xs)
    (hle : ∀ s xs, n ≤ xs.length → P (compress s (xs.take n)) (xs.drop n) → P s xs) :
    ∀ s xs, P s xs := by
  intro s xs
  induction hlen : xs.length using Nat.strong_induction_on generalizing s xs with
  | _ len ih =>
    rcases Nat.lt_or_ge xs.length n with h | h
    · exact hlt s xs h
    · exact hle s xs h (ih _ (by rw [List.length_drop]; omega) _ _ rfl)

theorem absorb_append (hn : 0 < n) (s : σ) (xs ys : List α) : absorb compress n s (xs ++ ys) =
    absorb compress n (absorb compress n s xs).1 ((absorb compress n s xs).2 ++ ys) := by
  induction s, xs using block_induction compress hn with
  | hlt s xs h => rw [absorb_of_lt h]
  | hle s xs h ih =>
    rw [absorb_of_le hn h, ← ih, absorb_of_le hn (by rw [List.length_append]; omega),
      List.take_append_of_le_length h, List.drop_append_of_le_length h]

theorem length_absorb_snd (hn : 0 < n) (s : σ) (xs : List α) :
    (absorb compress n s xs).2.length = xs.length % n := by
  induction s, xs using block_induction compress hn with
  | hlt s xs h => rw [absorb_of_lt h, Nat.mod_eq_of_lt h]
  | hle s xs h ih => rw [absorb_of_le hn h, ih, List.length_drop, ← Nat.mod_eq_sub_mod h]

/-- Two hashes whose states correspond. -/
theorem absorb_map {τ : Type*} {compress' : τ → List α → τ} {f : σ → τ} (hn : 0 < n)
    (h : ∀ s block, block.length = n → f (compress s block) = compress' (f s) block)
    (s : σ) (xs : List α) : absorb compress' n (f s) xs =
      (f (absorb compress n s xs).1, (absorb compress n s xs).2) := by
  induction s, xs using block_induction compress hn with
  | hlt s xs hlt => rw [absorb_of_lt hlt, absorb_of_lt hlt]
  | hle s xs hle ih =>
    rw [absorb_of_le hn hle, absorb_of_le hn hle, ← h s _ (List.length_take_of_le hle), ih]

end BlockHash
