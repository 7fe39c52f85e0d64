import Mathlib.Data.List.Sort
import Mathlib.Data.Set.Function
import Mathlib.Tactic

/-!
# Points on a circle

Points carry a hash from a linear order, and the order is closed to a circle. The successor of `h`
is the first point from `h` on, clockwise: the smallest point that is not before `h`, or the
smallest of all when every point is before `h`. If the hashes are distinct there is at most one
(`IsSuccessor.unique`); taking other points away does not change it (`IsSuccessor.of_subset`); a
sorted list finds it by its lower bound (`isSuccessor_lowerBound`).
-/

namespace HashRing

variable {ι α : Type*} [LinearOrder α] {hash : ι → α} {S T : Set ι} {h : α} {p q : ι}

/-- `p` is the first point of `S` from `h` on, clockwise. -/
def IsSuccessor (hash : ι → α) (S : Set ι) (h : α) (p : ι) : Prop :=
  p ∈ S ∧ ((h ≤ hash p ∧ ∀ q ∈ S, h ≤ hash q → hash p ≤ hash q) ∨
    ((∀ q ∈ S, hash q < h) ∧ ∀ q ∈ S, hash p ≤ hash q))

theorem IsSuccessor.le (hp : IsSuccessor hash S h p) (hq : IsSuccessor hash S h q) :
    hash p ≤ hash q := by
  obtain ⟨hpS, ⟨hle, hmin⟩ | ⟨-, hmin⟩⟩ := hp
  · obtain ⟨hqS, ⟨hle', -⟩ | ⟨hlt, -⟩⟩ := hq
    · exact hmin q hqS hle'
    · exact absurd hle (not_le.2 (hlt p hpS))
  · exact hmin q hq.1

/-- A point comes first from its own hash on. -/
theorem IsSuccessor.of_mem (hp : p ∈ S) : IsSuccessor hash S (hash p) p :=
  ⟨hp, .inl ⟨le_rfl, fun _ _ hle => hle⟩⟩

/-- Distinct hashes have at most one successor. -/
theorem IsSuccessor.unique (hS : S.InjOn hash) (hp : IsSuccessor hash S h p)
    (hq : IsSuccessor hash S h q) : p = q :=
  hS hp.1 hq.1 (le_antisymm (hp.le hq) (hq.le hp))

/-- A successor stays one among other points that have no other hashes. -/
theorem IsSuccessor.transfer {κ : Type*} {hash' : κ → α} {S' : Set κ} {p' : κ}
    (hp : IsSuccessor hash S h p) (hp' : p' ∈ S') (heq : hash' p' = hash p)
    (hS : ∀ q' ∈ S', ∃ q ∈ S, hash q = hash' q') : IsSuccessor hash' S' h p' := by
  obtain ⟨-, ⟨hle, hmin⟩ | ⟨hlt, hmin⟩⟩ := hp
  · refine ⟨hp', .inl ⟨heq ▸ hle, fun q' hq' hle' => ?_⟩⟩
    obtain ⟨q, hq, hqq⟩ := hS q' hq'
    rw [heq, ← hqq]
    exact hmin q hq (hqq ▸ hle')
  · refine ⟨hp', .inr ⟨fun q' hq' => ?_, fun q' hq' => ?_⟩⟩
    · obtain ⟨q, hq, hqq⟩ := hS q' hq'
      exact hqq ▸ hlt q hq
    · obtain ⟨q, hq, hqq⟩ := hS q' hq'
      rw [heq, ← hqq]
      exact hmin q hq

/-- A successor stays one when other points are taken away. -/
theorem IsSuccessor.of_subset (hST : S ⊆ T) (hpS : p ∈ S) (hp : IsSuccessor hash T h p) :
    IsSuccessor hash S h p := hp.transfer hpS rfl fun q hq => ⟨q, hST hq, rfl⟩

/-- The end of the initial segment of the points before `h`. -/
def lowerBound (hash : ι → α) (l : List ι) (h : α) : ℕ := l.findIdx fun p => h ≤ hash p

/-- The lower bound of a sorted list, or its first point when that is the end of the list, is the
successor. -/
theorem isSuccessor_lowerBound {l : List ι} (hl : l.Pairwise fun p q => hash p ≤ hash q)
    (hp : l[if lowerBound hash l h = l.length then 0 else lowerBound hash l h]? = some p) :
    IsSuccessor hash {q | q ∈ l} h p := by
  have hmem : p ∈ l := List.mem_of_getElem? hp
  split_ifs at hp with hend
  · -- every point is before `h`
    have hlt : ∀ q ∈ l, hash q < h := by
      intro q hq
      by_contra hle
      have hfound : lowerBound hash l h < l.length :=
        List.findIdx_lt_length.2 ⟨q, hq, decide_eq_true (not_lt.1 hle)⟩
      omega
    refine ⟨hmem, .inr ⟨hlt, fun q hq => ?_⟩⟩
    obtain ⟨l', rfl⟩ : ∃ l', l = p :: l' := by
      cases l with
      | nil => cases hmem
      | cons a l' => exact ⟨l', by rw [List.getElem?_cons_zero] at hp; rw [Option.some.inj hp]⟩
    rcases List.mem_cons.1 hq with rfl | hq
    · exact le_rfl
    · exact (List.pairwise_cons.1 hl).1 q hq
  · obtain ⟨hlt, rfl⟩ := List.getElem?_eq_some_iff.1 hp
    have hle : h ≤ hash l[lowerBound hash l h] :=
      of_decide_eq_true (List.findIdx_getElem (p := fun p => decide (h ≤ hash p)) (w := hlt))
    refine ⟨hmem, .inl ⟨hle, fun q hq hq' => ?_⟩⟩
    obtain ⟨j, hj, rfl⟩ := List.getElem_of_mem hq
    rcases lt_trichotomy j (lowerBound hash l h) with hjlt | rfl | hgt
    · exact absurd hq' (of_decide_eq_false (List.not_of_lt_findIdx hjlt))
    · exact le_rfl
    · exact List.pairwise_iff_getElem.1 hl _ _ hlt hj hgt

end HashRing
