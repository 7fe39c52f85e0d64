import Mathlib.Logic.Function.Basic
import Mathlib.Logic.Relation
import Mathlib.Tactic

/-!
# Threads that wait for locks

Every place of a program says which locks a thread holds there and for which one it waits. A lock is
held by one thread alone, or shared by several. Steps that take only locks that are granted keep the
exclusion (`Exclusion.update`). A deadlock is a circle of threads each of which waits for a lock that
the next one holds; there is none if a rank goes up along every thread that holds one lock and waits
for another (`not_deadlocked`), as it does when locks are taken in order.
-/

/-- How a lock is held. -/
inductive LockMode
  | shared
  | exclusive
  deriving DecidableEq, Repr

def LockMode.Excludes (m m' : LockMode) : Prop := m = .exclusive ∨ m' = .exclusive

instance (m m' : LockMode) : Decidable (m.Excludes m') :=
  inferInstanceAs (Decidable (m = .exclusive ∨ m' = .exclusive))

/-- The places `π` of a program with locks `Λ`. -/
structure Locking (π Λ : Type*) where
  holds : π → List (Λ × LockMode)
  wants : π → Option (Λ × LockMode)

namespace Locking

variable {π Λ T : Type*} {L : Locking π Λ} {σ : T → π} {t u : T} {pc : π}

/-- `t` waits for a lock that `u` holds. -/
def WaitsFor (L : Locking π Λ) (σ : T → π) (t u : T) : Prop :=
  ∃ l m m', L.wants (σ t) = some (l, m) ∧ (l, m') ∈ L.holds (σ u) ∧ m.Excludes m'

/-- Some threads wait for each other in a circle. -/
def Deadlocked (L : Locking π Λ) (σ : T → π) : Prop :=
  ∃ t, Relation.TransGen (L.WaitsFor σ) t t

def Grants (L : Locking π Λ) (σ : T → π) (l : Λ) (m : LockMode) : Prop :=
  ∀ u m', (l, m') ∈ L.holds (σ u) → ¬ m.Excludes m'

/-- No two threads hold a lock in modes that exclude each other. -/
def Exclusion (L : Locking π Λ) (σ : T → π) : Prop :=
  ∀ t u l m m', t ≠ u → (l, m) ∈ L.holds (σ t) → (l, m') ∈ L.holds (σ u) → ¬ m.Excludes m'

/-- A thread goes to a place where it holds nothing but what it held and what it has waited for. -/
def Follows (L : Locking π Λ) (pc pc' : π) : Prop :=
  ∀ x ∈ L.holds pc', x ∈ L.holds pc ∨ L.wants pc = some x

theorem Exclusion.update [DecidableEq T] (h : L.Exclusion σ) (hpc : L.Follows (σ t) pc)
    (hgrant : ∀ l m, L.wants (σ t) = some (l, m) → L.Grants σ l m) :
    L.Exclusion (Function.update σ t pc) := by
  -- what a thread holds now does not exclude what the others hold
  have hnew : ∀ u l m m', t ≠ u → (l, m) ∈ L.holds pc → (l, m') ∈ L.holds (σ u) →
      ¬ m.Excludes m' := by
    intro u l m m' hne hm hm'
    rcases hpc _ hm with hold | hwant
    · exact h t u l m m' hne hold hm'
    · exact hgrant l m hwant u m' hm'
  intro u v l m m' hne hm hm' hexcl
  rw [Function.update_apply] at hm hm'
  split_ifs at hm hm' with hu hv
  · exact hne (hu.trans hv.symm)
  · exact hnew v l m m' (hu ▸ hne) hm hm' hexcl
  · rename_i hv
    exact hnew u l m' m (fun h => hne (h.symm.trans hv.symm)) hm' hm hexcl.symm
  · exact h u v l m m' hne hm hm' hexcl

theorem transGen_waits (h : Relation.TransGen (L.WaitsFor σ) t u) : ∃ v, L.WaitsFor σ t v := by
  induction h with
  | single h => exact ⟨_, h⟩
  | tail _ _ ih => exact ih

/-- **No deadlock.** A rank goes up from each thread to the next, as long as that one waits too. -/
theorem not_deadlocked (rank : T → ℕ)
    (h : ∀ t u v, L.WaitsFor σ t u → L.WaitsFor σ u v → rank t < rank u) : ¬ L.Deadlocked σ := by
  have hrank : ∀ t u, Relation.TransGen (L.WaitsFor σ) t u → (∃ v, L.WaitsFor σ u v) →
      rank t < rank u := by
    intro t u htu
    induction htu with
    | single htu =>
      rintro ⟨v, huv⟩
      exact h _ _ v htu huv
    | tail _ hub ih =>
      rintro ⟨v, hbv⟩
      exact (ih ⟨_, hub⟩).trans (h _ _ v hub hbv)
  rintro ⟨t, ht⟩
  exact lt_irrefl _ (hrank t t ht (transGen_waits ht))

theorem deadlocked_of_pair (h : L.WaitsFor σ t u) (h' : L.WaitsFor σ u t) : L.Deadlocked σ :=
  ⟨t, .tail (.single h) h'⟩

end Locking
