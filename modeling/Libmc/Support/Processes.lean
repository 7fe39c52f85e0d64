import Mathlib.Tactic

/-!
# Processes that hold things

A system is a list of processes. One of them takes a step and may start others. Counting how much
each process holds gives a sum, and a step that starts processes with nothing changes the sum by what
its own process gets or loses (`total_move`).
-/

namespace Processes

variable {γ : Type*} {procs started : List γ} {i : ℕ} {g g' x : γ}

/-- Process `i` goes on as `g'` and starts others. -/
def move (procs : List γ) (i : ℕ) (g' : γ) (started : List γ) : List γ := procs.set i g' ++ started

/-- How much all processes hold. -/
def total (w : γ → ℕ) (procs : List γ) : ℕ := (procs.map w).sum

theorem total_append (w : γ → ℕ) (l l' : List γ) : total w (l ++ l') = total w l + total w l' := by
  unfold total
  rw [List.map_append, List.sum_append]

theorem total_set (w : γ → ℕ) (h : procs[i]? = some g) (g' : γ) :
    total w (procs.set i g') + w g = total w procs + w g' := by
  unfold total
  induction procs generalizing i with
  | nil => cases h
  | cons x procs ih =>
    cases i with
    | zero =>
      obtain rfl : x = g := by simpa using h
      simp only [List.set_cons_zero, List.map_cons, List.sum_cons]
      omega
    | succ i =>
      have := ih (i := i) (by simpa using h)
      simp only [List.set_cons_succ, List.map_cons, List.sum_cons]
      omega

theorem total_modify (w : γ → ℕ) (h : procs[i]? = some g) (f : γ → γ) :
    total w (procs.modify i f) + w g = total w procs + w (f g) := by
  rw [List.modify_eq_set_getElem?, h]
  exact total_set w h (f g)

theorem total_eq_zero {w : γ → ℕ} (h : ∀ x ∈ procs, w x = 0) : total w procs = 0 := by
  unfold total
  rw [List.sum_eq_zero]
  intro n hn
  obtain ⟨x, hx, rfl⟩ := List.mem_map.1 hn
  exact h x hx

theorem total_move {w : γ → ℕ} (h : procs[i]? = some g) (g' : γ)
    (hstarted : ∀ x ∈ started, w x = 0) :
    total w (move procs i g' started) + w g = total w procs + w g' := by
  unfold move
  rw [total_append, total_eq_zero hstarted, Nat.add_zero]
  exact total_set w h g'

theorem le_total (w : γ → ℕ) (h : procs[i]? = some g) : w g ≤ total w procs :=
  List.single_le_sum (fun _ _ => Nat.zero_le _) _ (List.mem_map_of_mem (List.mem_of_getElem? h))

/-- Two different processes have at most what all have. -/
theorem add_le_total (w : γ → ℕ) (hg : g ∈ procs) (hx : x ∈ procs) (hne : g ≠ x) :
    w g + w x ≤ total w procs := by
  induction procs with
  | nil => cases hg
  | cons y procs ih =>
    unfold total at *
    rw [List.map_cons, List.sum_cons]
    have hle : ∀ z ∈ procs, w z ≤ (procs.map w).sum := fun z hz =>
      List.single_le_sum (fun _ _ => Nat.zero_le _) _ (List.mem_map_of_mem hz)
    rcases List.mem_cons.1 hg with rfl | hg'
    · exact Nat.add_le_add_left (hle x (List.mem_of_ne_of_mem hne.symm hx)) _
    · rcases List.mem_cons.1 hx with rfl | hx'
      · rw [Nat.add_comm]
        exact Nat.add_le_add_left (hle g hg') _
      · exact (ih hg' hx').trans (Nat.le_add_left _ _)

theorem mem_move (h : x ∈ move procs i g' started) : x = g' ∨ x ∈ procs ∨ x ∈ started := by
  rcases List.mem_append.1 h with h | h
  · rcases List.mem_or_eq_of_mem_set h with h | h
    · exact .inr (.inl h)
    · exact .inl h
  · exact .inr (.inr h)

end Processes
