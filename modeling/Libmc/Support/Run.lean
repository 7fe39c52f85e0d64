import Mathlib.Logic.Relation
import Mathlib.Tactic

/-!
# Runs of a transition system

A run is the list of its steps, each with the states before and after it. An invariant that the
steps preserve under a condition holds at the end of a run whose steps all meet it (`Run.invariant`).
A property of steps that the invariant gives under the condition, and that fails without it, holds
of all steps of a run exactly when the condition does (`Run.forall_iff`). A run of a system that
refines another is a run of the other (`Run.map`). A run goes on with a list of events that each
determine the next state (`Run.trace`).
-/

structure Transition (σ ε : Type*) where
  before : σ
  event : ε
  after : σ

/-- The step as it is seen through `f`. -/
def Transition.map {σ τ ε : Type*} (f : σ → τ) (t : Transition σ ε) : Transition τ ε :=
  ⟨f t.before, t.event, f t.after⟩

/-- The steps that a list of events takes from a state, if each determines the next one. -/
def Transition.trace {σ ε : Type*} (exec : σ → ε → σ) (s : σ) : List ε → List (Transition σ ε)
  | [] => []
  | ev :: evs => ⟨s, ev, exec s ev⟩ :: trace exec (exec s ev) evs

theorem Transition.trace_append {σ ε : Type*} (exec : σ → ε → σ) (s : σ) (evs evs' : List ε) :
    trace exec s (evs ++ evs') = trace exec s evs ++ trace exec (evs.foldl exec s) evs' := by
  induction evs generalizing s with
  | nil => rfl
  | cons ev evs ih => exact congrArg (_ :: ·) (ih _)

theorem Transition.after_of_mem_trace {σ ε : Type*} {exec : σ → ε → σ} {s : σ} {evs : List ε}
    {t : Transition σ ε} (h : t ∈ trace exec s evs) : t.after = exec t.before t.event := by
  induction evs generalizing s with
  | nil => cases h
  | cons ev evs ih =>
    rcases List.mem_cons.1 h with rfl | h
    · rfl
    · exact ih h

/-- A run from `s₀`, the latest step at the end. -/
inductive Run {σ ε : Type*} (step : σ → ε → σ → Prop) (s₀ : σ) : List (Transition σ ε) → σ → Prop
  | nil : Run step s₀ [] s₀
  | snoc {tr : List (Transition σ ε)} {s s' : σ} {ev : ε} (h : Run step s₀ tr s)
      (hs : step s ev s') : Run step s₀ (tr ++ [⟨s, ev, s'⟩]) s'

namespace Run

variable {σ ε : Type*} {step : σ → ε → σ → Prop} {s₀ s : σ} {tr : List (Transition σ ε)}
  {I : σ → Prop} {C : σ → ε → Prop} {P : Transition σ ε → Prop}

/-- An invariant of the steps that meet a condition. -/
theorem invariant (h : Run step s₀ tr s) (h0 : I s₀)
    (hstep : ∀ s ev s', I s → step s ev s' → C s ev → I s')
    (hC : ∀ t ∈ tr, C t.before t.event) : I s := by
  induction h with
  | nil => exact h0
  | snoc _ hs ih =>
    obtain ⟨hprev, hlast⟩ := List.forall_mem_append.1 hC
    exact hstep _ _ _ (ih hprev) hs (hlast _ (List.mem_singleton_self _))

/-- A run whose steps all meet a condition is one of the system that has only these steps. -/
theorem restrict (h : Run step s₀ tr s) (hC : ∀ t ∈ tr, C t.before t.event) :
    Run (fun s ev s' => step s ev s' ∧ C s ev) s₀ tr s := by
  induction h with
  | nil => exact .nil
  | snoc _ hs ih =>
    obtain ⟨hprev, hlast⟩ := List.forall_mem_append.1 hC
    exact (ih hprev).snoc ⟨hs, hlast _ (List.mem_singleton_self _)⟩

/-- What an invariant gives for each step. -/
theorem forall_of (h : Run step s₀ tr s) (h0 : I s₀)
    (hstep : ∀ s ev s', I s → step s ev s' → C s ev → I s' ∧ P ⟨s, ev, s'⟩)
    (hC : ∀ t ∈ tr, C t.before t.event) : ∀ t ∈ tr, P t := by
  induction h with
  | nil => exact List.forall_mem_nil _
  | snoc hrun hs ih =>
    obtain ⟨hprev, hlast⟩ := List.forall_mem_append.1 hC
    have hI := hrun.invariant h0 (fun s ev s' hI hs hC => (hstep s ev s' hI hs hC).1) hprev
    refine List.forall_mem_append.2 ⟨ih hprev, List.forall_mem_singleton.2 ?_⟩
    exact (hstep _ _ _ hI hs (hlast _ (List.mem_singleton_self _))).2

/-- A run is no longer than a measure that falls with every step. -/
theorem length_le {μ : σ → ℕ} (h : Run step s₀ tr s) (h0 : I s₀)
    (hstep : ∀ s ev s', I s → step s ev s' → I s' ∧ μ s' < μ s) : tr.length + μ s ≤ μ s₀ := by
  induction h with
  | nil => exact (Nat.zero_add _).le
  | @snoc tr s s' ev hrun hs ih =>
    have hI := hrun.invariant (C := fun _ _ => True) h0
      (fun s ev s' hI hs _ => (hstep s ev s' hI hs).1) fun _ _ => trivial
    have hlt := (hstep s ev s' hI hs).2
    rw [List.length_append, List.length_singleton]
    omega

/-- A run to an end, if there is always a next step before it, and a measure falls with every step. -/
theorem exists_end {μ : σ → ℕ} {Q : σ → Prop} (h0 : I s₀)
    (hstep : ∀ s ev s', I s → step s ev s' → I s' ∧ μ s' < μ s)
    (hnext : ∀ s, I s → Q s ∨ ∃ ev s', step s ev s') : ∃ tr s, Run step s₀ tr s ∧ I s ∧ Q s := by
  suffices hend : ∀ n s tr, μ s = n → Run step s₀ tr s → I s →
      ∃ tr s, Run step s₀ tr s ∧ I s ∧ Q s from hend _ s₀ [] rfl .nil h0
  intro n
  induction n using Nat.strongRecOn with
  | ind n ih =>
    intro s tr hμ hrun hI
    rcases hnext s hI with hQ | ⟨ev, s', hs⟩
    · exact ⟨tr, s, hrun, hI, hQ⟩
    · obtain ⟨hI', hlt⟩ := hstep s ev s' hI hs
      exact ih _ (hμ ▸ hlt) s' _ rfl (hrun.snoc hs) hI'

/-- A run of a system whose steps are steps of another along `f`. -/
theorem map {τ : Type*} {step' : τ → ε → τ → Prop} {f : σ → τ} (h : Run step s₀ tr s) (h0 : I s₀)
    (hstep : ∀ s ev s', I s → step s ev s' → I s' ∧ step' (f s) ev (f s')) :
    Run step' (f s₀) (tr.map (.map f)) (f s) := by
  have hI : ∀ {tr s}, Run step s₀ tr s → I s := fun h =>
    h.invariant (C := fun _ _ => True) h0 (fun s ev s' hI hs _ => (hstep s ev s' hI hs).1)
      fun _ _ => trivial
  induction h with
  | nil => exact .nil
  | snoc hrun hs ih =>
    rw [List.map_append]
    exact ih.snoc (hstep _ _ _ (hI hrun) hs).2

theorem trace {exec : σ → ε → σ} {evs : List ε} (h : Run step s₀ tr s)
    (hstep : ∀ t ∈ Transition.trace exec s evs, step t.before t.event t.after) :
    Run step s₀ (tr ++ Transition.trace exec s evs) (evs.foldl exec s) := by
  induction evs generalizing s tr with
  | nil =>
    rw [Transition.trace, List.append_nil]
    exact h
  | cons ev evs ih =>
    obtain ⟨hfirst, hrest⟩ := List.forall_mem_cons.1 hstep
    have := ih (h.snoc hfirst) hrest
    rwa [List.append_assoc] at this

/-- A property of steps that holds exactly under a condition, as long as it has always held. -/
theorem forall_iff (h : Run step s₀ tr s) (h0 : I s₀)
    (hstep : ∀ s ev s', I s → step s ev s' → C s ev → I s' ∧ P ⟨s, ev, s'⟩)
    (hnot : ∀ s ev s', I s → step s ev s' → ¬ C s ev → ¬ P ⟨s, ev, s'⟩) :
    (∀ t ∈ tr, P t) ↔ ∀ t ∈ tr, C t.before t.event := by
  refine ⟨fun hP => ?_, h.forall_of h0 hstep⟩
  induction h with
  | nil => exact List.forall_mem_nil _
  | snoc hrun hs ih =>
    obtain ⟨hprev, hlast⟩ := List.forall_mem_append.1 hP
    have hI := hrun.invariant h0 (fun s ev s' hI hs hC => (hstep s ev s' hI hs hC).1) (ih hprev)
    refine List.forall_mem_append.2 ⟨ih hprev, List.forall_mem_singleton.2 ?_⟩
    by_contra hC
    exact hnot _ _ _ hI hs hC (hlast _ (List.mem_singleton_self _))

end Run
