import Mathlib.Logic.Relation
import Mathlib.Order.Basic
import Mathlib.Tactic

/-!
# Loops that may not end

A loop body `σ → σ ⊕ ρ` either goes round again with a new state or leaves with a result. `run`
goes round at most `n` times; `Returns` says that the loop leaves; `Reaches` says that it passes
through a state. Two loops whose bodies agree along a map run alike (`run_map`), and a loop that
stands still does not return (`not_returns_of_stuck`).
-/

namespace Loop

variable {σ ρ : Type*} {body : σ → σ ⊕ ρ} {s s' : σ} {r r' : ρ} {n m : ℕ}

/-- Go round the loop at most `n` times. -/
def run (body : σ → σ ⊕ ρ) : ℕ → σ → Option ρ
  | 0, _ => none
  | n + 1, s =>
    match body s with
    | .inl s' => run body n s'
    | .inr r => some r

/-- The loop started in `s` leaves with `r`. -/
def Returns (body : σ → σ ⊕ ρ) (s : σ) (r : ρ) : Prop := ∃ n, run body n s = some r

/-- The loop started in `s` comes to `s'`. -/
def Reaches (body : σ → σ ⊕ ρ) : σ → σ → Prop :=
  Relation.ReflTransGen fun s s' => body s = .inl s'

theorem run_succ_inl (h : body s = .inl s') : run body (n + 1) s = run body n s' := by
  simp only [run, h]

theorem run_succ_inr (h : body s = .inr r) : run body (n + 1) s = some r := by
  simp only [run, h]

/-- More rounds do not change a result. -/
theorem run_mono (hnm : n ≤ m) (h : run body n s = some r) : run body m s = some r := by
  induction n generalizing s m with
  | zero => simp [run] at h
  | succ n ih =>
    obtain ⟨m, rfl⟩ : ∃ k, m = k + 1 := ⟨m - 1, by omega⟩
    rcases hb : body s with s' | r'
    · rw [run_succ_inl hb] at h ⊢
      exact ih (by omega) h
    · rw [run_succ_inr hb] at h ⊢
      exact h

theorem Returns.unique (h : Returns body s r) (h' : Returns body s r') : r = r' := by
  obtain ⟨n, hn⟩ := h
  obtain ⟨m, hm⟩ := h'
  have h1 := run_mono (le_max_left n m) hn
  rw [run_mono (le_max_right n m) hm] at h1
  exact (Option.some.inj h1).symm

theorem returns_of_inr (h : body s = .inr r) : Returns body s r := ⟨1, run_succ_inr h⟩

theorem returns_of_inl (h : body s = .inl s') : Returns body s r ↔ Returns body s' r := by
  constructor
  · rintro ⟨n, hn⟩
    cases n with
    | zero => simp [run] at hn
    | succ n => exact ⟨n, by rwa [run_succ_inl h] at hn⟩
  · rintro ⟨n, hn⟩
    exact ⟨n + 1, by rwa [run_succ_inl h]⟩

/-- The result depends on the first round only. -/
theorem returns_congr (h : body s = body s') : Returns body s r ↔ Returns body s' r := by
  refine exists_congr fun n => ?_
  cases n with
  | zero => exact Iff.rfl
  | succ n => simp only [run, h]

/-- A loop that leaves does so from a state that it passes through. -/
theorem Returns.last (h : Returns body s r) : ∃ s', Reaches body s s' ∧ body s' = .inr r := by
  obtain ⟨n, hn⟩ := h
  induction n generalizing s with
  | zero => simp [run] at hn
  | succ n ih =>
    rcases hb : body s with s' | r'
    · rw [run_succ_inl hb] at hn
      obtain ⟨t, ht, hr⟩ := ih hn
      exact ⟨t, .head hb ht, hr⟩
    · rw [run_succ_inr hb] at hn
      exact ⟨s, .refl, hb.trans (congrArg _ (Option.some.inj hn))⟩

theorem Reaches.returns_iff (h : Reaches body s s') : Returns body s r ↔ Returns body s' r := by
  induction h with
  | refl => rfl
  | tail _ hb ih => rw [ih, returns_of_inl hb]

theorem Reaches.single (h : body s = .inl s') : Reaches body s s' :=
  Relation.ReflTransGen.single h

/-- The states that a loop passes through come one after the other. -/
theorem Reaches.total {t : σ} (h : Reaches body s s') (h' : Reaches body s t) :
    Reaches body s' t ∨ Reaches body t s' :=
  Relation.ReflTransGen.total_of_right_unique
    (fun _ _ _ hb hc => Sum.inl.inj (hb.symm.trans hc)) h h'

theorem Reaches.eq_of_inr (h : Reaches body s s') (hb : body s = .inr r) : s' = s := by
  rcases Relation.ReflTransGen.cases_head h with rfl | ⟨t, ht, -⟩
  · rfl
  · cases hb.symm.trans ht

theorem Reaches.of_inl {t : σ} (h : Reaches body s s') (hb : body s = .inl t) :
    s' = s ∨ Reaches body t s' := by
  rcases Relation.ReflTransGen.cases_head h with rfl | ⟨u, hu, h⟩
  · exact .inl rfl
  · obtain rfl := Sum.inl.inj (hu.symm.trans hb)
    exact .inr h

theorem Reaches.eq_of_stuck (h : Reaches body s s') (hb : body s = .inl s) : s' = s := by
  induction h with
  | refl => rfl
  | tail _ hs ih =>
    subst ih
    exact (Sum.inl.inj (hs.symm.trans hb))

/-- An invariant of the rounds holds of the states that the loop passes through. -/
theorem Reaches.invariant {I : σ → Prop} (h : Reaches body s s')
    (hI : ∀ s s', I s → body s = .inl s' → I s') (hs : I s) : I s' := by
  induction h with
  | refl => exact hs
  | tail _ hb ih => exact hI _ _ ih hb

/-- Two loops whose bodies agree along `f` on the states of `I` pass through the same states. -/
theorem Reaches.map_iff {τ π : Type*} {body' : τ → τ ⊕ π} {f : σ → τ} {g : ρ → π} {I : σ → Prop}
    (hI : ∀ s s', I s → body s = .inl s' → I s')
    (hf : ∀ s, I s → body' (f s) = Sum.map f g (body s)) (hs : I s) {t : τ} :
    Reaches body' (f s) t ↔ ∃ s', Reaches body s s' ∧ I s' ∧ f s' = t := by
  constructor
  · intro h
    induction h with
    | refl => exact ⟨s, .refl, hs, rfl⟩
    | tail _ hb ih =>
      obtain ⟨s', hreach, hs', rfl⟩ := ih
      rw [hf s' hs'] at hb
      rcases h : body s' with s'' | r
      · rw [h] at hb
        exact ⟨s'', hreach.tail h, hI _ _ hs' h, Sum.inl.inj hb⟩
      · rw [h] at hb
        cases hb
  · rintro ⟨s', h, -, rfl⟩
    induction h with
    | refl => exact .refl
    | @tail s' s'' h hb ih =>
      refine ih.tail ?_
      rw [hf s' (Reaches.invariant h hI hs), hb]
      rfl

/-- Two loops whose bodies agree along `f` on the states of `I` run alike. -/
theorem run_map {τ π : Type*} {body' : τ → τ ⊕ π} {f : σ → τ} {g : ρ → π} {I : σ → Prop}
    (hI : ∀ s s', I s → body s = .inl s' → I s')
    (hf : ∀ s, I s → body' (f s) = Sum.map f g (body s)) (hs : I s) :
    run body' n (f s) = (run body n s).map g := by
  induction n generalizing s with
  | zero => rfl
  | succ n ih =>
    have hb := hf s hs
    rcases h : body s with s' | r
    · rw [h] at hb
      rw [run_succ_inl h, run_succ_inl hb]
      exact ih (hI s s' hs h)
    · rw [h] at hb
      rw [run_succ_inr h, run_succ_inr hb]
      rfl

/-- An invariant of the rounds holds of the result, if leaving carries it over. -/
theorem run_invariant {I : σ → Prop} {J : ρ → Prop}
    (hI : ∀ s s', I s → body s = .inl s' → I s')
    (hJ : ∀ s r, I s → body s = .inr r → J r) (hs : I s) (h : run body n s = some r) : J r := by
  induction n generalizing s with
  | zero => simp [run] at h
  | succ n ih =>
    rcases hb : body s with s' | r'
    · rw [run_succ_inl hb] at h
      exact ih (hI s s' hs hb) h
    · rw [run_succ_inr hb] at h
      obtain rfl : r' = r := Option.some.inj h
      exact hJ s r' hs hb

theorem not_returns_of_stuck (h : body s = .inl s) : ¬ Returns body s r := by
  rintro ⟨n, hn⟩
  induction n with
  | zero => simp [run] at hn
  | succ n ih => exact ih (by rwa [run_succ_inl h] at hn)

end Loop
