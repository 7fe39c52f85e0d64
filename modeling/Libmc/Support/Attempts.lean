import Mathlib.Tactic

/-!
# Attempts in order

Candidates are tried one after another; an attempt changes a state, and succeeds or not. `Failed`
says that each was tried and none succeeded, `Succeeded` that one did after all those before it had
failed. A list of candidates ends in one way only (`Failed.not_succeeded`).

If an attempt succeeds just when its candidate is up after it, the result of all attempts is the
first candidate that is up at the end (`Settles.run_eq_find`), also of attempts that leave all as it is
(`run_eq_find`): so attempts made again have the same result.
-/

namespace Attempts

variable {ι σ : Type*} {attempt : ι → σ → Bool × σ} {is js : List ι} {i : ι} {s t u : σ}

/-- The candidates are tried in order, and all of them fail. -/
def Failed (attempt : ι → σ → Bool × σ) : List ι → σ → σ → Prop
  | [], s, s' => s = s'
  | i :: is, s, s' => ∃ t, attempt i s = (false, t) ∧ Failed attempt is t s'

/-- The candidates before `i` are tried and fail, and then `i` succeeds. -/
def Succeeded (attempt : ι → σ → Bool × σ) (is : List ι) (i : ι) (s s' : σ) : Prop :=
  ∃ pre post t, is = pre ++ i :: post ∧ Failed attempt pre s t ∧ attempt i t = (true, s')

theorem Succeeded.mem (h : Succeeded attempt is i s t) : i ∈ is := by
  obtain ⟨pre, post, -, rfl, -⟩ := h
  exact List.mem_append_right _ List.mem_cons_self

theorem Succeeded.head (h : attempt i s = (true, t)) : Succeeded attempt (i :: is) i s t :=
  ⟨[], is, s, rfl, rfl, h⟩

theorem Succeeded.cons {j : ι} (hj : attempt j s = (false, t)) (h : Succeeded attempt is i t u) :
    Succeeded attempt (j :: is) i s u := by
  obtain ⟨pre, post, v, rfl, hpre, hi⟩ := h
  exact ⟨j :: pre, post, v, rfl, ⟨t, hj, hpre⟩, hi⟩

theorem failed_append : Failed attempt (is ++ js) s u ↔
    ∃ t, Failed attempt is s t ∧ Failed attempt js t u := by
  induction is generalizing s with
  | nil =>
    constructor
    · intro h
      exact ⟨s, rfl, h⟩
    · rintro ⟨t, rfl, h⟩
      exact h
  | cons i is ih =>
    constructor
    · rintro ⟨t, hi, h⟩
      obtain ⟨v, hv, hjs⟩ := ih.1 h
      exact ⟨v, ⟨t, hi, hv⟩, hjs⟩
    · rintro ⟨v, ⟨t, hi, hv⟩, hjs⟩
      exact ⟨t, hi, ih.2 ⟨v, hv, hjs⟩⟩

theorem Failed.unique (h : Failed attempt is s t) (h' : Failed attempt is s u) : t = u := by
  induction is generalizing s with
  | nil => exact h.symm.trans h'
  | cons i is ih =>
    obtain ⟨v, hv, h⟩ := h
    obtain ⟨w, hw, h'⟩ := h'
    obtain rfl : v = w := congrArg Prod.snd (hv.symm.trans hw)
    exact ih h h'

theorem Failed.not_succeeded (h : Failed attempt is s t) : ¬ Succeeded attempt is i s u := by
  rintro ⟨pre, post, v, rfl, hpre, hi⟩
  obtain ⟨w, hw, x, hx, -⟩ := failed_append.1 h
  obtain rfl := hpre.unique hw
  rw [hi] at hx
  cases hx

/-- Try the candidates up to the first that succeeds. -/
def run (attempt : ι → σ → Bool × σ) : List ι → σ → Option ι × σ
  | [], s => (none, s)
  | i :: is, s =>
    match attempt i s with
    | (true, t) => (some i, t)
    | (false, t) => run attempt is t

/-- An attempt succeeds when its candidate is up after it. It takes down none, and does nothing to
the others. -/
structure Settles (attempt : ι → σ → Bool × σ) (up : σ → ι → Bool) : Prop where
  result : ∀ i s, (attempt i s).1 = up (attempt i s).2 i
  keeps : ∀ i s, up s i = true → up (attempt i s).2 i = true
  others : ∀ i j s, j ≠ i → up (attempt i s).2 j = up s j

variable {up : σ → ι → Bool} {o : Option ι}

/-- An attempt that fails changes nothing. -/
theorem Settles.of_fails (h : Settles attempt up) (hi : attempt i s = (false, t)) : up t = up s := by
  have hdown : up t i = false := by
    have hresult := h.result i s
    rw [hi] at hresult
    exact hresult.symm
  funext j
  by_cases hj : j = i
  · subst hj
    have hkeeps := h.keeps j s
    rw [hi, hdown] at hkeeps
    rw [hdown]
    cases hup : up s j with
    | false => rfl
    | true => exact hkeeps hup
  · have hothers := h.others i j s hj
    rw [hi] at hothers
    exact hothers

theorem Settles.up_run (h : Settles attempt up) (hrun : run attempt is s = (o, t)) {j : ι}
    (hj : up t j = true) : up s j = true ∨ o = some j := by
  induction is generalizing s with
  | nil =>
    obtain ⟨-, rfl⟩ := Prod.mk.inj hrun
    exact .inl hj
  | cons i is ih =>
    unfold run at hrun
    rcases hi : attempt i s with ⟨_ | _, u⟩
    · rw [hi] at hrun
      rw [← h.of_fails hi]
      exact ih hrun
    · rw [hi] at hrun
      obtain ⟨rfl, rfl⟩ := Prod.mk.inj hrun
      by_cases hji : j = i
      · exact .inr (congrArg some hji.symm)
      · have hothers := h.others i j s hji
        rw [hi] at hothers
        exact .inl (hothers.symm.trans hj)

/-- **The result** is the first candidate that is up at the end. -/
theorem Settles.run_eq_find (h : Settles attempt up) (hrun : run attempt is s = (o, t)) :
    o = is.find? (up t) := by
  induction is generalizing s with
  | nil => exact (Prod.mk.inj hrun).1.symm
  | cons i is ih =>
    have hresult := h.result i s
    unfold run at hrun
    rcases hi : attempt i s with ⟨_ | _, u⟩
    · rw [hi] at hrun hresult
      rw [List.find?_cons]
      rcases hup : up t i with _ | _
      · exact ih hrun
      · -- it has come up in a later attempt
        have hlater := h.up_run hrun hup
        rw [← hresult] at hlater
        exact hlater.resolve_left Bool.false_ne_true
    · rw [hi] at hrun hresult
      obtain ⟨rfl, rfl⟩ := Prod.mk.inj hrun
      exact (List.find?_cons_of_pos hresult.symm).symm

theorem run_eq_find {I : σ → Prop} {u : ι → Bool}
    (hattempt : ∀ i s, I s → (attempt i s).1 = u i ∧ I (attempt i s).2) (h0 : I s)
    (hrun : run attempt is s = (o, t)) : o = is.find? u ∧ I t := by
  induction is generalizing s with
  | nil =>
    obtain ⟨rfl, rfl⟩ := Prod.mk.inj hrun
    exact ⟨rfl, h0⟩
  | cons i is ih =>
    obtain ⟨hresult, hI⟩ := hattempt i s h0
    unfold run at hrun
    rw [List.find?_cons, ← hresult]
    rcases hi : attempt i s with ⟨_ | _, v⟩
    · rw [hi] at hrun hI
      exact ih hI hrun
    · rw [hi] at hrun hI
      obtain ⟨rfl, rfl⟩ := Prod.mk.inj hrun
      exact ⟨rfl, hI⟩

end Attempts
