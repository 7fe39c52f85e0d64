import Mathlib.Tactic

/-!
# Shards of a store

An operation on a store has a key; it reads and changes the value of this key only. So the keys can
be divided among several stores. What an operation gives in its own store is what it gives in one
store that has all the keys, and so is what becomes of the values (`Shard.answers`, `Shard.serve`),
and the stores together give what the one store gives (`perm_flatMap_filter`).
-/

namespace Shards

variable {K V O R : Type*} [DecidableEq K] (key : O → K) (exec : O → V → V × R)

def serve (m : K → V) (o : O) : K → V := Function.update m (key o) (exec o (m (key o))).1

/-- The operations, each with what it gives. -/
def answers : (K → V) → List O → List (O × R)
  | _, [] => []
  | m, o :: os => (o, (exec o (m (key o))).2) :: answers (serve key exec m o) os

/-- What an operation gives depends on its own key. -/
structure Shard (own : K → Bool) (m m' : K → V) : Prop where
  eq : ∀ k, own k = true → m' k = m k

variable {key exec} {own : K → Bool} {m m' : K → V} {o : O} {os : List O}

theorem answers_cons (m : K → V) (o : O) (os : List O) : answers key exec m (o :: os) =
    (o, (exec o (m (key o))).2) :: answers key exec (serve key exec m o) os := rfl

theorem answers_map_fst (m : K → V) (os : List O) : (answers key exec m os).map Prod.fst = os := by
  induction os generalizing m with
  | nil => rfl
  | cons o os ih => exact congrArg (_ :: ·) (ih _)

theorem serve_self (m : K → V) (o : O) :
    serve key exec m o (key o) = (exec o (m (key o))).1 := Function.update_self _ _ _

theorem serve_of_ne {k : K} (h : k ≠ key o) (m : K → V) : serve key exec m o k = m k :=
  Function.update_of_ne h _ _

theorem Shard.step (exec : O → V → V × R) (h : Shard own m m') (ho : own (key o) = true) :
    Shard own (serve key exec m o) (serve key exec m' o) ∧
      (exec o (m' (key o))).2 = (exec o (m (key o))).2 := by
  have hvalue := h.eq _ ho
  refine ⟨⟨fun k hk => ?_⟩, by rw [hvalue]⟩
  by_cases hkey : k = key o
  · subst hkey
    rw [serve_self, serve_self, hvalue]
  · rw [serve_of_ne hkey, serve_of_ne hkey]
    exact h.eq k hk

theorem Shard.skip (h : Shard own m m') (ho : own (key o) = false) :
    Shard own (serve key exec m o) m' where
  eq k hk := by
    have hkey : k ≠ key o := fun heq => by
      rw [heq, ho] at hk
      cases hk
    rw [serve_of_ne hkey]
    exact h.eq k hk

/-- **The values** of a shard. -/
theorem Shard.serve (h : Shard own m m') (os : List O) :
    Shard own (os.foldl (Shards.serve key exec) m)
      ((os.filter fun o => own (key o)).foldl (Shards.serve key exec) m') := by
  induction os generalizing m m' with
  | nil => exact h
  | cons o os ih =>
    rcases ho : own (key o) with _ | _
    · rw [List.filter_cons_of_neg (by simp [ho])]
      exact ih (h.skip ho)
    · rw [List.filter_cons_of_pos (p := fun o => own (key o)) ho]
      exact ih (h.step exec ho).1

/-- **What the operations give** in a shard. -/
theorem Shard.answers (h : Shard own m m') (os : List O) :
    Shards.answers key exec m' (os.filter fun o => own (key o)) =
      (Shards.answers key exec m os).filter fun x => own (key x.1) := by
  induction os generalizing m m' with
  | nil => rfl
  | cons o os ih =>
    rw [answers_cons]
    rcases ho : own (key o) with _ | _
    · rw [List.filter_cons_of_neg (by simp [ho]), List.filter_cons_of_neg (by simp [ho])]
      exact ih (h.skip ho)
    · obtain ⟨hnext, hanswer⟩ := h.step exec ho
      rw [List.filter_cons_of_pos (p := fun o => own (key o)) ho,
        List.filter_cons_of_pos (p := fun x : O × R => own (key x.1)) ho, answers_cons, hanswer,
        ih hnext]

end Shards

theorem perm_flatMap_filter {α ι : Type*} [DecidableEq ι] (f : α → ι) {is : List ι}
    (his : is.Nodup) {l : List α} (hl : ∀ x ∈ l, f x ∈ is) :
    (is.flatMap fun i => l.filter fun x => f x = i).Perm l := by
  induction l with
  | nil => simp
  | cons x l ih =>
    obtain ⟨hx, hl⟩ := List.forall_mem_cons.1 hl
    obtain ⟨before, after, rfl⟩ := List.append_of_mem hx
    have hbefore : ∀ i ∈ before, f x ≠ i := by
      rintro i hi rfl
      exact (List.nodup_append.1 his).2.2 _ hi _ List.mem_cons_self rfl
    have hafter : ∀ i ∈ after, f x ≠ i := by
      rintro i hi rfl
      exact (List.nodup_cons.1 (List.nodup_append.1 his).2.1).1 hi
    have hsame : ∀ i, f x ≠ i →
        (x :: l).filter (fun y => f y = i) = l.filter fun y => f y = i := fun i hi =>
      List.filter_cons_of_neg (by simpa using hi)
    have hself : (x :: l).filter (fun y => f y = f x) = x :: l.filter fun y => f y = f x :=
      List.filter_cons_of_pos (by simp)
    specialize ih hl
    rw [List.flatMap_append, List.flatMap_cons] at ih ⊢
    rw [List.flatMap_congr fun i hi => hsame i (hbefore i hi), hself,
      List.flatMap_congr fun i hi => hsame i (hafter i hi)]
    exact List.perm_middle.trans (ih.cons x)
