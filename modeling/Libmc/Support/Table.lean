import Mathlib.Logic.Function.Basic
import Mathlib.Tactic

/-!
# Filling a table

A loop puts an entry for each element of a list into a table. An entry for a key that is there already
replaces the old one. The loop fails if an element has no entry.
-/

namespace Table

variable {α κ β : Type*} [DecidableEq κ] {f : α → Option (κ × β)} {t t' : κ → Option β} {l : List α}

/-- Put the entries of the elements into a table. -/
def fill (f : α → Option (κ × β)) : (κ → Option β) → List α → Option (κ → Option β)
  | t, [] => some t
  | t, a :: l => (f a).bind fun e => fill f (Function.update t e.1 (some e.2)) l

/-- Every place of the table is as before, or has an entry of an element. -/
theorem fill_cases (h : fill f t l = some t') (k : κ) :
    (t' k = t k ∧ ∀ a ∈ l, ∀ v, f a ≠ some (k, v)) ∨ ∃ a ∈ l, ∃ v, f a = some (k, v) ∧ t' k = some v := by
  induction l generalizing t with
  | nil =>
    obtain rfl := Option.some.inj h
    exact .inl ⟨rfl, List.forall_mem_nil _⟩
  | cons a l ih =>
    obtain ⟨⟨k', v⟩, hv, hrest⟩ := Option.bind_eq_some_iff.1 h
    rcases ih hrest with ⟨hsame, hnone⟩ | ⟨b, hb, hentry⟩
    · by_cases hk : k' = k
      · subst hk
        exact .inr ⟨a, List.mem_cons_self, v, hv, hsame.trans (Function.update_self ..)⟩
      · refine .inl ⟨hsame.trans (Function.update_of_ne (Ne.symm hk) ..), ?_⟩
        refine List.forall_mem_cons.2 ⟨fun w hw => hk ?_, hnone⟩
        exact congrArg Prod.fst (Option.some.inj (hv.symm.trans hw))
    · exact .inr ⟨b, List.mem_cons_of_mem _ hb, hentry⟩

/-- What is in a table that was empty, if no entry replaces a different one. -/
theorem fill_eq_some_iff (h : fill f (fun _ => none) l = some t')
    (hsame : ∀ a ∈ l, ∀ b ∈ l, ∀ k v w, f a = some (k, v) → f b = some (k, w) → v = w) {k : κ}
    {v : β} : t' k = some v ↔ ∃ a ∈ l, f a = some (k, v) := by
  rcases fill_cases h k with ⟨hnone, hno⟩ | ⟨b, hb, w, hentry, hw⟩
  · rw [hnone]
    refine iff_of_false nofun ?_
    rintro ⟨a, ha, hv⟩
    exact hno a ha v hv
  · rw [hw]
    constructor
    · intro heq
      obtain rfl := Option.some.inj heq
      exact ⟨b, hb, hentry⟩
    · rintro ⟨a, ha, hv⟩
      rw [hsame a ha b hb k v w hv hentry]

theorem exists_fill (h : ∀ a ∈ l, ∃ e, f a = some e) (t : κ → Option β) :
    ∃ t', fill f t l = some t' := by
  induction l generalizing t with
  | nil => exact ⟨t, rfl⟩
  | cons a l ih =>
    obtain ⟨⟨e, he⟩, hl⟩ := List.forall_mem_cons.1 h
    obtain ⟨t', ht'⟩ := ih hl (Function.update t e.1 (some e.2))
    refine ⟨t', ?_⟩
    rw [fill, he]
    exact ht'

theorem exists_of_fill (h : fill f t l = some t') : ∀ a ∈ l, ∃ e, f a = some e := by
  induction l generalizing t with
  | nil => exact List.forall_mem_nil _
  | cons a l ih =>
    obtain ⟨e, he, hrest⟩ := Option.bind_eq_some_iff.1 h
    exact List.forall_mem_cons.2 ⟨⟨e, he⟩, ih hrest⟩

end Table
