import Libmc.Support.Loop

/-!
# Machines fed in pieces

A machine reads an input that arrives in pieces. Its loop either goes round, or leaves with a
code; the code `more` says that the input seen so far does not suffice, and then the machine is
given the next piece and called again. `Resumable` collects what makes this harmless: more input
does not change a round or a final result, and an unfinished call can be taken up where it stopped.
For such a machine the pieces do not matter (`feedPieces_of_whole`): if the loop returns on the
whole input, then feeding the pieces one by one ends with the same code and, once the unread
pieces are put back, in the same state.
-/

/-- A machine with states `σ`, input symbols `β` and result codes `ε`. -/
structure Incremental (σ β ε : Type*) where
  /-- Put input at the end of what is unread. -/
  feed : σ → List β → σ
  /-- What a call does before its loop. -/
  enter : σ → σ
  /-- One round of the loop. -/
  body : σ → σ ⊕ (ε × σ)
  /-- The code of a call that needs more input. -/
  more : ε

namespace Incremental

variable {σ τ β ε : Type*} {M : Incremental σ β ε} {s s' : σ} {e : ε} {n : ℕ}

/-- One call, of at most `n` rounds. -/
def call (M : Incremental σ β ε) (n : ℕ) (s : σ) : Option (ε × σ) := Loop.run M.body n (M.enter s)

/-- Feed the pieces one at a time, with a call after each, until a call is content: the last
code, the state it left and the pieces not fed. -/
def feedPieces [DecidableEq ε] (M : Incremental σ β ε) (n : ℕ) :
    σ → List (List β) → Option (ε × σ × List (List β))
  | _, [] => none
  | s, c :: cs =>
    match M.call n (M.feed s c) with
    | none => none
    | some (e, s') => if e = M.more ∧ cs ≠ [] then M.feedPieces n s' cs else some (e, s', cs)

theorem feedPieces_cons [DecidableEq ε] (s : σ) (c : List β) (cs : List (List β)) :
    M.feedPieces n s (c :: cs) = (M.call n (M.feed s c)).bind fun r =>
      if r.1 = M.more ∧ cs ≠ [] then M.feedPieces n r.2 cs else some (r.1, r.2, cs) := by
  simp only [feedPieces]
  rcases M.call n (M.feed s c) with _ | ⟨e, s'⟩ <;> rfl

/-- The pieces not fed are among those after the first, and there are none if more are needed. -/
theorem feedPieces_rest [DecidableEq ε] {cs rest : List (List β)}
    (h : M.feedPieces n s cs = some (e, s', rest)) :
    rest <:+ cs.tail ∧ (e = M.more → rest = []) := by
  induction cs generalizing s with
  | nil => cases h
  | cons c cs ih =>
    rw [feedPieces_cons] at h
    rcases hc : M.call n (M.feed s c) with _ | ⟨e', t⟩
    · rw [hc] at h
      cases h
    · rw [hc, Option.bind_some] at h
      split_ifs at h with hmore
      · obtain ⟨hsuf, hnil⟩ := ih h
        exact ⟨hsuf.trans (List.tail_suffix cs), hnil⟩
      · simp only [Option.some.injEq, Prod.mk.injEq] at h
        obtain ⟨rfl, rfl, rfl⟩ := h
        exact ⟨List.suffix_rfl, fun he => by simpa [he] using hmore⟩

theorem feedPieces_invariant [DecidableEq ε] {I : σ → Prop} (hfeed : ∀ s b, I s → I (M.feed s b))
    (hcall : ∀ s e s', I s → M.call n s = some (e, s') → I s') {cs rest : List (List β)} (hs : I s)
    (h : M.feedPieces n s cs = some (e, s', rest)) : I s' := by
  induction cs generalizing s with
  | nil => cases h
  | cons c cs ih =>
    rw [feedPieces_cons] at h
    rcases hc : M.call n (M.feed s c) with _ | ⟨e', t⟩
    · rw [hc] at h
      cases h
    · have ht := hcall _ _ _ (hfeed s c hs) hc
      rw [hc, Option.bind_some] at h
      split_ifs at h with hmore
      · exact ih ht h
      · simp only [Option.some.injEq, Prod.mk.injEq] at h
        obtain ⟨-, rfl, -⟩ := h
        exact ht

theorem call_mono {m : ℕ} {r : ε × σ} (hn : n ≤ m) (h : M.call n s = some r) :
    M.call m s = some r := Loop.run_mono hn h

/-- More rounds for each call do not change what comes of the pieces. -/
theorem feedPieces_mono [DecidableEq ε] {m : ℕ} {cs : List (List β)} {r : ε × σ × List (List β)}
    (hn : n ≤ m) (h : M.feedPieces n s cs = some r) : M.feedPieces m s cs = some r := by
  induction cs generalizing s with
  | nil => cases h
  | cons c cs ih =>
    rw [feedPieces_cons, Option.bind_eq_some_iff] at h
    obtain ⟨t, ht, hr⟩ := h
    rw [feedPieces_cons, call_mono hn ht, Option.bind_some]
    split_ifs at hr ⊢ with hmore
    · exact ih hr
    · exact hr

theorem feedPieces_concat [DecidableEq ε] {m : ℕ} {s'' : σ} {cs : List (List β)} {c : List β}
    (h : M.feedPieces n s cs = some (M.more, s', [])) (hc : M.call m (M.feed s' c) = some (e, s'')) :
    ∃ k, M.feedPieces k s (cs ++ [c]) = some (e, s'', []) := by
  refine ⟨max n m, ?_⟩
  have hlast : M.feedPieces (max n m) s' [c] = some (e, s'', []) := by
    rw [feedPieces_cons, call_mono (le_max_right n m) hc, Option.bind_some,
      if_neg fun hnil => hnil.2 rfl]
  induction cs generalizing s with
  | nil => cases h
  | cons c₀ cs ih =>
    rw [feedPieces_cons, Option.bind_eq_some_iff] at h
    obtain ⟨⟨e', t⟩, ht, hr⟩ := h
    rw [List.cons_append, feedPieces_cons, call_mono (le_max_left n m) ht, Option.bind_some]
    dsimp only at hr ⊢
    split_ifs at hr with hmore
    · rw [if_pos ⟨hmore.1, List.append_ne_nil_of_right_ne_nil _ (List.cons_ne_nil _ _)⟩]
      exact ih hr
    · obtain ⟨rfl, rfl, rfl⟩ : e' = M.more ∧ t = s' ∧ cs = [] := by simpa using hr
      rw [if_pos ⟨rfl, List.cons_ne_nil _ _⟩]
      exact hlast

/-- What lets a machine be fed in pieces. -/
structure Resumable (M : Incremental σ β ε) : Prop where
  feed_nil : ∀ s, M.feed s [] = s
  feed_append : ∀ s b c, M.feed (M.feed s b) c = M.feed s (b ++ c)
  enter_feed : ∀ s b, M.enter (M.feed s b) = M.feed (M.enter s) b
  /-- More input does not change a round. -/
  round : ∀ {s s'} b, M.body s = .inl s' → M.body (M.feed s b) = .inl (M.feed s' b)
  /-- More input does not change a final result. -/
  final : ∀ {s e s'} b, M.body s = .inr (e, s') → e ≠ M.more →
    M.body (M.feed s b) = .inr (e, M.feed s' b)
  /-- An unfinished call is taken up where it stopped. -/
  resume : ∀ {s s'} b, M.body s = .inr (M.more, s') → M.body (M.feed s' b) = M.body (M.feed s b)
  enter_more : ∀ {s s'}, M.body s = .inr (M.more, s') → M.enter s' = s'

namespace Resumable

variable (hM : M.Resumable)

include hM in
/-- The loop on a longer input starts as on the shorter one, and goes on where that one stopped. -/
theorem run_feed (b : List β) {t : σ} (h : Loop.run M.body n (M.feed s b) = some (e, t)) :
    ∃ e' t', Loop.run M.body n s = some (e', t') ∧
      (e' ≠ M.more → e = e' ∧ t = M.feed t' b) ∧
      (e' = M.more → M.enter t' = t' ∧ Loop.run M.body n (M.feed t' b) = some (e, t) ∧
        (b = [] → e = M.more ∧ t = t')) := by
  induction n generalizing s with
  | zero => simp [Loop.run] at h
  | succ n ih =>
    rcases hb : M.body s with s' | ⟨e', t'⟩
    · rw [Loop.run_succ_inl (hM.round b hb)] at h
      obtain ⟨e', t', hr, hfin, hmore⟩ := ih h
      refine ⟨e', t', by rwa [Loop.run_succ_inl hb], hfin, fun he => ?_⟩
      obtain ⟨hent, hrun, hnil⟩ := hmore he
      exact ⟨hent, Loop.run_mono (Nat.le_succ n) hrun, hnil⟩
    · refine ⟨e', t', Loop.run_succ_inr hb, fun he => ?_, fun he => ?_⟩
      · rw [Loop.run_succ_inr (hM.final b hb he)] at h
        obtain ⟨rfl, rfl⟩ := Prod.mk.inj (Option.some.inj h)
        exact ⟨rfl, rfl⟩
      · subst he
        have hres := hM.resume b hb
        refine ⟨hM.enter_more hb, ?_, fun hnil => ?_⟩
        · simpa only [Loop.run, hres] using h
        · subst hnil
          rw [hM.feed_nil, Loop.run_succ_inr hb] at h
          obtain ⟨rfl, rfl⟩ := Prod.mk.inj (Option.some.inj h)
          exact ⟨rfl, rfl⟩

include hM in
/-- More input does not change the result of a call that is content. -/
theorem returns_feed {t : σ} (h : Loop.run M.body n s = some (e, t)) (he : e ≠ M.more)
    (b : List β) : Loop.Returns M.body (M.feed s b) (e, M.feed t b) := by
  induction n generalizing s with
  | zero => simp [Loop.run] at h
  | succ n ih =>
    rcases hb : M.body s with s' | ⟨e', t'⟩
    · rw [Loop.run_succ_inl hb] at h
      exact (Loop.returns_of_inl (hM.round b hb)).2 (ih h)
    · rw [Loop.run_succ_inr hb] at h
      obtain ⟨rfl, rfl⟩ := Prod.mk.inj (Option.some.inj h)
      exact Loop.returns_of_inr (hM.final b hb he)

include hM in
/-- A call that needs more input leaves a state that does as well as the one it started in. -/
theorem returns_resumed {t : σ} (h : Loop.run M.body n s = some (M.more, t)) :
    M.enter t = t ∧
      ∀ b r, Loop.Returns M.body (M.feed t b) r ↔ Loop.Returns M.body (M.feed s b) r := by
  induction n generalizing s with
  | zero => simp [Loop.run] at h
  | succ n ih =>
    rcases hb : M.body s with s' | ⟨e', t'⟩
    · rw [Loop.run_succ_inl hb] at h
      obtain ⟨hent, hret⟩ := ih h
      refine ⟨hent, fun b r => ?_⟩
      rw [hret, Loop.returns_of_inl (hM.round b hb)]
    · rw [Loop.run_succ_inr hb] at h
      obtain ⟨rfl, rfl⟩ := Prod.mk.inj (Option.some.inj h)
      exact ⟨hM.enter_more hb, fun b r => Loop.returns_congr (hM.resume b hb)⟩

include hM in
/-- **The pieces do not matter.** If a call on the whole input returns, feeding the pieces ends
with the same code, and in the same state once the pieces not fed are put back. -/
theorem feedPieces_of_whole [DecidableEq ε] {cs : List (List β)} (hne : cs ≠ []) {t : σ}
    (h : M.call n (M.feed s cs.flatten) = some (e, t)) :
    ∃ t' rest, M.feedPieces n s cs = some (e, t', rest) ∧ t = M.feed t' rest.flatten := by
  induction cs generalizing s with
  | nil => exact absurd rfl hne
  | cons c cs ih =>
    have hcall : Loop.run M.body n (M.feed (M.enter (M.feed s c)) cs.flatten) = some (e, t) := by
      rw [← hM.enter_feed, hM.feed_append, ← List.flatten_cons]
      exact h
    obtain ⟨e', t', hr, hfin, hmore⟩ := hM.run_feed cs.flatten hcall
    have hr' : M.call n (M.feed s c) = some (e', t') := hr
    rw [feedPieces_cons, hr', Option.bind_some]
    by_cases he : e' = M.more
    · obtain ⟨hent, hrun, hnil⟩ := hmore he
      rcases eq_or_ne cs [] with rfl | hcs
      · obtain ⟨rfl, rfl⟩ := hnil rfl
        exact ⟨t, [], by simp [he], (hM.feed_nil t).symm⟩
      · rw [if_pos ⟨he, hcs⟩]
        refine ih hcs ?_
        unfold call
        rwa [hM.enter_feed, hent]
    · obtain ⟨rfl, rfl⟩ := hfin he
      rw [if_neg fun hc => he hc.1]
      exact ⟨t', cs, rfl, rfl⟩

include hM in
/-- What is left when all the pieces have been fed is what a call on the whole input leaves. -/
theorem feedPieces_eq_whole [DecidableEq ε] {cs : List (List β)} {m : ℕ} {e' : ε} {t : σ}
    (h : M.feedPieces n s cs = some (e, s', [])) (hne : cs ≠ [])
    (hwhole : M.call m (M.feed s cs.flatten) = some (e', t)) : e' = e ∧ t = s' := by
  obtain ⟨t', rest, ht', rfl⟩ := hM.feedPieces_of_whole hne hwhole
  have hleft := (feedPieces_mono (le_max_left n m) h).symm.trans
    (feedPieces_mono (le_max_right n m) ht')
  obtain ⟨rfl, rfl, rfl⟩ : e = e' ∧ s' = t' ∧ [] = rest := by simpa using hleft
  exact ⟨rfl, hM.feed_nil s'⟩

include hM in
/-- Pieces that need more leave a state that does as well as the first one with all of them. -/
theorem feedPieces_resumed [DecidableEq ε] {cs : List (List β)} {t : σ}
    (h : M.feedPieces n s cs = some (M.more, t, [])) (b : List β) (r : ε × σ) :
    Loop.Returns M.body (M.enter (M.feed t b)) r ↔
      Loop.Returns M.body (M.enter (M.feed s (cs.flatten ++ b))) r := by
  induction cs generalizing s with
  | nil => cases h
  | cons c cs ih =>
    rw [feedPieces_cons, Option.bind_eq_some_iff] at h
    obtain ⟨⟨e', t'⟩, hc, hr⟩ := h
    -- one piece is taken up where it stopped
    have hone : e' = M.more → ∀ b, Loop.Returns M.body (M.enter (M.feed t' b)) r ↔
        Loop.Returns M.body (M.enter (M.feed s (c ++ b))) r := by
      rintro rfl b
      obtain ⟨hent, hret⟩ := hM.returns_resumed hc
      rw [hM.enter_feed, hent, hret, ← hM.enter_feed, hM.feed_append]
    rw [List.flatten_cons, List.append_assoc]
    dsimp only at hr
    split_ifs at hr with hmore
    · rw [ih hr]
      exact hone hmore.1 _
    · obtain ⟨rfl, rfl, rfl⟩ : e' = M.more ∧ t' = t ∧ cs = [] := by simpa using hr
      exact hone rfl b

include hM in
/-- A call on a part of an input ends if the call on all of it does, and with the same code unless it
needs more. -/
theorem returns_part {b : List β} {t : σ} (h : Loop.Returns M.body (M.enter (M.feed s b)) (e, t)) :
    ∃ e' t', Loop.Returns M.body (M.enter s) (e', t') ∧ (e' ≠ M.more → e = e') := by
  obtain ⟨n, hn⟩ := h
  rw [hM.enter_feed] at hn
  obtain ⟨e', t', hrun, hfin, -⟩ := hM.run_feed b hn
  exact ⟨e', t', ⟨n, hrun⟩, fun he => (hfin he).1⟩

end Resumable

/-- Two machines that agree along `f` on the states of `I` give the same on the same pieces. -/
theorem feedPieces_map [DecidableEq ε] {N : Incremental τ β ε} {f : σ → τ} {I : σ → Prop}
    (hmore : N.more = M.more)
    (hfeed : ∀ s b, I s → N.feed (f s) b = f (M.feed s b) ∧ I (M.feed s b))
    (hcall : ∀ s, I s → N.call n (f s) = (M.call n s).map (Prod.map id f))
    (hI : ∀ s e s', I s → M.call n s = some (e, s') → I s') (hs : I s) (cs : List (List β)) :
    N.feedPieces n (f s) cs = (M.feedPieces n s cs).map (Prod.map id (Prod.map f id)) := by
  induction cs generalizing s with
  | nil => rfl
  | cons c cs ih =>
    obtain ⟨hf, hIf⟩ := hfeed s c hs
    rw [feedPieces_cons, feedPieces_cons, hf, hcall _ hIf]
    rcases hc : M.call n (M.feed s c) with _ | ⟨e, s'⟩
    · rfl
    · simp only [Option.map_some, Option.bind_some, Prod.map_fst, Prod.map_snd, id_eq, hmore]
      split_ifs
      · exact ih (hI _ e s' hIf hc)
      · rfl

end Incremental
