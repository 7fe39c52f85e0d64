import Libmc.WaitPoll

/-!
# Invariants of the poll loop

A turn of the loop works on one connection and its descriptor, and leaves the others alone. So what
each part of a turn preserves for its own connection holds for all of them in every state that the
loop reaches (`Inv.steps`). The connections that are not active are never touched (`WaitPoll.frame`).
-/

namespace Libmc

variable {rule : PollLoop → Event → PollLoop → Prop} {p p' p'' : ConnectionPool} {s s' : PollLoop}
  {ev : Event} {i j k : ℕ} {c : Connection} {fd : PollFd} {e : Entry}

/-! ### The connections that are not active -/

/-- The list of active connections and the connections that are not in it are as before. -/
structure ConnectionPool.Frame (p p' : ConnectionPool) : Prop where
  activeConns : p'.activeConns = p.activeConns
  length : p'.conns.length = p.conns.length
  conns : ∀ i, i ∉ p.activeConns → p'.conns[i]? = p.conns[i]?

namespace ConnectionPool

theorem Frame.refl (p : ConnectionPool) : Frame p p := ⟨rfl, rfl, fun _ _ => rfl⟩

theorem Frame.trans (h : Frame p p') (h' : Frame p' p'') : Frame p p'' where
  activeConns := h'.activeConns.trans h.activeConns
  length := h'.length.trans h.length
  conns i hi := (h'.conns i (h.activeConns ▸ hi)).trans (h.conns i hi)

theorem frame_markDeadAll (pollfds : Option (List PollFd)) (times : ℕ → ℤ) (p : ConnectionPool) :
    Frame p (p.markDeadAll pollfds times) := by
  have hsame : SameActive p (p.markDeadAll pollfds times) := sameActive_foldl _ _ _ p
  refine ⟨hsame.activeConns, hsame.length, fun i hi => ?_⟩
  have hnone : p.activeConns.zipIdx.filter (fun x => x.1 = i) = [] := by
    rw [List.filter_eq_nil_iff]
    rintro ⟨j, fdIdx⟩ hj
    have hmem : j ∈ p.activeConns := by
      obtain ⟨-, -, h⟩ := List.mem_zipIdx hj
      rw [h]
      exact List.getElem_mem _
    simpa using fun h : j = i => hi (h ▸ hmem)
  unfold markDeadAll
  rw [foldl_modifyConn_conns, hnone]
  simp

end ConnectionPool

namespace PollLoop

theorem conns_setEntry (h : s.connAt k = some i) (e : Entry) :
    (s.setEntry k e).pool.conns = s.pool.conns.set i e.conn := by
  unfold setEntry
  rw [h]

theorem frame_setEntry (s : PollLoop) (k : ℕ) (e : Entry) : s.pool.Frame (s.setEntry k e).pool := by
  unfold setEntry
  rcases hi : s.connAt k with _ | i
  · exact ⟨rfl, rfl, fun _ _ => rfl⟩
  · refine ⟨rfl, List.length_set, fun j hj => ?_⟩
    refine List.getElem?_set_ne ?_
    rintro rfl
    exact hj (List.mem_of_getElem? hi)

theorem Step.frame (h : Step s ev s') : s.pool.Frame s'.pool := by
  cases h with
  | leave => exact ConnectionPool.Frame.refl _
  | fail => exact ConnectionPool.frame_markDeadAll _ _ _
  | report => exact ConnectionPool.Frame.refl _
  | part => exact frame_setEntry _ _ _
  | nextRound => exact ConnectionPool.Frame.refl _

theorem Steps.frame (h : Steps rule s s') : s.pool.Frame s'.pool := by
  induction h with
  | refl => exact ConnectionPool.Frame.refl _
  | tail _ hstep ih =>
    obtain ⟨ev, hstep, -⟩ := hstep
    exact ih.trans hstep.frame

end PollLoop

theorem ConnectionPool.WaitPoll.frame {code : ErrCode} (h : p.WaitPoll rule code p') :
    p.Frame p' := by
  cases h with
  | idle => exact ConnectionPool.Frame.refl _
  | run _ hs _ => exact hs.frame

/-! ### One connection at a time -/

namespace PollLoop

def slot (s : PollLoop) (k : ℕ) : Option (Connection × PollFd) := do
  let i ← s.connAt k
  let conn ← s.pool.conns[i]?
  let pollfd ← s.pollfds[k]?
  return (conn, pollfd)

theorem entry_eq (s : PollLoop) (k : ℕ) :
    s.entry k = (s.slot k).map fun x => ⟨x.1, x.2, s.pool.nActiveConn, s.retCode⟩ := by
  unfold entry slot
  rcases s.connAt k with _ | i
  · rfl
  · rcases hc : s.pool.conns[i]? with _ | c
    · simp [hc]
    · rcases hfd : s.pollfds[k]? with _ | fd <;> simp [hc]

theorem slot_of_entry (h : s.entry k = some e) : s.slot k = some (e.conn, e.pollfd) := by
  rw [entry_eq, Option.map_eq_some_iff] at h
  obtain ⟨x, hx, rfl⟩ := h
  exact hx

theorem slot_eq_some (h : s.slot k = some (c, fd)) :
    ∃ i, s.connAt k = some i ∧ s.pool.conns[i]? = some c ∧ s.pollfds[k]? = some fd := by
  unfold slot at h
  rcases hi : s.connAt k with _ | i
  · simp [hi] at h
  · rcases hc : s.pool.conns[i]? with _ | c'
    · simp [hi, hc] at h
    · rcases hfd : s.pollfds[k]? with _ | fd'
      · simp [hi, hfd] at h
      · simp only [hi, hc, hfd, Option.bind_eq_bind, Option.bind_some, Option.pure_def,
          Option.some.injEq, Prod.mk.injEq] at h
        obtain ⟨rfl, rfl⟩ := h
        exact ⟨i, rfl, hc, rfl⟩

theorem slot_setEntry (hnodup : s.pool.activeConns.Nodup) (hslot : s.slot k = some (c, fd)) (e : Entry)
    (j : ℕ) : (s.setEntry k e).slot j = if j = k then some (e.conn, e.pollfd) else s.slot j := by
  obtain ⟨i, hi, hc, hfd⟩ := slot_eq_some hslot
  have hilt := (List.getElem?_eq_some_iff.1 hc).1
  have hklt := (List.getElem?_eq_some_iff.1 hfd).1
  have hconns := conns_setEntry hi e
  have hat : (s.setEntry k e).connAt j = s.connAt j := rfl
  have hfds : (s.setEntry k e).pollfds = s.pollfds.set k e.pollfd := rfl
  unfold slot
  rw [hat, hconns, hfds]
  split_ifs with hjk
  · subst hjk
    rw [hi]
    simp [hilt, hklt]
  · rcases hj : s.connAt j with _ | i'
    · rfl
    · have hne : i ≠ i' := by
        rintro rfl
        have hj' : s.pool.activeConns[j]? = s.pool.activeConns[k]? := hj.trans hi.symm
        have hjlt := (List.getElem?_eq_some_iff.1 hj).1
        exact hjk ((List.getElem?_inj hjlt hnodup).1 hj')
      simp [List.getElem?_set_ne hne, List.getElem?_set_ne (Ne.symm hjk)]

end PollLoop

/-- What holds of the connection and the descriptor in a slot, and what holds of them and the events
that are reported, before a part of a turn. -/
structure SlotInvariant where
  holds : ℕ → Connection → PollFd → Prop
  reported : Part → Revents → Connection → PollFd → Prop

namespace SlotInvariant

/-- The parts of a turn preserve the invariant, when they meet a condition. -/
structure Local (T : SlotInvariant) (C : Part → Revents → Answers → Entry → Prop) : Prop where
  report : ∀ k c fd r, T.holds k c fd → fd.Reports r → T.reported .error r c fd
  part : ∀ k part r a (e : Entry) jump (e' : Entry), T.holds k e.conn e.pollfd →
    T.reported part r e.conn e.pollfd → C part r a e → e.run part r a = some (jump, e') →
      T.holds k e'.conn e'.pollfd ∧
        (jump = false → ∀ part', part.next = some part' → T.reported part' r e'.conn e'.pollfd)

structure Inv (T : SlotInvariant) (s : PollLoop) : Prop where
  nodup : s.pool.activeConns.Nodup
  slots : ∀ k c fd, s.slot k = some (c, fd) → T.holds k c fd
  reported : ∀ k part revents, s.progress = .turn k part revents → ∀ j r c fd, k ≤ j →
    revents[j]? = some r → s.slot j = some (c, fd) →
      T.reported (if j = k then part else .error) r c fd

/-- Steps whose parts meet a condition. -/
def PartRule (C : Part → Revents → Answers → Entry → Prop) (s : PollLoop) (ev : Event) : Prop :=
  ∀ k part revents r a e, ev = .part a → s.progress = .turn k part revents →
    revents[k]? = some r → s.entry k = some e → C part r a e

variable {T : SlotInvariant} {C : Part → Revents → Answers → Entry → Prop}

/-- What the part of a turn that is taken has to preserve. -/
def PartHolds (T : SlotInvariant) (s : PollLoop) (ev : Event) (s' : PollLoop) : Prop :=
  ∀ k part revents r a (e : Entry) jump (e' : Entry), ev = .part a →
    s.progress = .turn k part revents → revents[k]? = some r → s.entry k = some e →
    e.run part r a = some (jump, e') →
    s' = { s.setEntry k e' with progress := PollLoop.next k part revents jump } →
    T.holds k e.conn e.pollfd → T.reported part r e.conn e.pollfd →
      T.holds k e'.conn e'.pollfd ∧
        (jump = false → ∀ part', part.next = some part' → T.reported part' r e'.conn e'.pollfd)

/-- The step lemma for a part of a turn that preserves the invariant of its own slot. -/
theorem Inv.step_of (h : T.Inv s) (hstep : PollLoop.Step s ev s')
    (hreport : ∀ k c fd r, T.holds k c fd → fd.Reports r → T.reported .error r c fd)
    (hpart : T.PartHolds s ev s') (hs' : s'.progress ≠ .broken) : T.Inv s' := by
  cases hstep with
  | leave => exact ⟨h.nodup, h.slots, fun k part revents hturn => by cases hturn⟩
  | fail => exact absurd rfl hs'
  | @report revents hs h0 hr =>
    refine ⟨h.nodup, h.slots, fun k part revents' hturn j r c fd _ hj hslot => ?_⟩
    obtain ⟨rfl, rfl, rfl⟩ : 0 = k ∧ Part.error = part ∧ revents = revents' := by
      simpa using hturn
    have hreports : fd.Reports r := by
      obtain ⟨i, -, -, hfd⟩ := PollLoop.slot_eq_some hslot
      exact hr.2 j fd r hfd hj
    have := hreport j c fd r (h.slots j c fd hslot) hreports
    simpa using this
  | @part k part revents r a e e' jump hs he hr hrun =>
    have hslot := PollLoop.slot_of_entry he
    have hset := PollLoop.slot_setEntry h.nodup hslot e'
    have hrep := h.reported k part revents hs k r _ _ le_rfl hr hslot
    rw [if_pos rfl] at hrep
    obtain ⟨hholds, hnext⟩ := hpart k part revents r a e jump e' rfl hs hr he hrun rfl
      (h.slots k _ _ hslot) hrep
    refine ⟨h.nodup, fun j c fd hj => ?_, fun k' part' revents' hturn j r' c fd hle hj hslot' => ?_⟩
    · have hj' := (hset j).symm.trans hj
      split_ifs at hj' with hjk
      · obtain ⟨rfl, rfl⟩ := Prod.mk.inj (Option.some.inj hj')
        exact hjk ▸ hholds
      · exact h.slots j c fd hj'
    · have hj' := (hset j).symm.trans hslot'
      -- the next part is for the same slot, or the turn goes on with the next one
      rcases hnx : if jump then none else part.next with _ | p'
      · obtain ⟨rfl, rfl, rfl⟩ : k + 1 = k' ∧ Part.error = part' ∧ revents = revents' := by
          simpa [PollLoop.next, hnx] using hturn
        rw [if_neg (by omega)] at hj'
        have := h.reported k part revents hs j r' c fd (by omega) hj hj'
        rw [if_neg (by omega)] at this
        simpa using this
      · obtain ⟨rfl, rfl, rfl⟩ : k = k' ∧ p' = part' ∧ revents = revents' := by
          simpa [PollLoop.next, hnx] using hturn
        split_ifs at hj' ⊢ with hjk
        · subst hjk
          obtain ⟨rfl, rfl⟩ := Prod.mk.inj (Option.some.inj hj')
          obtain rfl := Option.some.inj (hr.symm.trans hj)
          cases jump with
          | false => exact hnext rfl p' (by simpa using hnx)
          | true => simp at hnx
        · have := h.reported k part revents hs j r' c fd hle hj hj'
          rwa [if_neg hjk] at this
  | nextRound => exact ⟨h.nodup, h.slots, fun k part revents hturn => by cases hturn⟩

/-- The step lemma, for all steps but a failure of `poll`. -/
theorem Inv.step (h : T.Inv s) (hlocal : T.Local C) (hstep : PollLoop.Step s ev s')
    (hrule : PartRule C s ev) (hs' : s'.progress ≠ .broken) : T.Inv s' := by
  refine h.step_of hstep hlocal.report ?_ hs'
  intro k part revents r a e jump e' hev hturn hr he hrun _ hholds hrep
  exact hlocal.part k part r a e jump e' hholds hrep (hrule k part revents r a e hev hturn hr he) hrun

theorem step_not_broken (h : PollLoop.Step s ev s') : s.progress ≠ .broken := by
  intro hbroken
  cases h <;> simp_all

theorem Inv.steps (h : T.Inv s) (hlocal : T.Local C)
    (hrule : ∀ s ev s', rule s ev s' → PartRule C s ev) (hsteps : PollLoop.Steps rule s s')
    (hs' : s'.progress ≠ .broken) : T.Inv s' := by
  induction hsteps with
  | refl => exact h
  | tail _ hstep ih =>
    obtain ⟨ev, hstep, hr⟩ := hstep
    exact (ih (step_not_broken hstep)).step hlocal hstep (hrule _ _ _ hr) hs'

theorem step_broken (hstep : PollLoop.Step s ev s') (hs' : s'.progress = .broken) :
    ∃ code times, ev = .fail code times ∧ s' =
      { s with
        pool := s.pool.markDeadAll (some s.pollfds) times
        retCode := code
        progress := .broken } := by
  cases hstep with
  | leave => cases hs'
  | fail => exact ⟨_, _, rfl, rfl⟩
  | report => cases hs'
  | @part k part revents r a e e' jump =>
    change PollLoop.next k part revents jump = .broken at hs'
    unfold PollLoop.next at hs'
    split at hs' <;> cases hs'
  | nextRound => cases hs'

/-- A state in which `poll` has failed comes from one in which it has not. -/
theorem steps_broken (hsteps : PollLoop.Steps rule s s') (hs : s.progress ≠ .broken)
    (hs' : s'.progress = .broken) : ∃ t code times, PollLoop.Steps rule s t ∧
      t.progress ≠ .broken ∧ rule t (.fail code times) s' ∧ s' =
        { t with
          pool := t.pool.markDeadAll (some t.pollfds) times
          retCode := code
          progress := .broken } := by
  induction hsteps with
  | refl => exact absurd hs' hs
  | @tail t s' hsteps hstep _ =>
    obtain ⟨ev, hstep, hrule⟩ := hstep
    obtain ⟨code, times, rfl, heq⟩ := step_broken hstep hs'
    exact ⟨t, code, times, hsteps, step_not_broken hstep, hrule, heq⟩

theorem slot_startPoll (h : p.startPoll.slot k = some (c, fd)) :
    (∃ i, p.activeConns[k]? = some i ∧ p.conns[i]? = some c) ∧ fd = ⟨c.socketFd, true, true⟩ := by
  obtain ⟨i, hi, hc, hfd⟩ := PollLoop.slot_eq_some h
  refine ⟨⟨i, hi, hc⟩, ?_⟩
  have hi' : p.activeConns[k]? = some i := hi
  have hc' : p.conns[i]? = some c := hc
  have hfd' : p.startFds[k]? = some fd := hfd
  unfold ConnectionPool.startFds at hfd'
  rw [List.getElem?_map, hi', Option.map_some, hc'] at hfd'
  exact (Option.some.inj hfd').symm

theorem inv_startPoll (hnodup : p.activeConns.Nodup)
    (h : ∀ k i c, p.activeConns[k]? = some i → p.conns[i]? = some c →
      T.holds k c ⟨c.socketFd, true, true⟩) : T.Inv p.startPoll where
  nodup := hnodup
  slots k c fd hslot := by
    obtain ⟨⟨i, hi, hc⟩, rfl⟩ := slot_startPoll hslot
    exact h k i c hi hc
  reported k part revents hturn := by cases hturn

end SlotInvariant

/-! ### Alignment -/

namespace PollLoop

variable {s0 : PollLoop}

structure Aligned (s0 s : PollLoop) : Prop where
  frame : s0.pool.Frame s.pool
  length_eq : s.pollfds.length = s.pool.activeConns.length

theorem Aligned.step (h : Aligned s0 s) (hstep : Step s ev s') : Aligned s0 s' := by
  refine ⟨h.frame.trans hstep.frame, ?_⟩
  have hlength : s'.pollfds.length = s.pollfds.length := by
    cases hstep with
    | part => exact List.length_set
    | _ => rfl
  rw [hlength, hstep.frame.activeConns, h.length_eq]

theorem aligned_startPoll (p : ConnectionPool) : Aligned p.startPoll p.startPoll :=
  ⟨ConnectionPool.Frame.refl _, List.length_map _⟩

theorem Aligned.slot (h : Aligned s0 s) (hk : s0.connAt k = some i)
    (hc : s.pool.conns[i]? = some c) : ∃ fd, s.slot k = some (c, fd) := by
  have hk' : s.pool.activeConns[k]? = some i := by
    rw [h.frame.activeConns]
    exact hk
  have hlt : k < s.pollfds.length := by
    rw [h.length_eq]
    exact (List.getElem?_eq_some_iff.1 hk').1
  refine ⟨s.pollfds[k], ?_⟩
  unfold PollLoop.slot connAt
  simp [hk', hc, hlt]

theorem Aligned.steps (h : Aligned s0 s) (hsteps : Steps rule s s') : Aligned s0 s' := by
  induction hsteps with
  | refl => exact h
  | tail _ hstep ih =>
    obtain ⟨ev, hstep, -⟩ := hstep
    exact ih.step hstep

end PollLoop

end Libmc
