import Libmc.Consumed

/-!
# When `waitPoll` returns `RET_OK`

A connection that is given up leaves a code, and nothing sets the code back (`Unfailed`). So if the
code is `RET_OK` every active connection is alive, and when the counter and the writers are right
(`soundPolls`) all that was queued has been written to the sockets (`waitPoll_handed`).
-/

namespace Libmc

variable {c c0 : Connection} {p p' : ConnectionPool} {s s' s0 : PollLoop} {ev : Event} {r : Revents}
  {a : Answers} {e e' : Entry} {part : Part} {jump : Bool} {i k : ℕ} {code : ErrCode}
  {rule rule' : PollLoop → Event → PollLoop → Prop} {rules : Rules} {req : Request}

/-! ### The code -/

namespace Entry

/-- If the code is `RET_OK` it has been so before, and the connection has not been given up. -/
def Survives (e e' : Entry) : Prop :=
  e'.retCode = .ok → e.retCode = .ok ∧ (e.conn.alive = true → e'.conn.alive = true)

theorem survives_lose (hcode : code ≠ .ok) (a : Answers) (e : Entry) :
    e.Survives (lose code a e) := by
  unfold lose
  dsimp only
  split_ifs with halive
  · exact fun hok => ⟨hok, fun _ => halive⟩
  · exact fun hok => absurd hok hcode

theorem survives_parsed (err : ErrCode) (a : Answers) (e : Entry) : e.Survives (parsed err a e) := by
  have hparsed := parsed_cases err a e
  generalize parsed err a e = e' at hparsed ⊢
  cases hparsed with
  | done => exact fun hok => ⟨hok, id⟩
  | failed herr =>
    intro hok
    obtain rfl : err = .ok := hok
    rcases herr with herr | herr <;> cases herr
  | more => exact fun hok => ⟨hok, id⟩

theorem survives_run (hrun : e.run part r a = some (jump, e')) : e.Survives e' := by
  have hsame : ∀ d : Connection, d.alive = e.conn.alive → ∀ e' : Entry,
      Survives { e with conn := d } e' → e.Survives e' := fun d hd e' hsurvives hok =>
    ⟨(hsurvives hok).1, fun halive => (hsurvives hok).2 (hd.trans halive)⟩
  have hrecv : ∀ isPeek, (e.conn.recv isPeek a.bytes).2.alive = e.conn.alive := fun isPeek => by
    unfold Connection.recv
    dsimp only
    split
    · split_ifs <;> rfl
    · rfl
  cases part with
  | error =>
    have hpart : e.errorPart r a = (jump, e') := Option.some.inj hrun
    unfold errorPart at hpart
    split_ifs at hpart <;> obtain ⟨-, rfl⟩ := Prod.mk.inj hpart
    · exact survives_lose (by decide) a e
    · exact fun hok => ⟨hok, id⟩
  | early =>
    have hpart : e.earlyPart r a = (jump, e') := Option.some.inj hrun
    unfold earlyPart at hpart
    dsimp only at hpart
    split_ifs at hpart with _ _ halive <;> obtain ⟨-, rfl⟩ := Prod.mk.inj hpart
    · exact fun hok => ⟨hok, fun _ => halive⟩
    · nofun
    · exact hsame _ (hrecv true) _ fun hok => ⟨hok, id⟩
    · exact fun hok => ⟨hok, id⟩
  | send =>
    have hpart : e.sendPart r a = (jump, e') := Option.some.inj hrun
    unfold sendPart at hpart
    split_ifs at hpart
    · rcases hroom : a.room with _ | room <;> simp only [hroom, Connection.send] at hpart
      · obtain ⟨-, rfl⟩ := Prod.mk.inj hpart
        exact survives_lose (by decide) a e
      · split_ifs at hpart <;> obtain ⟨-, rfl⟩ := Prod.mk.inj hpart <;> exact fun hok => ⟨hok, id⟩
    · obtain ⟨-, rfl⟩ := Prod.mk.inj hpart
      exact fun hok => ⟨hok, id⟩
  | recv =>
    obtain ⟨e'', hpart, heq⟩ := Option.map_eq_some_iff.1 hrun
    obtain ⟨-, rfl⟩ := Prod.mk.inj heq
    unfold recvPart at hpart
    dsimp only at hpart
    split_ifs at hpart
    · obtain rfl := Option.some.inj hpart
      exact hsame _ (hrecv false) _ (survives_lose (by decide) a _)
    · obtain ⟨⟨err, d⟩, hp, rfl⟩ := Option.map_eq_some_iff.1 hpart
      refine hsame d ?_ _ (survives_parsed err a _)
      rw [Connection.process_eq hp]
      exact hrecv false
    · obtain rfl := Option.some.inj hpart
      exact fun hok => ⟨hok, id⟩

end Entry

namespace PollLoop

/-- If the code is `RET_OK`, `poll` has not failed and no active connection has been given up. -/
def Unfailed (s : PollLoop) : Prop :=
  s.retCode = .ok → s.progress ≠ .broken ∧
    ∀ i ∈ s.pool.activeConns, ∀ c, s.pool.conns[i]? = some c → c.alive = true

theorem retCode_of_entry (h : s.entry k = some e) : e.retCode = s.retCode := by
  rw [entry_eq, Option.map_eq_some_iff] at h
  obtain ⟨x, -, rfl⟩ := h
  rfl

theorem Unfailed.step (h : s.Unfailed) (hstep : Step s ev s') : s'.Unfailed := by
  cases hstep with
  | leave hs => exact fun hok => ⟨nofun, (h hok).2⟩
  | fail _ _ hcode =>
    intro hok
    obtain rfl : _ = ErrCode.ok := hok
    rcases hcode with hcode | hcode <;> cases hcode
  | report hs => exact fun hok => ⟨nofun, (h hok).2⟩
  | @part k part revents r a e e' jump hs he hr hrun =>
    intro hok
    obtain ⟨hok', hsurvives⟩ := Entry.survives_run hrun hok
    rw [retCode_of_entry he] at hok'
    obtain ⟨-, halive⟩ := h hok'
    refine ⟨?_, fun i hi c hc => ?_⟩
    · show next k part revents jump ≠ .broken
      unfold next
      split <;> nofun
    · obtain ⟨j, hj, hconn, -⟩ := slot_eq_some (slot_of_entry he)
      change (s.setEntry k e').pool.conns[i]? = some c at hc
      rw [conns_setEntry hj] at hc
      by_cases hij : j = i
      · subst hij
        rw [List.getElem?_set_self (List.getElem?_eq_some_iff.1 hconn).1] at hc
        obtain rfl := Option.some.inj hc
        exact hsurvives (halive j hi _ hconn)
      · rw [List.getElem?_set_ne hij] at hc
        exact halive i hi c hc
  | nextRound hs => exact fun hok => ⟨nofun, (h hok).2⟩

theorem Unfailed.steps (h : s.Unfailed) (hsteps : Steps rule s s') : s'.Unfailed := by
  induction hsteps with
  | refl => exact h
  | tail _ hstep ih =>
    obtain ⟨ev, hstep, -⟩ := hstep
    exact ih.step hstep

theorem Steps.mono (hrule : ∀ s ev s', rule s ev s' → rule' s ev s') (h : Steps rule s s') :
    Steps rule' s s' := by
  refine Relation.ReflTransGen.mono (fun s s' hstep => ?_) s s' h
  obtain ⟨ev, hstep, hr⟩ := hstep
  exact ⟨ev, hstep, hrule s ev s' hr⟩

end PollLoop

namespace ConnectionPool

theorem WaitPoll.mono (hrule : ∀ s ev s', rule s ev s' → rule' s ev s')
    (h : p.WaitPoll rule code p') : p.WaitPoll rule' code p' := by
  cases h with
  | idle h0 => exact .idle h0
  | run h0 hs hend => exact .run h0 (hs.mono hrule) hend

/-- With `RET_OK` the loop has been left by its condition, and every active connection is alive. -/
theorem WaitPoll.finished (h : p.WaitPoll rule .ok p')
    (halive : ∀ i ∈ p.activeConns, ∀ c, p.conns[i]? = some c → c.alive = true) :
    ∃ s, PollLoop.Steps rule p.startPoll s ∧ s.progress = .finished ∧ s.pool = p' ∧
      ∀ i ∈ p'.activeConns, ∀ c, p'.conns[i]? = some c → c.alive = true := by
  generalize hcode : ErrCode.ok = code at h
  cases h with
  | idle => split_ifs at hcode
  | @run s _ hs hend =>
    have hunfailed : s.Unfailed :=
      PollLoop.Unfailed.steps (s := p.startPoll) (fun _ => ⟨nofun, halive⟩) hs
    obtain ⟨hbroken, hlast⟩ := hunfailed hcode.symm
    exact ⟨s, hs, hend.resolve_right hbroken, rfl, hlast⟩

end ConnectionPool

/-! ### What is written -/

/-- No step of a loop counts an exchange wrongly, or goes on with a request that is not whole. -/
def soundRuns : Rules where
  request p req := req.RoutesLive p ∧ (req.dispatch p).activeConns.length < 2 ^ 32
  step s ev _ := s.Harmless ev ∧ SlotInvariant.PartRule Entry.Unsent s ev

theorem PollLoop.sound_steps (hp : Reachable rules p) (hreq : soundRuns.request p req)
    (h : Steps soundRuns.step (req.dispatch p).startPoll s) :
    CountInv (req.dispatch p).startPoll s ∧ s.Counted ∧ SendInv (req.dispatch p).startPoll s ∧
      Whole (req.dispatch p).startPoll s := by
  have h0 := aligned_startPoll (req.dispatch p)
  induction h with
  | refl =>
    have hcount := countInv_startPoll hp hreq.1 hreq.2
    have hsend := sendInv_startPoll hp req
    refine ⟨hcount, ⟨hcount.count, ?_⟩, hsend, hsend.whole h0 nofun⟩
    rintro (hend | hend) <;> cases hend
  | tail _ hstep ih =>
    obtain ⟨ev, hstep, hharmless, hunsent⟩ := hstep
    obtain ⟨hcount, -, hsend, -⟩ := ih
    obtain ⟨hcount', hcounted⟩ := hcount.step hstep hharmless
    obtain ⟨hsend', hwhole⟩ := hsend.step h0 hstep hunsent
    exact ⟨hcount', hcounted, hsend', hwhole⟩

/-- The bytes that have been written to the present socket since the connection was `c0`. -/
def Connection.writtenSince (c0 c : Connection) : Bytes :=
  if c.traffic.socket = c0.traffic.socket then c.traffic.written.drop c0.traffic.written.length
  else c.traffic.written

theorem Connection.Whole.writtenSince (h : Whole c0 c) (hleft : c.bufferWriter.unread = []) :
    c0.writtenSince c = c0.bufferWriter.unread := by
  obtain ⟨sent, hsent, hqueued⟩ := h
  rw [hleft, List.append_nil] at hqueued
  unfold Connection.writtenSince
  rw [hsent, ← hqueued]
  split_ifs
  · exact List.drop_left
  · rfl

/-- **What is queued is written.** If `waitPoll` returns `RET_OK`, the commands of a connection have
been written to its socket, and nothing else. -/
theorem waitPoll_handed (hp : Reachable rules p) (hreq : soundRuns.request p req)
    (hwait : (req.dispatch p).WaitPoll soundRuns.step .ok p')
    (hc0 : (req.dispatch p).conns[i]? = some c0) (hc : p'.conns[i]? = some c) :
    c0.writtenSince c = (req.commandsFor p i).flatMap Command.bytes := by
  obtain ⟨base, -, -, hdis, hactive⟩ := req.dispatched hp hc0
  by_cases hi : i ∈ (req.dispatch p).activeConns
  · obtain ⟨s, hs, hfinished, rfl, halive⟩ := hwait.finished fun j hj d hd => by
      obtain ⟨d', hd', halive⟩ := req.alive_dispatch hp.clean hreq.1 hj
      obtain rfl := Option.some.inj (hd.symm.trans hd')
      exact halive
    obtain ⟨hinv, hcounted, -, hwhole⟩ := PollLoop.sound_steps hp hreq hs
    rw [← hdis.loaded.unread_eq]
    refine (hwhole i hi c0 c hc0 hc).writtenSince ?_
    have hi' : i ∈ s.pool.activeConns := by
      rw [hinv.aligned.frame.activeConns]
      exact hi
    have hex : ¬ c.Exchanging := fun hex =>
      (PollLoop.exchanging_pos hi' hc hex).ne' (hcounted.2 (.inl hfinished))
    have hleft : c.bufferWriter.msgIovlen = 0 := by
      by_contra hleft
      exact hex (Connection.exchanging_of_left (halive i hi' c hc) hleft)
    unfold BufferWriter.unread BufferWriter.getReadPtr
    rw [hleft, List.take_zero, List.flatten_nil]
  · -- nothing is queued
    obtain rfl := Option.some.inj (hc.symm.trans ((hwait.frame.conns i hi).trans hc0))
    have hnil : req.commandsFor p i = [] := by
      by_contra hne
      exact hi (hactive.2 hne)
    unfold Connection.writtenSince
    rw [if_pos rfl, List.drop_length, hnil, List.flatMap_nil]

end Libmc
