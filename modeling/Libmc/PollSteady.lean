import Libmc.ReplyCodes

/-!
# Runs in which nothing fails

As long as no connection fails, `poll` waits until something can be done, and reports input only
where there is some (`Servers.steadyRuns`). A part of a turn then passes, or it peeks, sends or
receives (`Moves`). Every connection stays on its socket, and the input that is reported is still
there when its turn comes (`SteadyInv`).
-/

namespace Libmc

variable {c c' c0 d : Connection} {p : ConnectionPool} {s s' s0 : PollLoop} {ev : Event}
  {r : Revents} {a : Answers} {e e' : Entry} {part : Part} {jump : Bool} {i k n : ℕ} {fd : PollFd}
  {rules : Rules} {srv : Servers} {req : Request} {revents : List Revents}

/-! ### The parts of a turn -/

theorem Connection.recv_fst (isPeek : Bool) (bytes : Option Bytes) (c : Connection) :
    (c.recv isPeek bytes).1 = bytes.map (·.take c.prepareRecv.1) := by
  cases bytes with
  | none => rfl
  | some bs =>
    unfold Connection.recv
    dsimp only [Option.map_some]
    split_ifs <;> rfl

namespace Entry

/-- Nothing is lost, and a socket that can be written to takes something. -/
def Steady (part : Part) (r : Revents) (a : Answers) (e : Entry) : Prop :=
  ¬ e.Loses part r a ∧ (part = .send → r.out = true → a.room ≠ some 0)

/-- What a part does then, and whether it jumps. -/
inductive Moves (r : Revents) (a : Answers) (e : Entry) : Part → Bool → Entry → Prop
  | passed {part : Part} (hout : part = .send → r.out = false) (hin : part = .recv → r.in_ = false) :
      Moves r a e part (part = .recv) e
  | peeked {d : Connection} (hin : r.in_ = true) (hd : Connection.Waited e.conn d) :
      Moves r a e .early false { e with conn := d, pollfd := { e.pollfd with in_ := false } }
  | sent {m : ℕ} (hout : r.out = true) :
      Moves r a e .send false (e.sent (min (m + 1) e.conn.offered.length))
  | received {bs : Bytes} {d d' : Connection} {err : ErrCode} (hin : r.in_ = true) (hbs : bs ≠ [])
      (hbytes : ∃ all, a.bytes = some all ∧ bs <+: all)
      (hd : Connection.Received e.conn bs d) (hp : d.process a.rounds = some (err, d')) :
      Moves r a e .recv true (parsed err a { e with conn := d' })

theorem sendPart_some {m : ℕ} (hout : r.out = true) (hroom : a.room = some m) :
    e.sendPart r a = (false, e.sent (min m e.conn.offered.length)) := by
  unfold sendPart
  rw [if_pos hout]
  simp only [hroom, Connection.send, sent]
  split_ifs <;> simp_all

theorem recv_part {isPeek : Bool} {bytes : Option Bytes} {bs : Bytes}
    (h : (c.recv isPeek bytes).1 = some bs) : ∃ all, bytes = some all ∧ bs <+: all := by
  rw [Connection.recv_fst] at h
  obtain ⟨all, rfl, rfl⟩ := Option.map_eq_some_iff.1 h
  exact ⟨all, rfl, List.take_prefix _ _⟩

theorem run_moves (hrun : e.run part r a = some (jump, e')) (hrule : e.Steady part r a)
    (herr : r.err = false) : Moves r a e part jump e' := by
  obtain ⟨hkeeps, hroom⟩ := hrule
  cases part with
  | error =>
    have hpart : e.errorPart r a = (jump, e') := Option.some.inj hrun
    unfold errorPart at hpart
    rw [if_neg (by simp [herr])] at hpart
    obtain ⟨rfl, rfl⟩ := Prod.mk.inj hpart
    exact .passed nofun nofun
  | early =>
    have hpart : e.earlyPart r a = (jump, e') := Option.some.inj hrun
    unfold earlyPart at hpart
    split_ifs at hpart with hin
    · rw [Bool.and_eq_true, Bool.not_eq_true'] at hin
      have hwaited := (Connection.recv_cases true a.bytes e.conn).1 (.inl rfl)
      have hgot : ¬ Fails (e.conn.recv true a.bytes).1 := fun hfails => hkeeps ⟨hin.1, hin.2, hfails⟩
      dsimp only at hpart
      rw [if_neg (show ¬ (_ ∨ _) from hgot)] at hpart
      obtain ⟨rfl, rfl⟩ := Prod.mk.inj hpart
      exact .peeked hin.1 hwaited
    · obtain ⟨rfl, rfl⟩ := Prod.mk.inj hpart
      exact .passed nofun nofun
  | send =>
    have hpart : e.sendPart r a = (jump, e') := Option.some.inj hrun
    by_cases hout : r.out = true
    · rcases hm : a.room with _ | m
      · exact absurd ⟨hout, hm⟩ hkeeps
      · obtain ⟨m, rfl⟩ := Nat.exists_eq_succ_of_ne_zero fun h0 => hroom rfl hout (h0 ▸ hm)
        rw [sendPart_some hout hm] at hpart
        obtain ⟨rfl, rfl⟩ := Prod.mk.inj hpart
        exact .sent hout
    · unfold sendPart at hpart
      rw [if_neg hout] at hpart
      obtain ⟨rfl, rfl⟩ := Prod.mk.inj hpart
      exact .passed (fun _ => by simpa using hout) nofun
  | recv =>
    obtain ⟨e'', hpart, heq⟩ := Option.map_eq_some_iff.1 hrun
    obtain ⟨rfl, rfl⟩ := Prod.mk.inj heq
    unfold recvPart at hpart
    split_ifs at hpart with hin
    · have hgot : ¬ Fails (e.conn.recv false a.bytes).1 := fun hfails => hkeeps ⟨hin, hfails⟩
      have hreceived := (Connection.recv_cases false a.bytes e.conn).2
      dsimp only at hpart
      rw [if_neg (show ¬ (_ ∨ _) from hgot)] at hpart
      obtain ⟨⟨err, d'⟩, hp, rfl⟩ := Option.map_eq_some_iff.1 hpart
      rcases hbs : (e.conn.recv false a.bytes).1 with _ | bs
      · exact absurd (.inl hbs) hgot
      · have hne : bs ≠ [] := fun hnil => hgot (.inr (hbs.trans (congrArg some hnil)))
        exact .received hin hne (recv_part hbs) (hreceived bs rfl hbs hne) hp
    · obtain rfl := Option.some.inj hpart
      exact .passed nofun fun _ => by simpa using hin

theorem Moves.socket (h : Moves r a e part jump e') :
    e'.conn.traffic.socket = e.conn.traffic.socket := by
  cases h with
  | passed => rfl
  | peeked _ hd => rw [hd.socket.traffic_eq]
  | sent => rfl
  | received _ _ _ hd hp => rw [traffic_parsed, (hd.processed hp).traffic_eq]

theorem Moves.fd_nonneg (h : Moves r a e part jump e') (hlive : e.conn.LiveFd)
    (hfd : e.conn.socketFd ≠ 0) (he : e.conn.alive = true → 0 ≤ e.pollfd.fd)
    (halive : e'.conn.alive = true) : 0 ≤ e'.pollfd.fd := by
  cases h with
  | passed => exact he halive
  | peeked _ hd => exact he (hd.socket.alive_eq.symm.trans halive)
  | sent => exact he halive
  | @received bs d d' err _ _ _ hd hp =>
    have hd' := hd.processed hp
    have hparsed := parsed_cases err a { e with conn := d' }
    generalize parsed err a { e with conn := d' } = e'' at hparsed halive ⊢
    cases hparsed with
    | done => exact he (hd'.alive_eq.symm.trans halive)
    | failed =>
      have hne : d'.socketFd ≠ 0 := hd'.socketFd_eq ▸ hfd
      cases (Connection.alive_markDead (hd'.liveFd hlive) hne a.deadTime).symm.trans halive
    | more => exact he (hd'.alive_eq.symm.trans halive)

end Entry

/-! ### What a server sends -/

theorem Servers.answers_mono {cmds cmds' : List Command} {socket : ℕ} (h : cmds <+: cmds') (n : ℕ) :
    srv.answers i socket n cmds <+: srv.answers i socket n cmds' := by
  obtain ⟨rest, rfl⟩ := h
  rw [Servers.answers_append]
  exact List.prefix_append _ _

namespace Connection

/-- A server to which more is written sends more. -/
theorem Started.replies_mono (h0 : Started srv p req i c0)
    (hs' : Sending c0 c') (hsocket : c'.traffic.socket = c.traffic.socket)
    (hwritten : c.traffic.written <+: c'.traffic.written) :
    srv.replies i c.traffic <+: srv.replies i c'.traffic := by
  obtain ⟨sent, hsent, hleft⟩ := h0.written hs'
  have hall : c'.traffic.written <+:
      (earlier c0 c' ++ req.commandsFor p i).flatMap Command.bytes := by
    rw [hsent, List.flatMap_append, ← hleft, List.prefix_append_right_inj]
    exact List.prefix_append _ _
  unfold Servers.replies
  rw [hsocket]
  exact Servers.answers_mono (Command.frames.readAll_mono (h0.valid_all c') hwritten hall) 0

/-- Input is left for a connection. -/
def Left (srv : Servers) (i : ℕ) (c : Connection) : Prop :=
  c.traffic.taken ≠ srv.replies i c.traffic

end Connection

/-- Input that is left stays until it is received. -/
theorem Entry.Moves.left (h : Entry.Moves r a e part false e')
    (h0 : Connection.Started srv p req i c0) (hs' : Connection.Sending c0 e'.conn)
    (htaken : e.conn.traffic.taken <+: srv.replies i e.conn.traffic)
    (hleft : e.conn.Left srv i) : e'.conn.Left srv i := by
  generalize hjump : false = jump at h
  cases h with
  | passed => exact hleft
  | peeked _ hd =>
    unfold Connection.Left
    rw [hd.socket.traffic_eq]
    exact hleft
  | sent =>
    intro hall
    have hmono := h0.replies_mono (c := e.conn) hs' rfl (List.prefix_append _ _)
    rw [← hall] at hmono
    exact hleft (htaken.eq_of_length_le hmono.length_le)
  | received => cases hjump

/-! ### The loop -/

/-- What `poll` reports when nothing fails: something, no error, and input only where it is left. -/
structure Servers.Reported (srv : Servers) (s : PollLoop) (revents : List Revents) : Prop where
  waits : ∃ r ∈ revents, r.Some
  err : ∀ r ∈ revents, r.err = false
  in_ : ∀ k r i c, revents[k]? = some r → r.in_ = true → s.connAt k = some i →
    s.pool.conns[i]? = some c → c.Left srv i

/-- The servers answer completely and in order, and nothing fails. -/
def Servers.steadyRuns (srv : Servers) : Rules where
  request := srv.failingRuns.request
  step s ev s' := srv.Answering s ev s' ∧ SlotInvariant.PartRule Entry.Steady s ev ∧
    ∀ revents, ev = .report revents → srv.Reported s revents

theorem Servers.steadyRuns_timely (h : srv.steadyRuns.step s ev s') :
    srv.timelyRuns.step s ev s' := by
  refine ⟨h.1, fun k part revents r a e hev hturn hr he => ?_⟩
  have hkeeps := (h.2.1 k part revents r a e hev hturn hr he).1
  exact ⟨fun hloses => absurd hloses hkeeps, fun hloses => absurd hloses hkeeps⟩

namespace PollLoop

/-- The events that are left in a turn are no errors, and input that is still there. -/
structure Ahead (srv : Servers) (s : PollLoop) (k : ℕ) (part : Part) (revents : List Revents) :
    Prop where
  length_eq : revents.length = s.pollfds.length
  err : ∀ r ∈ revents, r.err = false
  left : ∀ j r i c fd, k ≤ j → revents[j]? = some r → r.in_ = true → s.connAt j = some i →
    s.slot j = some (c, fd) → c.Left srv i
  asked : ∀ j r c fd, k ≤ j → (j = k → part = .error ∨ part = .early) → revents[j]? = some r →
    r.in_ = true → s.slot j = some (c, fd) → fd.in_ = true

structure Stays (s0 : PollLoop) (k : ℕ) (c : Connection) (fd : PollFd) : Prop where
  fd_nonneg : c.alive = true → 0 ≤ fd.fd
  socket_eq : ∀ i c0, s0.connAt k = some i → s0.pool.conns[i]? = some c0 →
    c.traffic.socket = c0.traffic.socket

structure SteadyInv (srv : Servers) (p : ConnectionPool) (req : Request) (s0 s : PollLoop) :
    Prop where
  taking : TakingInv srv p req s0 s
  answered : ∀ i c, s.pool.conns[i]? = some c → c.traffic.taken <+: srv.replies i c.traffic
  stays : ∀ k c fd, s.slot k = some (c, fd) → s0.Stays k c fd
  ahead : ∀ k part revents, s.progress = .turn k part revents → Ahead srv s k part revents

theorem SteadyInv.connAt_eq (h : SteadyInv srv p req s0 s) (k : ℕ) : s.connAt k = s0.connAt k := by
  show s.pool.activeConns[k]? = _
  rw [h.taking.serving.counted.aligned.frame.activeConns]
  rfl

theorem SteadyInv.slot (h : SteadyInv srv p req s0 s) (hslot : s.slot k = some (c, fd)) :
    ∃ i c0, s0.connAt k = some i ∧ s0.pool.conns[i]? = some c0 ∧ s.pool.conns[i]? = some c ∧
      Tallied c fd ∧ Connection.Started srv p req i c0 ∧ Connection.Sending c0 c ∧
        Connection.Serving srv p req i c0 c ∧ Connection.Taking srv p req i c0 c := by
  obtain ⟨htallied, i, c0, hi, hc0, hstarted, hsending, hserving⟩ :=
    h.taking.serving.slots.slots k c fd hslot
  obtain ⟨j, hj, hc, -⟩ := slot_eq_some hslot
  rw [h.connAt_eq] at hj
  obtain rfl := Option.some.inj (hi.symm.trans hj)
  exact ⟨i, c0, hi, hc0, hc, htallied, hstarted, hsending, hserving,
    h.taking.slots.slots k c fd hslot i c0 hi hc0⟩

theorem SteadyInv.moves (h : SteadyInv srv p req s0 s) (hturn : s.progress = .turn k part revents)
    (hr : revents[k]? = some r) (hrun : e.run part r a = some (jump, e'))
    (hrule : e.Steady part r a) : e.Moves r a part jump e' :=
  Entry.run_moves hrun hrule ((h.ahead k part revents hturn).err r (List.mem_of_getElem? hr))

theorem Ahead.skip (h : Ahead srv s k part revents) (hnodup : s.pool.activeConns.Nodup)
    (hslot : s.slot k = some (c, fd)) (e' : Entry) (progress : Progress) :
    Ahead srv { s.setEntry k e' with progress } (k + 1) .error revents := by
  have hset : ∀ j, k + 1 ≤ j → (s.setEntry k e').slot j = s.slot j := fun j hj => by
    rw [slot_setEntry hnodup hslot, if_neg (by omega)]
  refine ⟨h.length_eq.trans List.length_set.symm, h.err, fun j r i c fd hj hr hin hi hc => ?_,
    fun j r c fd hj _ hr hin hc => ?_⟩
  · exact h.left j r i c fd (by omega) hr hin hi ((hset j hj).symm.trans hc)
  · exact h.asked j r c fd (by omega) (by omega) hr hin ((hset j hj).symm.trans hc)

theorem Ahead.next (h : Ahead srv s k part revents) (hnodup : s.pool.activeConns.Nodup)
    (hslot : s.slot k = some (c, fd)) {part' : Part} (progress : Progress)
    (hleft : ∀ r i, revents[k]? = some r → r.in_ = true → s.connAt k = some i →
      c.Left srv i → e'.conn.Left srv i)
    (hasked : part' = .error ∨ part' = .early → (part = .error ∨ part = .early) ∧ e'.pollfd = fd) :
    Ahead srv { s.setEntry k e' with progress } k part' revents := by
  have hset := slot_setEntry hnodup hslot e'
  refine ⟨h.length_eq.trans List.length_set.symm, h.err, fun j r i c' fd' hj hr hin hi hc => ?_,
    fun j r c' fd' hj hpart hr hin hc => ?_⟩
  · have hc' := (hset j).symm.trans hc
    split_ifs at hc' with hjk
    · subst hjk
      obtain ⟨rfl, rfl⟩ := Prod.mk.inj (Option.some.inj hc')
      exact hleft r i hr hin hi (h.left j r i c fd le_rfl hr hin hi hslot)
    · exact h.left j r i c' fd' hj hr hin hi hc'
  · have hc' := (hset j).symm.trans hc
    split_ifs at hc' with hjk
    · subst hjk
      obtain ⟨rfl, rfl⟩ := Prod.mk.inj (Option.some.inj hc')
      obtain ⟨hbefore, hfd⟩ := hasked (hpart rfl)
      rw [hfd]
      exact h.asked j r c fd le_rfl (fun _ => hbefore) hr hin hslot
    · exact h.asked j r c' fd' hj (fun heq => absurd heq hjk) hr hin hc'

theorem SteadyInv.step (h : SteadyInv srv p req s0 s) (hstep : Step s ev s')
    (hrule : srv.steadyRuns.step s ev s') : SteadyInv srv p req s0 s' := by
  have htaking := h.taking.step hstep (Servers.steadyRuns_timely hrule)
  obtain ⟨hanswering, hsteady, hreported⟩ := hrule
  cases hstep with
  | leave => exact ⟨htaking, h.answered, h.stays, fun _ _ _ hturn => Progress.noConfusion hturn⟩
  | fail => exact absurd rfl (hanswering.1 _ _)
  | @report revents hs h0 hr =>
    refine ⟨htaking, h.answered, h.stays, fun k part revents' hturn => ?_⟩
    obtain ⟨rfl, rfl, rfl⟩ : 0 = k ∧ Part.error = part ∧ revents = revents' := by simpa using hturn
    obtain ⟨-, herr, hin⟩ := hreported revents rfl
    refine ⟨hr.1, herr, fun j r i c fd _ hj hrin hi hslot => ?_, fun j r c fd _ _ hj hrin hslot => ?_⟩
    · obtain ⟨i', hi', hc, -⟩ := slot_eq_some hslot
      obtain rfl := Option.some.inj (hi.symm.trans hi')
      exact hin j r i c hj hrin hi hc
    · obtain ⟨-, -, -, hfd⟩ := slot_eq_some hslot
      exact (hr.2 j fd r hfd hj).2.1 hrin
  | @part k part revents r a e e' jump hturn he hr hrun =>
    have hslot := slot_of_entry he
    have hnodup := h.taking.slots.nodup
    have hset := slot_setEntry hnodup hslot e'
    have hmoves := h.moves hturn hr hrun (hsteady k part revents r a e rfl hturn hr he)
    have hahead := h.ahead k part revents hturn
    obtain ⟨i, c0, hi, hc0, hc, htallied, hstarted, -, hserving, -⟩ := h.slot hslot
    refine ⟨htaking, hanswering.2.2, fun j c fd hj => ?_, fun k' part' revents' hturn' => ?_⟩
    · have hj' := (hset j).symm.trans hj
      split_ifs at hj' with hjk
      · subst hjk
        obtain ⟨rfl, rfl⟩ := Prod.mk.inj (Option.some.inj hj')
        have hstays := h.stays j _ _ hslot
        refine ⟨hmoves.fd_nonneg htallied.tracked.live ?_ hstays.fd_nonneg, fun i c0 hi hc0 => ?_⟩
        · exact h.taking.serving.socketFd_ne _ (mem_of_entry he)
        · exact hmoves.socket.trans (hstays.socket_eq i c0 hi hc0)
      · exact h.stays j c fd hj'
    · rcases hnx : if jump then none else part.next with _ | p'
      · obtain ⟨rfl, rfl, rfl⟩ : k + 1 = k' ∧ Part.error = part' ∧ revents = revents' := by
          simpa [PollLoop.next, hnx] using hturn'
        exact hahead.skip hnodup hslot e' _
      · obtain ⟨rfl, rfl, rfl⟩ : k = k' ∧ p' = part' ∧ revents = revents' := by
          simpa [PollLoop.next, hnx] using hturn'
        obtain rfl : jump = false := by
          cases jump with
          | true => simp at hnx
          | false => rfl
        refine hahead.next hnodup hslot _ (fun r i' _ _ hi' hleft => ?_) fun hpart => ?_
        · rw [h.connAt_eq] at hi'
          obtain rfl := Option.some.inj (hi.symm.trans hi')
          have hconn : (s.setEntry k e').slot k = some (e'.conn, e'.pollfd) := by
            rw [hset, if_pos rfl]
          obtain ⟨-, j, c1, hj, hc1, -, hsending', -⟩ := htaking.serving.slots.slots k _ _ hconn
          obtain rfl := Option.some.inj (hi.symm.trans hj)
          obtain rfl := Option.some.inj (hc0.symm.trans hc1)
          exact hmoves.left hstarted hsending' hserving.answered hleft
        · have hnext : part.next = some p' := hnx
          generalize hjump : false = jump at hmoves
          cases hmoves with
          | passed =>
            refine ⟨?_, rfl⟩
            rcases hpart with rfl | rfl <;> cases part <;> cases hnext
            exact .inl rfl
          | peeked => rcases hpart with rfl | rfl <;> cases hnext
          | sent => rcases hpart with rfl | rfl <;> cases hnext
          | received => cases hjump
  | nextRound => exact ⟨htaking, h.answered, h.stays, fun _ _ _ hturn => Progress.noConfusion hturn⟩

theorem SteadyInv.steps (h : SteadyInv srv p req s0 s) (hsteps : Steps srv.steadyRuns.step s s') :
    SteadyInv srv p req s0 s' := by
  induction hsteps with
  | refl => exact h
  | tail _ hstep ih =>
    obtain ⟨ev, hstep, hrule⟩ := hstep
    exact ih.step hstep hrule

end PollLoop

/-! ### Between commands -/

/-- What has been taken from a socket has been sent there. -/
def ConnectionPool.Answered (srv : Servers) (p : ConnectionPool) : Prop :=
  ∀ (i : ℕ) (c : Connection), p.conns[i]? = some c → c.traffic.taken <+: srv.replies i c.traffic

theorem Connection.Retried.answered (h : Connection.Retried c c')
    (hc : c.traffic.taken <+: srv.replies i c.traffic) :
    c'.traffic.taken <+: srv.replies i c'.traffic := by
  rcases h with h | ⟨-, h | ⟨r, h⟩⟩
  · rw [h.traffic_eq]
    exact hc
  · rw [h.traffic_eq]
    exact hc
  · rw [h.traffic_eq]
    exact List.nil_prefix

/-- What a connection has taken does not change when it is marked dead. -/
theorem ConnectionPool.Answered.markDeadAll (h : p.Answered srv) (pollfds : Option (List PollFd))
    (times : ℕ → ℤ) : (p.markDeadAll pollfds times).Answered srv := by
  intro i c hc
  have hlt : i < p.conns.length := by
    rw [← (ConnectionPool.frame_markDeadAll pollfds times p).length]
    exact (List.getElem?_eq_some_iff.1 hc).1
  have hd : p.conns[i]? = some p.conns[i] := List.getElem?_eq_getElem hlt
  obtain ⟨d, hd', hanswered⟩ := ConnectionPool.conn_foldl_modifyConn
    (Q := fun c => c.traffic.taken <+: srv.replies i c.traffic)
    (f := fun x c => if pollfds.all fun fds => fds[x.2]?.any fun fd => fd.out || fd.in_ then
      c.markDead (times x.2) else c) Prod.fst
    (fun x c hc => by
      split_ifs
      · rw [Connection.traffic_markDead]
        exact hc
      · exact hc) p.activeConns.zipIdx ⟨_, hd, h i _ hd⟩
  obtain rfl := Option.some.inj (hc.symm.trans hd')
  exact hanswered

theorem Request.answered_dispatch (hp : Reachable rules p) (hanswered : p.Answered srv)
    (req : Request) : (req.dispatch p).Answered srv := by
  intro i c hc
  obtain ⟨base, hbase, hlive, hdis, -⟩ := req.dispatched hp hc
  exact (hdis.socket hlive).answered (hanswered i base hbase)

theorem ConnectionPool.WaitPoll.answered {code : ErrCode} {p' : ConnectionPool}
    (h : p.WaitPoll srv.failingRuns.step code p') (hp : p.Answered srv) : p'.Answered srv := by
  have htimely : ∀ {s}, PollLoop.Steps srv.timelyRuns.step p.startPoll s → s.pool.Answered srv := by
    intro s hsteps
    cases hsteps with
    | refl => exact hp
    | tail _ hstep =>
      obtain ⟨ev, -, hrule⟩ := hstep
      exact hrule.1.2.2
  cases h with
  | idle => exact hp
  | run _ hsteps hend =>
    rcases hsteps.ended nofun hend with ⟨hrun, -⟩ | ⟨t, times, hrun, -, hpool⟩
    · exact htimely hrun
    · rw [hpool]
      exact (htimely hrun).markDeadAll _ times

/-- **Between commands** what has been taken from a socket has been sent there, also on connections
that are not alive. -/
theorem Reachable.answered_failing (h : Reachable srv.failingRuns p) : p.Answered srv := by
  induction h with
  | init n =>
    intro i c hc
    rw [List.eq_of_mem_replicate (List.mem_of_getElem? hc)]
    exact List.nil_prefix
  | @config p hp retryTimeout maxRetries ih =>
    intro i c hc
    have hmap : (p.conns.map fun c => { c with retryTimeout, maxRetries })[i]? = some c := hc
    rw [List.getElem?_map, Option.map_eq_some_iff] at hmap
    obtain ⟨base, hbase, rfl⟩ := hmap
    exact ih i base hbase
  | @command p p' code hp req hreq hwait times ih =>
    have hfinish : (req.finish times p').Answered srv := by
      have hwaited := hwait.answered (req.answered_dispatch hp ih)
      unfold Request.finish
      split
      · split_ifs
        · exact hwaited.markDeadAll _ times
        · exact hwaited
      · exact hwaited
    intro i c hc
    rcases ConnectionPool.reset_conn_cases hc with ⟨-, hconn⟩ | ⟨-, d, hd, rfl⟩
    · exact hfinish i c hconn
    · exact hfinish i d hd

theorem PollLoop.steadyInv_startPoll (hp : Reachable srv.failingRuns p)
    (hreq : srv.steadyRuns.request p req) :
    SteadyInv srv p req (req.dispatch p).startPoll (req.dispatch p).startPoll := by
  refine ⟨takingInv_startPoll hp hp.settled_failing hreq,
    req.answered_dispatch hp hp.answered_failing, fun k c fd hslot => ?_, nofun⟩
  obtain ⟨rfl, htracked, -⟩ := req.slot_dispatch hp hslot
  refine ⟨htracked.live.1, fun i c0 hi hc0 => ?_⟩
  obtain ⟨i', hi', hc, -⟩ := slot_eq_some hslot
  obtain rfl := Option.some.inj (hi.symm.trans hi')
  obtain rfl := Option.some.inj (hc0.symm.trans hc)
  rfl

end Libmc
