import Libmc.PollSockets
import Libmc.Support.Run

/-!
# What is written to a socket

What a command has written to the present socket of a connection is the beginning of the bytes that
were queued, and what the writer has left is the rest (`Whole`). A connection that is lost gets a new
socket and a writer that is rewound, with two exceptions: before a whole buffer is sent `waitPoll`
reconnects without rewinding, and descriptor 0 is not closed. So requests are sent whole exactly if
nothing has been sent in these cases (`waitPoll_whole_iff`).
-/

namespace Libmc

variable {c c' c0 d : Connection} {p p' : ConnectionPool} {s s' s0 : PollLoop} {ev : Event}
  {r : Revents} {a : Answers} {e e' : Entry} {part : Part} {jump : Bool} {i k n : ℕ} {fd fd0 : PollFd}
  {err : ErrCode} {rules : Rules}

namespace Connection

/-- What is written to a socket is what had been written to it when the command was dispatched, and
the beginning of what was queued then; the rest of that is left. -/
def Whole (c0 c : Connection) : Prop :=
  ∃ sent, c.traffic.written =
      (if c.traffic.socket = c0.traffic.socket then c0.traffic.written else []) ++ sent ∧
    sent ++ c.bufferWriter.unread = c0.bufferWriter.unread

/-- A connection in the loop, and what it was when the command was dispatched. -/
structure Sending (c0 c : Connection) : Prop where
  request_eq : c.bufferWriter.request = c0.bufferWriter.unread
  socket_le : c0.traffic.socket ≤ c.traffic.socket
  whole : Whole c0 c

theorem Sending.congr (h : Sending c0 c) (hwriter : c'.bufferWriter = c.bufferWriter)
    (hsocket : c'.traffic.socket = c.traffic.socket)
    (hwritten : c'.traffic.written = c.traffic.written) : Sending c0 c' := by
  obtain ⟨sent, hsent, hleft⟩ := h.whole
  refine ⟨?_, ?_, sent, ?_, ?_⟩
  · rw [hwriter]
    exact h.request_eq
  · rw [hsocket]
    exact h.socket_le
  · rw [hwritten, hsocket]
    exact hsent
  · rw [hwriter]
    exact hleft

/-- A new socket has got nothing, so everything has to be left. -/
theorem Sending.whole_iff_of_reconnected (h : Sending c0 c)
    (hc : c'.traffic = { socket := c.traffic.socket + 1 }) :
    Whole c0 c' ↔ c'.bufferWriter.unread = c0.bufferWriter.unread := by
  have hne : c.traffic.socket + 1 ≠ c0.traffic.socket := by
    have := h.socket_le
    omega
  unfold Whole
  rw [hc]
  simp only [if_neg hne, List.nil_append]
  constructor
  · rintro ⟨sent, hsent, hleft⟩
    rw [← hsent] at hleft
    exact hleft
  · intro hleft
    exact ⟨[], rfl, hleft⟩

/-- A writer that is rewound while the socket stays. -/
theorem Sending.whole_iff_of_same (h : Sending c0 c) (hc : c'.traffic = c.traffic)
    (hunread : c'.bufferWriter.unread = c0.bufferWriter.unread) :
    Whole c0 c' ↔ c.bufferWriter.unread = c0.bufferWriter.unread := by
  obtain ⟨sent, hsent, hleft⟩ := h.whole
  unfold Whole
  rw [hc, hsent, hunread]
  constructor
  · rintro ⟨sent', hsent', hleft'⟩
    have hnil : sent' = [] := List.append_left_eq_self.1 hleft'
    rw [hnil] at hsent'
    rw [List.append_cancel_left hsent'] at hleft
    exact hleft
  · intro heq
    rw [heq] at hleft
    exact ⟨[], by rw [List.append_left_eq_self.1 hleft], rfl⟩

end Connection

/-! ### When it goes wrong -/

namespace Entry

theorem Loses.some (h : e.Loses part r a) : r.Some := by
  cases part with
  | error => exact .inl h
  | early => exact .inr (.inr h.1)
  | send => exact .inr (.inl h.1)
  | recv => exact .inr (.inr h.1)

/-- The lost connection is not rewound although it gets a new socket, or is rewound although it
keeps its socket. -/
def Misses (part : Part) (a : Answers) (e : Entry) : Prop :=
  if part = .early then
    e.conn.socketFd ≠ 0 ∧ a.deadTime ≤ a.reconnect.now ∧ a.reconnect.fd ≠ none
  else e.conn.socketFd = 0

/-- Nothing of the request has been sent if its connection is lost in one of these cases. -/
def Unsent (part : Part) (r : Revents) (a : Answers) (e : Entry) : Prop :=
  e.Loses part r a → e.Misses part a → e.conn.bufferWriter.unread = e.conn.bufferWriter.request

theorem restarted_alive (h : e.conn.LiveFd) (halive : e.conn.alive = true)
    (hfd : e.conn.socketFd ≠ 0) :
    (e.restarted a).alive = true ↔ a.deadTime ≤ a.reconnect.now ∧ a.reconnect.fd ≠ none := by
  have hwaited := (Connection.recv_cases true a.bytes e.conn).1 (.inl rfl)
  unfold restarted
  generalize (e.conn.recv true a.bytes).2 = d at hwaited
  have hpos : 0 < d.socketFd := by
    have := h.1 halive
    rw [hwaited.socket.socketFd_eq]
    omega
  have hdead : d.markDead a.deadTime =
      { d with deadUntil := a.deadTime, alive := false, socketFd := -1 } := by
    unfold Connection.markDead Connection.close
    rw [if_pos (hwaited.socket.alive_eq.trans halive)]
    exact if_pos hpos
  rw [hdead]
  unfold Connection.tryReconnect Connection.attempt Connection.connect
  simp only [Bool.false_eq_true, if_false]
  split_ifs with hnow
  · rcases a.reconnect.fd with _ | fd
    · simp [Connection.close]
    · simp [hnow]
  · simp [hnow]

theorem Effect.sending (h : Effect r a e part jump e') (he : Tracked e.conn e.pollfd)
    (halive : r.Some → e.conn.alive = true) (hrule : e.Unsent part r a)
    (hs : Connection.Sending c0 e.conn) : Connection.Sending c0 e'.conn := by
  have hwaited : ∀ {d}, Connection.Waited e.conn d → Connection.Sending c0 d := fun hd =>
    hs.congr hd.bufferWriter_eq (by rw [hd.socket.traffic_eq]) (by rw [hd.socket.traffic_eq])
  have hsocket : ∀ {d}, Connection.Waited e.conn d → e'.conn.traffic.socket =
      d.traffic.socket ∨ e'.conn.traffic.socket = d.traffic.socket + 1 →
        c0.traffic.socket ≤ e'.conn.traffic.socket := fun hd hor => by
    have := (hwaited hd).socket_le
    omega
  cases h with
  | idle => exact hs
  | @rewound _ d _ hpart hloses hd h =>
    have hwf : d.bufferWriter.Wf := by
      rw [hd.bufferWriter_eq]
      exact he.wf
    obtain ⟨-, hunread, hrequest, -⟩ := hwf.rewind
    have hleft : e'.conn.bufferWriter.unread = c0.bufferWriter.unread := by
      rw [h.bufferWriter_eq, hunread]
      exact (hwaited hd).request_eq
    have hreq : e'.conn.bufferWriter.request = c0.bufferWriter.unread := by
      rw [h.bufferWriter_eq, hrequest]
      exact (hwaited hd).request_eq
    rcases h.socket with ⟨-, hnew⟩ | ⟨hfd, hsame⟩
    · refine ⟨hreq, hsocket hd (.inr (by rw [hnew.traffic_eq])), ?_⟩
      exact ((hwaited hd).whole_iff_of_reconnected hnew.traffic_eq).2 hleft
    · refine ⟨hreq, hsocket hd (.inl (by rw [hsame.traffic_eq])), ?_⟩
      refine ((hwaited hd).whole_iff_of_same hsame.traffic_eq hleft).2 ?_
      have hmisses : e.Misses part a := by
        unfold Misses
        rw [if_neg hpart, ← hd.socket.socketFd_eq]
        exact hfd
      rw [hd.bufferWriter_eq, hrule hloses hmisses]
      exact hs.request_eq
  | @resumed d _ hloses hd h heq =>
    have hreq : e'.conn.bufferWriter.request = c0.bufferWriter.unread := by
      rw [h.work.bufferWriter_eq]
      exact (hwaited hd).request_eq
    rcases h.socket with ⟨hfd, hnew⟩ | ⟨-, hsame⟩
    · refine ⟨hreq, hsocket hd (.inr (by rw [hnew.traffic_eq])), ?_⟩
      refine ((hwaited hd).whole_iff_of_reconnected hnew.traffic_eq).2 ?_
      have hfd' : e.conn.socketFd ≠ 0 := by
        rw [← hd.socket.socketFd_eq]
        exact hfd
      have hestablished := (restarted_alive he.live (halive hloses.some) hfd').1 (heq ▸ h.alive_eq)
      rw [h.work.bufferWriter_eq, hd.bufferWriter_eq, hrule hloses ⟨hfd', hestablished⟩]
      exact hs.request_eq
    · exact (hwaited hd).congr h.work.bufferWriter_eq (by rw [hsame.traffic_eq])
        (by rw [hsame.traffic_eq])
  | givenUp _ hd h =>
    exact (hwaited hd).congr h.work.bufferWriter_eq (by rw [h.closed.traffic_eq])
      (by rw [h.closed.traffic_eq])
  | peeked _ _ _ hd => exact hwaited hd
  | @sent n _ _ hn =>
    have hpre := Connection.offered_prefix e.conn
    have htake : e.conn.offered.take n = e.conn.bufferWriter.unread.take n := by
      obtain ⟨rest, hrest⟩ := hpre
      rw [← hrest, List.take_append_of_le_length hn]
    obtain ⟨-, hunread, hrequest, -⟩ := he.wf.commitRead (hn.trans hpre.length_le)
    obtain ⟨sent, hsent, hleft⟩ := hs.whole
    refine ⟨hrequest.trans hs.request_eq, hs.socket_le, sent ++ e.conn.offered.take n, ?_, ?_⟩
    · show e.conn.traffic.written ++ _ = _
      rw [hsent, List.append_assoc]
      rfl
    · show _ ++ (e.conn.bufferWriter.commitRead n).unread = _
      rw [hunread, htake, List.append_assoc, List.take_append_drop]
      exact hleft
  | @received bs d d' err _ _ _ hd hp =>
    have hprocessed := hd.processed hp
    have hgot : Connection.Sending c0 d' := hs.congr hprocessed.bufferWriter_eq
      (by rw [hprocessed.traffic_eq]) (by rw [hprocessed.traffic_eq])
    have htraffic := Connection.traffic_markDead a.deadTime d'
    exact conn_parsed hgot (hgot.congr (Connection.sameWork_markDead _ _).bufferWriter_eq
      (congrArg Traffic.socket htraffic) (congrArg Traffic.written htraffic))

/-- In these cases the request is not sent whole, unless nothing of it has been sent. -/
theorem Effect.not_whole (h : Effect r a e part jump e') (he : Tracked e.conn e.pollfd)
    (halive : r.Some → e.conn.alive = true) (hs : Connection.Sending c0 e.conn)
    (hrule : ¬ e.Unsent part r a) :
    ¬ Connection.Whole c0 e'.conn := by
  unfold Unsent at hrule
  push Not at hrule
  obtain ⟨hloses, hmisses, hne⟩ := hrule
  rw [hs.request_eq] at hne
  have hwaited : ∀ {d}, Connection.Waited e.conn d → Connection.Sending c0 d := fun hd =>
    hs.congr hd.bufferWriter_eq (by rw [hd.socket.traffic_eq]) (by rw [hd.socket.traffic_eq])
  unfold Misses at hmisses
  cases h with
  | idle hkeeps => exact absurd hloses hkeeps
  | peeked hkeeps => exact absurd hloses hkeeps
  | sent hkeeps => exact absurd hloses hkeeps
  | received hkeeps => exact absurd hloses hkeeps
  | @rewound _ d _ hpart _ hd h =>
    rw [if_neg hpart] at hmisses
    have hwf : d.bufferWriter.Wf := by
      rw [hd.bufferWriter_eq]
      exact he.wf
    have hleft : e'.conn.bufferWriter.unread = c0.bufferWriter.unread := by
      rw [h.bufferWriter_eq, hwf.rewind.2.1]
      exact (hwaited hd).request_eq
    rcases h.socket with ⟨hfd, -⟩ | ⟨-, hsame⟩
    · exact absurd (hd.socket.socketFd_eq.trans hmisses) hfd
    · rw [(hwaited hd).whole_iff_of_same hsame.traffic_eq hleft, hd.bufferWriter_eq]
      exact hne
  | @resumed d _ _ hd h heq =>
    rw [if_pos rfl] at hmisses
    rcases h.socket with ⟨-, hnew⟩ | ⟨hfd, -⟩
    · rw [(hwaited hd).whole_iff_of_reconnected hnew.traffic_eq, h.work.bufferWriter_eq,
        hd.bufferWriter_eq]
      exact hne
    · exact absurd (hd.socket.socketFd_eq.symm.trans hfd) hmisses.1
  | givenUp _ hd h heq =>
    split_ifs at hmisses with hpart
    · subst hpart
      have hdead := h.closed.alive_eq
      rw [heq rfl, (restarted_alive he.live (halive hloses.some) hmisses.1).2 hmisses.2] at hdead
      cases hdead
    · exact absurd (hd.socket.socketFd_eq.trans hmisses) h.fd_ne

end Entry

/-! ### Runs -/

namespace PollLoop

/-- The active connections since the command was dispatched. -/
def Whole (s0 s : PollLoop) : Prop :=
  ∀ i ∈ s0.pool.activeConns, ∀ c0 c, s0.pool.conns[i]? = some c0 → s.pool.conns[i]? = some c →
    Connection.Whole c0 c

def sendingSlot (s0 : PollLoop) : SlotInvariant where
  holds k c fd := Tracked c fd ∧ ∀ c0 fd0, s0.slot k = some (c0, fd0) → Connection.Sending c0 c
  reported _ r c _ := r.Some → c.alive = true

theorem local_sendingSlot (s0 : PollLoop) : (sendingSlot s0).Local Entry.Unsent where
  report _ _ _ _ h hr hsome := h.1.alive hr hsome
  part k part r a e jump e' := by
    rintro ⟨htracked, hsending⟩ halive hrule hrun
    have heffect := Entry.run_cases htracked.live hrun
    refine ⟨⟨heffect.tracked htracked, fun c0 fd0 h0 => ?_⟩, ?_⟩
    · exact heffect.sending htracked halive hrule (hsending c0 fd0 h0)
    · rintro rfl _ _ hsome
      rw [heffect.alive_eq]
      exact halive hsome

structure SendInv (s0 s : PollLoop) : Prop where
  slots : s.progress ≠ .broken → (sendingSlot s0).Inv s
  aligned : Aligned s0 s

theorem SendInv.whole (h : SendInv s0 s) (h0 : Aligned s0 s0) (hs : s.progress ≠ .broken) :
    Whole s0 s := by
  intro i hi c0 c hc0 hc
  obtain ⟨k, hk⟩ := List.mem_iff_getElem?.1 hi
  obtain ⟨fd0, hslot0⟩ := h0.slot hk hc0
  obtain ⟨fd, hslot⟩ := h.aligned.slot hk hc
  exact (((h.slots hs).slots k c fd hslot).2 c0 fd0 hslot0).whole

theorem SendInv.step (h : SendInv s0 s) (h0 : Aligned s0 s0) (hstep : Step s ev s')
    (hrule : SlotInvariant.PartRule Entry.Unsent s ev) : SendInv s0 s' ∧ Whole s0 s' := by
  have hs := SlotInvariant.step_not_broken hstep
  have hinv : SendInv s0 s' :=
    ⟨fun hs' => (h.slots hs).step (local_sendingSlot s0) hstep hrule hs', h.aligned.step hstep⟩
  refine ⟨hinv, ?_⟩
  by_cases hs' : s'.progress = .broken
  · obtain ⟨code, times, -, rfl⟩ := SlotInvariant.step_broken hstep hs'
    -- marking dead writes nothing
    intro i hi c0 c hc0 hc
    have hlt : i < s.pool.conns.length := by
      rw [h.aligned.frame.length]
      exact (List.getElem?_eq_some_iff.1 hc0).1
    obtain ⟨d, hd, hwhole⟩ := ConnectionPool.conn_foldl_modifyConn
      (Q := Connection.Whole c0) (i := i)
      (f := fun x c => if (some s.pollfds).all fun fds => fds[x.2]?.any fun fd => fd.out || fd.in_
        then c.markDead (times x.2) else c) Prod.fst (fun x c hc => by
          split_ifs
          · obtain ⟨sent, hsent, hleft⟩ := hc
            refine ⟨sent, ?_, ?_⟩
            · rw [Connection.traffic_markDead]
              exact hsent
            · rw [(Connection.sameWork_markDead _ _).bufferWriter_eq]
              exact hleft
          · exact hc) s.pool.activeConns.zipIdx
      ⟨_, List.getElem?_eq_getElem hlt,
        h.whole h0 hs i hi c0 _ hc0 (List.getElem?_eq_getElem hlt)⟩
    obtain rfl := Option.some.inj (hd.symm.trans hc)
    exact hwhole
  · exact hinv.whole h0 hs'

theorem SendInv.not_whole (h : SendInv s0 s) (h0 : Aligned s0 s0) (hstep : Step s ev s')
    (hrule : ¬ SlotInvariant.PartRule Entry.Unsent s ev) : ¬ Whole s0 s' := by
  have hs := SlotInvariant.step_not_broken hstep
  unfold SlotInvariant.PartRule at hrule
  push Not at hrule
  obtain ⟨k, part, revents, r, a, e, rfl, hturn, hr, he, hunsent⟩ := hrule
  cases hstep with
  | @part k' part' revents' r' _ e₁ e' jump hs' he' hr' hrun =>
    obtain ⟨rfl, rfl, rfl⟩ : k' = k ∧ part' = part ∧ revents' = revents := by
      simpa using hs'.symm.trans hturn
    obtain rfl := Option.some.inj (hr'.symm.trans hr)
    obtain rfl := Option.some.inj (he'.symm.trans he)
    have hslot := slot_of_entry he
    obtain ⟨i, hi, hc, hfd⟩ := slot_eq_some hslot
    have hi0 : s0.pool.activeConns[k']? = some i := by
      rw [← h.aligned.frame.activeConns]
      exact hi
    have hlt : i < s.pool.conns.length := (List.getElem?_eq_some_iff.1 hc).1
    have hc0 := List.getElem?_eq_getElem (h.aligned.frame.length ▸ hlt)
    obtain ⟨fd0, hslot0⟩ := h0.slot hi0 hc0
    obtain ⟨htracked, hsending⟩ := (h.slots hs).slots _ _ _ hslot
    have halive := (h.slots hs).reported _ _ _ hs' _ _ _ _ le_rfl hr' hslot
    rw [if_pos rfl] at halive
    have hnot := (Entry.run_cases htracked.live hrun).not_whole htracked halive
      (hsending _ fd0 hslot0) hunsent
    refine fun hwhole => hnot (hwhole i (List.mem_of_getElem? hi0) _ _ hc0 ?_)
    show (s.setEntry k' e').pool.conns[i]? = some e'.conn
    rw [conns_setEntry hi]
    exact List.getElem?_set_self hlt

/-- Several steps, if they can be taken. -/
def execs (s : PollLoop) (evs : List Event) : Option PollLoop := evs.foldlM exec s

theorem run_of_execs {evs : List Event} (h : s.execs evs = some s') (hne : evs ≠ []) :
    ∃ tr, Run Step s tr s' ∧ ∃ x ∈ tr, x.after = s' := by
  induction evs using List.reverseRecOn generalizing s' with
  | nil => exact absurd rfl hne
  | append_singleton evs ev ih =>
    unfold execs at h
    rw [List.foldlM_append] at h
    obtain ⟨t, ht, hev⟩ := Option.bind_eq_some_iff.1 h
    have hstep : Step t ev s' := step_of_exec _ (by simpa using hev)
    have hrun : ∃ tr, Run Step s tr t := by
      rcases evs.eq_nil_or_concat with rfl | ⟨l, x, rfl⟩
      · obtain rfl : s = t := by simpa using ht
        exact ⟨[], .nil⟩
      · obtain ⟨tr, hrun, -⟩ := ih ht (by simp)
        exact ⟨tr, hrun⟩
    obtain ⟨tr, hrun⟩ := hrun
    exact ⟨_, hrun.snoc hstep, _, List.mem_append_right _ (List.mem_singleton_self _), rfl⟩

end PollLoop

theorem sendInv_startPoll (hp : Reachable rules p) (req : Request) :
    PollLoop.SendInv (req.dispatch p).startPoll (req.dispatch p).startPoll where
  slots _ := by
    refine SlotInvariant.inv_startPoll (req.dispatch_active hp.clean).1 fun k i c hi hc => ?_
    obtain ⟨fd, hslot⟩ := (PollLoop.aligned_startPoll (req.dispatch p)).slot hi hc
    obtain ⟨rfl, htracked, -, hunread⟩ := req.slot_dispatch hp hslot
    refine ⟨htracked, fun c0 fd0 h0 => ?_⟩
    obtain ⟨rfl, -⟩ := Prod.mk.inj (Option.some.inj (hslot.symm.trans h0))
    refine ⟨hunread.symm, le_rfl, [], ?_, rfl⟩
    rw [if_pos rfl, List.append_nil]
  aligned := PollLoop.aligned_startPoll _

/-- **Requests are sent whole.** In a run of `waitPoll` the bytes that are written to each socket are
the beginning of what the command has queued, and what is left is the rest, exactly if nothing of a
request has been sent when its connection is lost before a whole buffer is sent and gets a new
socket, or is lost on descriptor 0. -/
theorem waitPoll_whole_iff (hp : Reachable rules p) (req : Request)
    {tr : List (Transition PollLoop Event)}
    (h : Run PollLoop.Step (req.dispatch p).startPoll tr s) :
    (∀ x ∈ tr, (req.dispatch p).startPoll.Whole x.after) ↔
      ∀ x ∈ tr, SlotInvariant.PartRule Entry.Unsent x.before x.event := by
  have h0 := PollLoop.aligned_startPoll (req.dispatch p)
  exact h.forall_iff (I := PollLoop.SendInv (req.dispatch p).startPoll)
    (P := fun x => (req.dispatch p).startPoll.Whole x.after) (sendInv_startPoll hp req)
    (fun s ev s' hs hstep hrule => hs.step h0 hstep hrule)
    fun s ev s' hs hstep hrule => hs.not_whole h0 hstep hrule

theorem get_mem : OpCode.get ∈ [OpCode.get, .gets] := List.mem_cons_self

/-- A command for one server. -/
def getOne : Request :=
  .retrieval ⟨.get, get_mem⟩ [(ascii "k", { tried := [(0, ⟨0, some 5⟩)], conn := some 0 })]

/-- Half of a request is sent. -/
theorem waitPoll_whole_half : ∃ s c, s.pool.conns[0]? = some c ∧
    c.traffic.written = ascii "ge" ∧ (getOne.dispatch (.init 1)).startPoll.Whole s := by
  have hreport : Run PollLoop.Step (getOne.dispatch (.init 1)).startPoll _ _ :=
    .snoc .nil (PollLoop.step_of_exec (.report [{ out := true }]) rfl)
  have herror := hreport.snoc (PollLoop.step_of_exec (.part {}) rfl)
  have hearly := herror.snoc (PollLoop.step_of_exec (.part {}) rfl)
  have hsend := hearly.snoc (PollLoop.step_of_exec (.part { room := some 2 }) rfl)
  refine ⟨_, _, rfl, by decide, (waitPoll_whole_iff (.init 1 : Reachable {} _) getOne hsend).2
    (fun x hx k part revents r a e hev hturn hr _ hloses => ?_) _
    (List.mem_append_right _ (List.mem_singleton_self _))⟩
  -- no part of the run loses the connection
  exfalso
  simp only [List.nil_append, List.cons_append, List.mem_cons, List.not_mem_nil, or_false] at hx
  rcases hx with rfl | rfl | rfl | rfl
  · cases hev
  · cases hturn
    cases hr
    cases hloses
  · cases hturn
    cases hr
    cases hloses.1
  · cases hev
    cases hturn
    cases hloses.2

/-- Two bytes of a command are sent when its connection is lost. The rest goes to the new socket. -/
theorem waitPoll_not_whole : ¬ ∀ (p : ConnectionPool) (req : Request) (s : PollLoop)
    (tr : List (Transition PollLoop Event)), Reachable {} p →
      Run PollLoop.Step (req.dispatch p).startPoll tr s →
        ∀ x ∈ tr, (req.dispatch p).startPoll.Whole x.after := by
  intro h
  obtain ⟨c0, hc0, hqueued, hfirst⟩ : ∃ c0, (getOne.dispatch (.init 1)).conns[0]? = some c0 ∧
      c0.bufferWriter.unread = ascii "get k\r\n" ∧ c0.traffic.socket = 1 :=
    ⟨_, rfl, by decide, by decide⟩
  have hexec : ((getOne.dispatch (.init 1)).startPoll.execs
      [.report [{ out := true }], .part {}, .part {}, .part { room := some 2 }, .part {}, .nextRound,
        .report [{ in_ := true }], .part {}, .part { reconnect := ⟨0, some 6⟩ }, .nextRound,
        .report [{ out := true }], .part {}, .part {}, .part { room := some 100 }]).bind
      (fun s => s.pool.conns[0]?.map fun c => (c.traffic.written, c.traffic.socket)) =
        some (ascii "t k\r\n", 2) := by decide
  obtain ⟨s, hs, hmap⟩ := Option.bind_eq_some_iff.1 hexec
  obtain ⟨c, hc, hpair⟩ := Option.map_eq_some_iff.1 hmap
  obtain ⟨hwritten, hsocket⟩ := Prod.mk.inj hpair
  obtain ⟨tr, hrun, x, hx, rfl⟩ := PollLoop.run_of_execs hs (by simp)
  obtain ⟨sent, hsent, hleft⟩ :=
    h _ getOne _ tr (.init 1) hrun x hx 0 (by decide) c0 c hc0 hc
  rw [hwritten, hsocket, hfirst, if_neg (by decide), List.nil_append] at hsent
  rw [← hsent, hqueued] at hleft
  have hnew : (ascii "t k\r\n").head? = some 116 := by decide
  have hfull : (ascii "get k\r\n").head? = some 103 := by decide
  rw [← hleft, List.head?_append, hnew] at hfull
  exact absurd (Option.some.inj hfull) (by decide)

end Libmc
