import Libmc.PollTaken

/-!
# Commands that time out

`poll` may fail or time out in any round. That ends the loop, and every connection is marked dead
whose exchange is not over, so nothing that is left of the replies is ever read: the connections that
are alive are settled after any run of commands (`Reachable.settled_failing`). The results of a
command are those of what each connection has taken of the answers, whether the command has succeeded
or not (`waitPoll_taken`), and with `RET_OK` that is all of them.
-/

namespace Libmc

variable {c c' c0 d : Connection} {p p' : ConnectionPool} {s s' s0 t : PollLoop} {ev : Event}
  {i k : ℕ} {rules : Rules} {srv : Servers} {req : Request} {got : Bytes} {code : ErrCode}

/-- Besides, `poll` may fail. -/
def Servers.failingRuns (srv : Servers) : Rules where
  request := srv.timelyRuns.request
  step s ev s' := (∃ code times, ev = .fail code times) ∨ srv.timelyRuns.step s ev s'

namespace PollLoop

theorem Steps.timely (hsteps : Steps srv.failingRuns.step s s') (hs' : s'.progress ≠ .broken) :
    Steps srv.timelyRuns.step s s' := by
  induction hsteps with
  | refl => exact .refl
  | tail _ hstep ih =>
    obtain ⟨ev, hstep, hrule⟩ := hstep
    rcases hrule with ⟨code, times, rfl⟩ | hrule
    · cases hstep
      exact absurd rfl hs'
    · exact (ih (SlotInvariant.step_not_broken hstep)).tail ⟨ev, hstep, hrule⟩

/-- The loop is left after a run in which `poll` has not failed, or when it fails after one. -/
theorem Steps.ended (hsteps : Steps srv.failingRuns.step s0 s) (h0 : s0.progress ≠ .broken)
    (hend : s.Ended) : Steps srv.timelyRuns.step s0 s ∧ s.progress = .finished ∨
      ∃ t times, Steps srv.timelyRuns.step s0 t ∧ t.progress ≠ .broken ∧
        s.pool = t.pool.markDeadAll (some t.pollfds) times := by
  rcases hend with hfinished | hbroken
  · exact .inl ⟨hsteps.timely (by rw [hfinished]; nofun), hfinished⟩
  · obtain ⟨t, code, times, hrun, ht, -, rfl⟩ := SlotInvariant.steps_broken hsteps h0 hbroken
    exact .inr ⟨t, times, hrun.timely ht, ht, rfl⟩

theorem TakingInv.failed (h : TakingInv srv p req s0 t) (times : ℕ → ℤ)
    (hi : i ∈ s0.pool.activeConns)
    (hc : (t.pool.markDeadAll (some t.pollfds) times).conns[i]? = some c) :
    ∃ c0, s0.pool.conns[i]? = some c0 ∧ Connection.Taking srv p req i c0 c ∧ c.Done srv i := by
  obtain ⟨k, hk⟩ := List.mem_iff_getElem?.1 hi
  have hk' : t.pool.activeConns[k]? = some i := by
    rw [h.serving.counted.aligned.frame.activeConns]
    exact hk
  have hlt : i < t.pool.conns.length := by
    rw [← (ConnectionPool.frame_markDeadAll (some t.pollfds) times t.pool).length]
    exact (List.getElem?_eq_some_iff.1 hc).1
  have hd : t.pool.conns[i]? = some t.pool.conns[i] := List.getElem?_eq_getElem hlt
  generalize t.pool.conns[i] = d at hd
  obtain ⟨fd, hslot⟩ := h.serving.counted.aligned.slot hk hd
  obtain ⟨c0, hc0, hstarted, hsending, hserving, htaking⟩ := h.conn hi hd
  have hfd := h.serving.socketFd_ne d (List.mem_of_getElem? hd)
  -- no exchange is left
  have hnone := (h.serving.counted.exchanging_fail h.serving.not_broken times).2 fun j _ c hc _ =>
    h.serving.socketFd_ne c (List.mem_of_getElem? hc)
  have hmarked := markDeadAll_slot h.serving.slots.nodup hk' hslot times
  obtain rfl := Option.some.inj (hc.symm.trans hmarked)
  split_ifs at hc ⊢ with hevents
  · refine ⟨c0, hc0, htaking.markDead (times k), ?_, fun halive => ?_⟩
    · exact (Connection.sameWork_markDead (times k) d).parser_eq ▸ hserving.ok
    · have hlive := ((h.serving.slots.slots k d fd hslot).1).tracked.live
      cases (Connection.alive_markDead hlive hfd (times k)).symm.trans halive
  · refine ⟨c0, hc0, htaking, hserving.ok, fun halive => ?_⟩
    refine hserving.answered_end hstarted hsending halive fun hex => ?_
    have hmem : i ∈ (t.pool.markDeadAll (some t.pollfds) times).activeConns := by
      rw [(ConnectionPool.frame_markDeadAll (some t.pollfds) times t.pool).activeConns]
      exact List.mem_of_getElem? hk'
    have hpos : 0 < (t.pool.markDeadAll (some t.pollfds) times).exchanging :=
      exchanging_pos (s := { t with pool := t.pool.markDeadAll (some t.pollfds) times }) hmem hc hex
    exact hpos.ne' hnone

end PollLoop

/-! ### The end of a command -/

theorem waitPoll_conn (hp : Reachable rules p) (hsettled : p.Settled srv)
    (hreq : srv.failingRuns.request p req)
    (hwait : (req.dispatch p).WaitPoll srv.failingRuns.step code p')
    (hi : i ∈ (req.dispatch p).activeConns) (hc : p'.conns[i]? = some c) :
    ∃ c0, (req.dispatch p).conns[i]? = some c0 ∧ Connection.Taking srv p req i c0 c ∧
      c.Done srv i := by
  have hstart := PollLoop.takingInv_startPoll hp hsettled hreq
  cases hwait with
  | idle hzero =>
    -- nothing is active
    rw [(req.dispatch_active hp.clean).2, Nat.mod_eq_of_lt hreq.2] at hzero
    rw [List.length_eq_zero_iff.1 hzero] at hi
    cases hi
  | @run s _ hsteps hend =>
    rcases hsteps.ended nofun hend with ⟨htimely, -⟩ | ⟨t, times, htimely, -, hpool⟩
    · have hinv := hstart.steps htimely
      obtain ⟨c0, hc0, -, -, -, htaking⟩ := hinv.conn hi hc
      exact ⟨c0, hc0, htaking, hinv.serving.done hinv.counted hend hi hc⟩
    · rw [hpool] at hc
      exact (hstart.steps htimely).failed times hi hc

/-- **Between commands** all that is answered on a connection that is alive has been taken, whatever
has failed before. -/
theorem Reachable.settled_failing (h : Reachable srv.failingRuns p) : p.Settled srv := by
  induction h with
  | init n =>
    intro i c hc
    rw [List.eq_of_mem_replicate (List.mem_of_getElem? hc)]
    exact ⟨⟨BufferReader.wf_default, fun _ hmem => absurd hmem List.not_mem_nil,
      fun _ hmem => absurd hmem List.not_mem_nil⟩, ⟨rfl, rfl, rfl, rfl, rfl, rfl, rfl, rfl, rfl⟩,
      nofun⟩
  | @config p hp retryTimeout maxRetries ih =>
    intro i c hc
    have hmap : (p.conns.map fun c => { c with retryTimeout, maxRetries })[i]? = some c := hc
    rw [List.getElem?_map, Option.map_eq_some_iff] at hmap
    obtain ⟨base, hbase, rfl⟩ := hmap
    exact (ih i base hbase).idled (hp.live _ (List.mem_of_getElem? hbase))
      ⟨⟨rfl, rfl, rfl⟩, fun _ => .inl ⟨rfl, rfl, rfl⟩⟩
  | @command p p' code hp req hreq hwait times ih =>
    refine Request.settled_reset hp ih hwait.frame (fun i hi c hc => ?_) times
    obtain ⟨c0, -, -, hdone⟩ := waitPoll_conn hp ih hreq hwait hi hc
    exact hdone

namespace Connection

/-- What is left of the answers when the exchange of a connection is over: nothing. -/
theorem Serving.whole_end (h : Serving srv p req i c0 c) (halive : c.alive = true)
    (hdone : ¬ c.Exchanging)
    (htaken : c.traffic.taken = srv.answers i c.traffic.socket 0 (earlier c0 c) ++ got) :
    got = srv.answers i c.traffic.socket (earlier c0 c).length (req.commandsFor p i) ∧
      (0 < req.counterFor i → c.traffic.processed = some .ok) := by
  obtain ⟨got', rest, hreceiving⟩ := h.receiving
  obtain rfl : got = got' := List.append_cancel_left (htaken.symm.trans hreceiving.taken_eq)
  have hanswered : 0 < req.counterFor i → c.traffic.processed = some .ok := fun hpos => by
    by_contra howed
    exact hdone ⟨halive, .inr ⟨h.counter_eq ▸ hpos, howed⟩⟩
  refine ⟨?_, hanswered⟩
  have hwhole := hreceiving.whole
  by_cases hpos : 0 < req.counterFor i
  · rw [← hwhole, hreceiving.finished halive (hanswered hpos), List.append_nil]
  · -- no reply is owed
    have hnil : srv.answers i c.traffic.socket (earlier c0 c).length (req.commandsFor p i) = [] :=
      Servers.answers_eq_nil fun cmd hcmd => by simpa using mt (req.expectsReply_iff hcmd).1 hpos
    rw [hnil] at hwhole ⊢
    exact (List.append_eq_nil_iff.1 hwhole).1

/-- What a connection has received of the answers to a command, which are answers from the `n`-th on,
and what its parser makes of it; `code` is the code of the command. -/
structure Responded (srv : Servers) (p : ConnectionPool) (req : Request) (i : ℕ) (code : ErrCode)
    (c : Connection) (n : ℕ) (got : Bytes) : Prop where
  ok : c.parser.Ok
  part : got <+: srv.answers i c.traffic.socket n (req.commandsFor p i)
  took : ∃ v, PacketParser.Ready v (req.keysFor i) req.parserMode ∧
    v.Took got c.traffic.processed c.parser.view
  whole : code = .ok → got = srv.answers i c.traffic.socket n (req.commandsFor p i) ∧
    (0 < req.counterFor i → c.traffic.processed = some .ok)

end Connection

/-- The results of a command, and the connection when the command was dispatched. -/
theorem waitPoll_taken_since (hp : Reachable srv.failingRuns p) (hreq : srv.failingRuns.request p req)
    (hwait : (req.dispatch p).WaitPoll srv.failingRuns.step code p')
    (hi : i ∈ (req.dispatch p).activeConns) (hc : p'.conns[i]? = some c) :
    ∃ c0 got, (req.dispatch p).conns[i]? = some c0 ∧
      Connection.Responded srv p req i code c (Connection.earlier c0 c).length got := by
  have hsettled := hp.settled_failing
  obtain ⟨c0, hc0, ⟨hok, ⟨v, got, hready, htaken, hpart, htook⟩, -⟩, -⟩ :=
    waitPoll_conn hp hsettled hreq hwait hi hc
  refine ⟨c0, got, hc0, hok, hpart, ⟨v, hready, htook⟩, ?_⟩
  rintro rfl
  obtain ⟨s, hs, hfinished, rfl, halive⟩ := hwait.finished fun j hj d hd => by
    obtain ⟨d', hd', halive⟩ := req.alive_dispatch hp.clean hreq.1.1 hj
    obtain rfl := Option.some.inj (hd.symm.trans hd')
    exact halive
  have hinv := (PollLoop.takingInv_startPoll hp hsettled hreq).steps
    (hs.timely (by rw [hfinished]; nofun))
  obtain ⟨c0', hc0', -, -, hserving, -⟩ := hinv.conn hi hc
  obtain rfl := Option.some.inj (hc0.symm.trans hc0')
  have hi' : i ∈ s.pool.activeConns := by
    rw [hinv.serving.counted.aligned.frame.activeConns]
    exact hi
  refine hserving.whole_end (halive i hi' c hc) (fun hex => ?_) htaken
  exact (PollLoop.exchanging_pos hi' hc hex).ne' (hinv.counted.2 (.inl hfinished))

namespace ConnectionPool

def socketOf (p : ConnectionPool) (i : ℕ) : ℕ := (p.conns[i]?.map (·.traffic.socket)).getD 0

/-- How many commands were written to the socket that a connection has in `p'` before the command
that has been dispatched in `p`. -/
def commandsBefore (p p' : ConnectionPool) (i : ℕ) : ℕ :=
  match p.conns[i]?, p'.conns[i]? with
  | some c0, some c => (Connection.earlier c0 c).length
  | _, _ => 0

theorem socketOf_eq (hc : p.conns[i]? = some c) : p.socketOf i = c.traffic.socket := by
  unfold socketOf
  rw [hc]
  rfl

theorem commandsBefore_eq (hc0 : p.conns[i]? = some c0) (hc : p'.conns[i]? = some c) :
    p.commandsBefore p' i = (Connection.earlier c0 c).length := by
  unfold commandsBefore
  rw [hc0, hc]

end ConnectionPool

/-- The reply to the first command that a connection is given in `p`, on the socket that it has in
`p'`. -/
def Servers.replyTo (srv : Servers) (p p' : ConnectionPool) (i : ℕ) (cmd : Command) : Bytes :=
  srv.reply i (p'.socketOf i) (p.commandsBefore p' i) cmd

/-- **The results of a command.** When `waitPoll` returns, whatever the code is, the parser of an
active connection has been given a part of the answers to the command, from their first byte on, and
with `RET_OK` all of them. -/
theorem waitPoll_taken (hp : Reachable srv.failingRuns p) (hreq : srv.failingRuns.request p req)
    (hwait : (req.dispatch p).WaitPoll srv.failingRuns.step code p')
    (hi : i ∈ (req.dispatch p).activeConns) (hc : p'.conns[i]? = some c) :
    ∃ got, Connection.Responded srv p req i code c ((req.dispatch p).commandsBefore p' i) got := by
  obtain ⟨c0, got, hc0, hresponded⟩ := waitPoll_taken_since hp hreq hwait hi hc
  rw [ConnectionPool.commandsBefore_eq hc0 hc]
  exact ⟨got, hresponded⟩

theorem waitPoll_active {rule : PollLoop → Event → PollLoop → Prop}
    (hp : Reachable rules p) (hroutes : req.RoutesLive p)
    (hwait : (req.dispatch p).WaitPoll rule code p') (hi : i ∈ p'.activeConns) :
    i ∈ (req.dispatch p).activeConns ∧ ∃ c, p'.conns[i]? = some c := by
  have hframe := hwait.frame
  rw [hframe.activeConns] at hi
  obtain ⟨d, hd, -⟩ := req.alive_dispatch hp.clean hroutes hi
  have hlt : i < p'.conns.length := by
    rw [hframe.length]
    exact (List.getElem?_eq_some_iff.1 hd).1
  exact ⟨hi, _, List.getElem?_eq_getElem hlt⟩

theorem Request.active_commands (hp : Reachable rules p)
    (hroutes : req.RoutesLive p) (hi : i ∈ (req.dispatch p).activeConns) :
    req.commandsFor p i ≠ [] := by
  obtain ⟨d, hd, -⟩ := req.alive_dispatch hp.clean hroutes hi
  obtain ⟨-, -, -, -, hactive⟩ := req.dispatched hp hd
  exact hactive.1 hi

/-- **No reply is for another command.** After any run of commands in which connections are lost only
while their exchange is not over, and in which `poll` may have failed, every connection that is alive
has taken all that its server sends for what is written to the socket, and its reader is empty. When
the next command ends, whatever its code is, the parsers of the active connections have been given
parts of the answers to this command, which come after those to the commands before it on the socket,
and with `RET_OK` all of them. -/
theorem Reachable.responded (h : Reachable srv.failingRuns p) :
    (∀ i c, p.conns[i]? = some c → c.alive = true → c.traffic.taken = srv.replies i c.traffic ∧
      c.parser.bufferReader.unread = []) ∧
    ∀ req code p', srv.failingRuns.request p req →
      (req.dispatch p).WaitPoll srv.failingRuns.step code p' →
        ∀ i ∈ (req.dispatch p).activeConns, ∀ c, p'.conns[i]? = some c →
          ∃ c0 got, (req.dispatch p).conns[i]? = some c0 ∧
            Connection.Responded srv p req i code c (Connection.earlier c0 c).length got := by
  refine ⟨fun i c hc halive => ?_, fun req code p' hreq hwait i hi c hc => ?_⟩
  · obtain ⟨-, hready, hanswered⟩ := h.settled_failing i c hc
    exact ⟨(hanswered halive).taken_eq, hready.bufferReader⟩
  · exact waitPoll_taken_since h hreq hwait hi hc

/-- One of two servers answers, and `poll` times out. -/
theorem responded_getTwo : ∃ p c d, Reachable Servers.empty.failingRuns p ∧
    p.conns[0]? = some c ∧ p.conns[1]? = some d ∧ c.alive = true ∧ d.alive = false ∧
      c.traffic.written = ascii "get a\r\n" ∧
        c.traffic.taken = Servers.empty.replies 0 c.traffic := by
  have hroutes : getTwo.RoutesLive (.init 2) := by
    refine ⟨fun _ i hi => ?_, fun _ i hi => ?_, trivial⟩
    · cases hi
      exact ⟨_, rfl, rfl⟩
    · cases hi
      exact ⟨_, rfl, rfl⟩
  have hexec : ((PollLoop.execsIf Servers.empty.timelyRuns.step
      (getTwo.dispatch (.init 2)).startPoll
      [.report [{ out := true }, { out := true }],
        .part {}, .part {}, .part { room := some 100 }, .part {},
        .part {}, .part {}, .part { room := some 100 }, .part {}, .nextRound,
        .report [{ in_ := true }, {}],
        .part {}, .part {}, .part {}, .part { bytes := some (ascii "END\r\n"), rounds := 9 },
        .part {}, .part {}, .part {}, .part {}, .nextRound]).bind fun t =>
        t.exec (.fail .pollTimeoutErr fun _ => 0)).map (fun s => (s.progress,
          s.pool.reset.conns.map fun c => (c.alive, c.traffic.written))) =
        some (.broken, [(true, ascii "get a\r\n"), (false, ascii "get b\r\n")]) := by
    decide +kernel
  obtain ⟨s, hs, hpair⟩ := Option.map_eq_some_iff.1 hexec
  obtain ⟨t, ht, hfail⟩ := Option.bind_eq_some_iff.1 hs
  obtain ⟨hbroken, hstates⟩ := Prod.mk.inj hpair
  have hconn : ∀ k : ℕ, (s.pool.reset.conns[k]?.map fun c => (c.alive, c.traffic.written)) =
      [(true, ascii "get a\r\n"), (false, ascii "get b\r\n")][k]? := fun k => by
    rw [← List.getElem?_map, hstates]
  obtain ⟨c, hc, hpair⟩ := Option.map_eq_some_iff.1 (hconn 0)
  obtain ⟨d, hd, hpair'⟩ := Option.map_eq_some_iff.1 (hconn 1)
  obtain ⟨halive, hwritten⟩ := Prod.mk.inj hpair
  have htimely : PollLoop.Steps Servers.empty.failingRuns.step
      (getTwo.dispatch (.init 2)).startPoll t :=
    (PollLoop.steps_of_execsIf ht).mono fun _ _ _ h => .inr h
  have hreq : Servers.empty.failingRuns.request (.init 2) getTwo :=
    ⟨⟨hroutes, by decide⟩, by decide⟩
  have hp : Reachable Servers.empty.failingRuns s.pool.reset :=
    .command (.init 2) getTwo hreq (.run (by decide)
      (htimely.tail ⟨_, PollLoop.step_of_exec _ hfail, .inl ⟨_, _, rfl⟩⟩) (.inr hbroken)) fun _ => 0
  exact ⟨_, c, d, hp, hc, hd, halive, congrArg Prod.fst hpair', hwritten,
    (hp.responded.1 0 c hc halive).1⟩

end Libmc
