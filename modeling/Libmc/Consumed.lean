import Libmc.PollConsumed

/-!
# Replies are for the command that asked for them

A command that leaves bytes of its replies on a socket hands them to the next one. Against servers
that answer completely and in order this does not happen in a run in which connections are lost only
while their exchange is not over, and in which a request that has been begun is not gone on with on
another socket (`Reachable.consumed`). In other runs it does (`not_consumed`).
-/

namespace Libmc

variable {c c0 d : Connection} {p p' : ConnectionPool} {s s' s0 : PollLoop} {i k : ℕ}
  {rules : Rules} {srv : Servers} {req : Request}

/-- The servers answer completely and in order, `poll` does not fail, and no descriptor is 0. -/
def Servers.runs (srv : Servers) : Rules where
  request p req := req.RoutesLive p ∧ ∀ c ∈ (req.dispatch p).conns, c.socketFd ≠ 0
  step := srv.Answering

/-- Besides, connections are lost only while their exchange is not over, and nothing of a request
has been sent that is gone on with on another socket. -/
def Servers.timelyRuns (srv : Servers) : Rules where
  request p req := srv.runs.request p req ∧ (req.dispatch p).activeConns.length < 2 ^ 32
  step s ev s' := srv.runs.step s ev s' ∧ SlotInvariant.PartRule Entry.Timely s ev

/-- Every connection of a pool is settled. -/
def ConnectionPool.Settled (srv : Servers) (p : ConnectionPool) : Prop :=
  ∀ (i : ℕ) (c : Connection), p.conns[i]? = some c → Connection.Settled srv i c

/-! ### The loop of a command -/

theorem Request.dispatched (hp : Reachable rules p) (req : Request)
    (hc : (req.dispatch p).conns[i]? = some c) : ∃ base, p.conns[i]? = some base ∧ base.LiveFd ∧
      Dispatched base (req.commandsFor p i) (req.keysFor i) req.parserMode (req.counterFor i) c ∧
        (i ∈ (req.dispatch p).activeConns ↔ req.commandsFor p i ≠ []) := by
  have hlt : i < p.conns.length := by
    rw [← req.dispatch_length p]
    exact (List.getElem?_eq_some_iff.1 hc).1
  have hbase : p.conns[i]? = some p.conns[i] := List.getElem?_eq_getElem hlt
  obtain ⟨d, hd, hdis, hactive⟩ := req.dispatches hp.clean hbase
  obtain rfl := Option.some.inj (hc.symm.trans hd)
  exact ⟨_, hbase, hp.live _ (List.mem_of_getElem? hbase), hdis, hactive⟩

namespace PollLoop

theorem servingInv_startPoll (hp : Reachable rules p)
    (hsettled : p.Settled srv)
    (hreq : srv.timelyRuns.request p req) :
    ServingInv srv p req (req.dispatch p).startPoll (req.dispatch p).startPoll := by
  obtain ⟨⟨hroutes, hfds⟩, hlength⟩ := hreq
  have hcounted := countInv_startPoll hp hroutes hlength
  have hsent := (sendInv_startPoll hp req).slots nofun
  refine ⟨hcounted, hfds, nofun, ?_⟩
  refine SlotInvariant.inv_startPoll (req.dispatch_active hp.clean).1 fun k i c hi hc => ?_
  obtain ⟨fd, hslot⟩ := (aligned_startPoll (req.dispatch p)).slot hi hc
  obtain ⟨rfl, -⟩ := req.slot_dispatch hp hslot
  obtain ⟨base, hbase, hlive, hdis, hactive⟩ := req.dispatched hp hc
  have hmem := List.mem_of_getElem? hi
  obtain ⟨d, hd, halive⟩ := req.alive_dispatch hp.clean hroutes hmem
  obtain rfl := Option.some.inj (hc.symm.trans hd)
  have hnone := req.unprocessed_dispatch hp.unprocessed c (List.mem_of_getElem? hc)
  obtain ⟨hstarted, hserving⟩ :=
    (hsettled i base hbase).started hlive hdis (hactive.1 hmem) halive hnone
  exact ⟨(hcounted.slots nofun).slots k c _ hslot, i, c, hi, hc, hstarted,
    (hsent.slots k c _ hslot).2 c _ hslot, hserving⟩

theorem ServingInv.steps (h : ServingInv srv p req s0 s) (hcount : s.Counted)
    (hsteps : Steps srv.timelyRuns.step s s') : ServingInv srv p req s0 s' ∧ s'.Counted := by
  induction hsteps with
  | refl => exact ⟨h, hcount⟩
  | tail _ hstep ih =>
    obtain ⟨ev, hstep, hanswering, htimely⟩ := hstep
    exact ih.1.step hstep htimely hanswering

theorem servingInv_steps (hp : Reachable rules p)
    (hsettled : p.Settled srv)
    (hreq : srv.timelyRuns.request p req)
    (hsteps : Steps srv.timelyRuns.step (req.dispatch p).startPoll s) :
    ServingInv srv p req (req.dispatch p).startPoll s ∧ s.Counted := by
  have h := servingInv_startPoll hp hsettled hreq
  refine h.steps ⟨h.counted.count, ?_⟩ hsteps
  rintro (hend | hend) <;> cases hend

theorem ServingInv.conn (h : ServingInv srv p req s0 s) (hi : i ∈ s0.pool.activeConns)
    (hc : s.pool.conns[i]? = some c) : ∃ c0, s0.pool.conns[i]? = some c0 ∧
      Connection.Started srv p req i c0 ∧ Connection.Sending c0 c ∧
        Connection.Serving srv p req i c0 c := by
  obtain ⟨k, hk⟩ := List.mem_iff_getElem?.1 hi
  obtain ⟨fd, hslot⟩ := h.counted.aligned.slot hk hc
  obtain ⟨-, j, c0, hj, hc0, hrest⟩ := h.slots.slots k c fd hslot
  obtain rfl := Option.some.inj (hj.symm.trans hk)
  exact ⟨c0, hc0, hrest⟩

/-- When the loop ends every active connection is done. -/
theorem ServingInv.done (h : ServingInv srv p req s0 s) (hcount : s.Counted) (hend : s.Ended)
    (hi : i ∈ s0.pool.activeConns) (hc : s.pool.conns[i]? = some c) : c.Done srv i := by
  obtain ⟨c0, -, hstarted, hsending, hserving⟩ := h.conn hi hc
  refine ⟨hserving.ok, fun halive => hserving.answered_end hstarted hsending halive fun hex => ?_⟩
  rw [← h.counted.aligned.frame.activeConns] at hi
  exact (exchanging_pos hi hc hex).ne' (hcount.2 hend)

end PollLoop

/-! ### Runs of commands -/

theorem Request.finish_conn {Q : Connection → Prop} (hQ : ∀ c now, Q c → Q (c.markDead now))
    (req : Request) (times : ℕ → ℤ) (h : ∃ c, p.conns[i]? = some c ∧ Q c) :
    ∃ c, (req.finish times p).conns[i]? = some c ∧ Q c := by
  unfold finish
  split
  · split_ifs
    · refine ConnectionPool.conn_foldl_modifyConn Prod.fst (fun x c hc => ?_) _ h
      split_ifs
      · exact hQ c _ hc
      · exact hc
    · exact h
  · exact h

/-- After a command whose active connections are done every connection is settled. -/
theorem Request.settled_reset (hp : Reachable rules p) (hsettled : p.Settled srv)
    (hframe : (req.dispatch p).Frame p') (hdone : ∀ i ∈ (req.dispatch p).activeConns, ∀ c,
      p'.conns[i]? = some c → c.Done srv i) (times : ℕ → ℤ) :
    (req.finish times p').reset.Settled srv := by
  have hfinish := hframe.trans (req.finish_frame times p')
  intro i c hc
  rcases ConnectionPool.reset_conn_cases hc with ⟨hmem, hconn⟩ | ⟨hmem, d, hd, rfl⟩
  · rw [hfinish.activeConns] at hmem
    rw [hfinish.conns i hmem] at hconn
    obtain ⟨base, hbase, hlive, hdis, hactive⟩ := req.dispatched hp hconn
    have hnil : req.commandsFor p i = [] := by
      by_contra hne
      exact hmem (hactive.2 hne)
    exact (hsettled i base hbase).idled hlive (hdis.idle hnil)
  · rw [hfinish.activeConns] at hmem
    have hlt : i < p'.conns.length := by
      rw [← (req.finish_frame times p').length]
      exact (List.getElem?_eq_some_iff.1 hd).1
    have hconn : p'.conns[i]? = some p'.conns[i] := List.getElem?_eq_getElem hlt
    obtain ⟨c, hc', hdone'⟩ := req.finish_conn (Q := fun c => c.Done srv i)
      (fun c now h => h.markDead now) times ⟨_, hconn, hdone i hmem _ hconn⟩
    obtain rfl := Option.some.inj (hd.symm.trans hc')
    exact hdone'.reset

/-- **Between commands** all that is answered on a connection that is alive has been taken. -/
theorem Reachable.settled (h : Reachable srv.timelyRuns p) : p.Settled srv := by
  induction h with
  | init n =>
    intro i c hc
    rw [List.eq_of_mem_replicate (List.mem_of_getElem? hc)]
    exact ⟨⟨BufferReader.wf_default, fun _ hmem => absurd hmem List.not_mem_nil,
      fun _ hmem => absurd hmem List.not_mem_nil⟩, ⟨rfl, rfl, rfl, rfl, rfl, rfl, rfl, rfl, rfl⟩,
      nofun⟩
  | @config p hp retryTimeout maxRetries ih =>
    intro i c hc
    have hmap : (p.conns.map fun c => { c with retryTimeout, maxRetries })[i]? = some c := hc
    rw [List.getElem?_map, Option.map_eq_some_iff] at hmap
    obtain ⟨base, hbase, rfl⟩ := hmap
    exact (ih i base hbase).idled (hp.live _ (List.mem_of_getElem? hbase))
      ⟨⟨rfl, rfl, rfl⟩, fun _ => .inl ⟨rfl, rfl, rfl⟩⟩
  | @command p p' code hp req hreq hwait times ih =>
    refine Request.settled_reset hp ih hwait.frame (fun i hi c hc => ?_) times
    cases hwait with
    | idle hzero =>
      -- nothing is active
      rw [(req.dispatch_active hp.clean).2, Nat.mod_eq_of_lt hreq.2] at hzero
      rw [List.length_eq_zero_iff.1 hzero] at hi
      cases hi
    | run _ hsteps hend =>
      obtain ⟨hinv, hcount⟩ := PollLoop.servingInv_steps hp ih hreq hsteps
      exact hinv.done hcount hend hi hc

/-- **Replies are for the command that asked for them.** In a run of commands that meets the
condition every connection that is alive between commands has taken all that its server sends for
what is written to the socket, and its reader is empty. In the loop of the next command, what is
taken from a socket beyond the answers to the commands before is a part of the answers to this one,
and it is all that the parser has been given. -/
theorem Reachable.consumed (h : Reachable srv.timelyRuns p) :
    (∀ i c, p.conns[i]? = some c → c.alive = true → c.traffic.taken = srv.replies i c.traffic ∧
      c.parser.bufferReader.unread = []) ∧
    ∀ req s, srv.timelyRuns.request p req →
      PollLoop.Steps srv.timelyRuns.step (req.dispatch p).startPoll s →
        ∀ i ∈ (req.dispatch p).activeConns, ∀ c, s.pool.conns[i]? = some c →
          ∃ c0 got v, (req.dispatch p).conns[i]? = some c0 ∧
            c.traffic.taken =
              srv.answers i c.traffic.socket 0 (Connection.earlier c0 c) ++ got ∧
            got <+: srv.answers i c.traffic.socket (Connection.earlier c0 c).length
              (req.commandsFor p i) ∧
            PacketParser.Ready v (req.keysFor i) req.parserMode ∧ v.Fed got c.parser.view := by
  have hsettled := h.settled
  refine ⟨fun i c hc halive => ?_, fun req s hreq hsteps i hi c hc => ?_⟩
  · obtain ⟨-, hready, hanswered⟩ := hsettled i c hc
    exact ⟨(hanswered halive).taken_eq, hready.bufferReader⟩
  · obtain ⟨hinv, -⟩ := PollLoop.servingInv_steps h hsettled hreq hsteps
    obtain ⟨c0, hc0, -, -, hserving⟩ := hinv.conn hi hc
    obtain ⟨got, rest, hreceiving⟩ := hserving.receiving
    obtain ⟨v, hready, hfed⟩ := hreceiving.fed
    exact ⟨c0, got, v, hc0, hreceiving.taken_eq, ⟨rest, hreceiving.whole⟩, hready, hfed⟩

/-! ### Runs that keep a rule -/

instance (part : Part) (r : Revents) (a : Answers) (e : Entry) : Decidable (e.Loses part r a) := by
  unfold Entry.Loses Fails
  split <;> infer_instance

instance (part : Part) (a : Answers) (e : Entry) : Decidable (e.Misses part a) := by
  unfold Entry.Misses
  infer_instance

instance (part : Part) (r : Revents) (a : Answers) (e : Entry) : Decidable (e.Timely part r a) := by
  unfold Entry.Timely Entry.Unsent
  infer_instance

instance (s : PollLoop) (ev : Event) : Decidable (SlotInvariant.PartRule Entry.Timely s ev) :=
  match ev, hs : s.progress with
  | .part a, .turn k part revents =>
    decidable_of_iff (∀ r ∈ revents[k]?, ∀ e ∈ s.entry k, e.Timely part r a)
      ⟨fun h k' part' revents' r a' e hev hturn hr he => by
        obtain rfl := Event.part.inj hev
        obtain ⟨rfl, rfl, rfl⟩ := Progress.turn.inj (hs.symm.trans hturn)
        exact h r hr e he,
      fun h r hr e he => h k part revents r a e rfl hs hr he⟩
  | .part _, .polling => .isTrue fun _ _ _ _ _ _ _ hturn => by cases hs.symm.trans hturn
  | .part _, .finished => .isTrue fun _ _ _ _ _ _ _ hturn => by cases hs.symm.trans hturn
  | .part _, .broken => .isTrue fun _ _ _ _ _ _ _ hturn => by cases hs.symm.trans hturn
  | .leave, _ => .isTrue fun _ _ _ _ _ _ hev => by cases hev
  | .fail _ _, _ => .isTrue fun _ _ _ _ _ _ hev => by cases hev
  | .report _, _ => .isTrue fun _ _ _ _ _ _ hev => by cases hev
  | .nextRound, _ => .isTrue fun _ _ _ _ _ _ hev => by cases hev

instance (ev : Event) : Decidable (∀ code times, ev ≠ .fail code times) :=
  match ev with
  | .fail code times => .isFalse fun h => h code times rfl
  | .leave => .isTrue nofun
  | .report _ => .isTrue nofun
  | .part _ => .isTrue nofun
  | .nextRound => .isTrue nofun

instance (p : ConnectionPool) : Decidable (∀ i c, p.conns[i]? = some c →
    c.traffic.taken <+: srv.replies i c.traffic) :=
  decidable_of_iff (∀ x ∈ p.conns.zipIdx, x.1.traffic.taken <+: srv.replies x.2 x.1.traffic)
    ⟨fun h i c hc => h (c, i) (List.mem_zipIdx_iff_getElem?.2 hc),
      fun h x hx => h x.2 x.1 (List.mem_zipIdx_iff_getElem?.1 hx)⟩

instance (s : PollLoop) (ev : Event) (s' : PollLoop) : Decidable (srv.runs.step s ev s') :=
  inferInstanceAs (Decidable (_ ∧ _ ∧ _))

instance (s : PollLoop) (ev : Event) (s' : PollLoop) : Decidable (srv.timelyRuns.step s ev s') :=
  inferInstanceAs (Decidable (srv.runs.step s ev s' ∧ _))

namespace PollLoop

/-- Several steps, if they can be taken and keep a rule. -/
def execsIf (rule : PollLoop → Event → PollLoop → Prop) [∀ s ev s', Decidable (rule s ev s')]
    (s : PollLoop) (evs : List Event) : Option PollLoop :=
  evs.foldlM (fun s ev => (s.exec ev).filter fun s' => rule s ev s') s

theorem steps_of_execsIf {rule : PollLoop → Event → PollLoop → Prop}
    [∀ s ev s', Decidable (rule s ev s')] {evs : List Event} (h : execsIf rule s evs = some s') :
    Steps rule s s' := by
  induction evs generalizing s with
  | nil =>
    obtain rfl := Option.some.inj h
    exact .refl
  | cons ev evs ih =>
    obtain ⟨t, ht, hrest⟩ := Option.bind_eq_some_iff.1 h
    obtain ⟨hexec, hrule⟩ := Option.filter_eq_some_iff.1 ht
    exact .head ⟨ev, step_of_exec ev hexec, of_decide_eq_true hrule⟩ (ih hrest)

end PollLoop

/-! ### Two runs -/

/-- Servers that have no item. -/
def Servers.empty : Servers where
  reply _ _ _ cmd :=
    match cmd with
    | .retrieval _ _ => ascii "END\r\n"
    | _ => ReplyLine.error.bytes
  isReply _ _ _ cmd _ := by
    split
    · exact @IsReply.items _ _ [] (List.forall_mem_nil _)
    · exact .failed trivial rfl

/-- A connection has received its reply. -/
theorem consumed_getOne : ∃ p c, Reachable Servers.empty.timelyRuns p ∧ p.conns[0]? = some c ∧
    c.alive = true ∧ c.traffic.written = ascii "get k\r\n" ∧
      c.traffic.taken = Servers.empty.replies 0 c.traffic := by
  have hroutes : getOne.RoutesLive (.init 1) := by
    refine ⟨fun _ i hi => ?_, trivial⟩
    cases hi
    exact ⟨_, rfl, rfl⟩
  have hexec : (PollLoop.execsIf Servers.empty.timelyRuns.step (getOne.dispatch (.init 1)).startPoll
      [.report [{ out := true }], .part {}, .part {}, .part { room := some 100 }, .part {},
        .nextRound, .report [{ in_ := true }], .part {}, .part {}, .part {},
        .part { bytes := some (ascii "END\r\n"), rounds := 9 }, .nextRound, .leave]).map
      (fun s => (s.progress, s.pool.reset.conns[0]?.map fun c => (c.alive, c.traffic.written))) =
        some (.finished, some (true, ascii "get k\r\n")) := by decide +kernel
  obtain ⟨s, hs, hpair⟩ := Option.map_eq_some_iff.1 hexec
  obtain ⟨hfinished, hconn⟩ := Prod.mk.inj hpair
  obtain ⟨c, hc, hpair⟩ := Option.map_eq_some_iff.1 hconn
  obtain ⟨halive, hwritten⟩ := Prod.mk.inj hpair
  have hreq : Servers.empty.timelyRuns.request (.init 1) getOne :=
    ⟨⟨hroutes, by decide⟩, by decide⟩
  have hp : Reachable Servers.empty.timelyRuns s.pool.reset :=
    .command (.init 1) getOne hreq
      (.run (by decide) (PollLoop.steps_of_execsIf hs) (.inl hfinished)) fun _ => 0
  exact ⟨_, c, hp, hc, halive, hwritten, (hp.consumed.1 0 c hc halive).1⟩

def getTwo : Request :=
  .retrieval ⟨.get, get_mem⟩ [(ascii "a", { tried := [(0, ⟨0, some 5⟩)], conn := some 0 }),
    (ascii "b", { tried := [(1, ⟨0, some 6⟩)], conn := some 1 })]

/-- An error is reported for a connection that has received its reply. Its request is sent again,
but the loop ends with the reply of the other connection, and the second reply of the first is left
for the next command. -/
theorem not_consumed : ¬ ∀ (srv : Servers) (p : ConnectionPool), Reachable srv.runs p →
    ∀ i c, p.conns[i]? = some c → c.alive = true → c.traffic.taken = srv.replies i c.traffic := by
  intro h
  have hinit : Reachable Servers.empty.runs ((ConnectionPool.init 2).config 5 3) :=
    .config (.init 2) 5 3
  have hroutes : getTwo.RoutesLive ((ConnectionPool.init 2).config 5 3) := by
    refine ⟨fun _ i hi => ?_, fun _ i hi => ?_, trivial⟩
    · cases hi
      exact ⟨_, rfl, rfl⟩
    · cases hi
      exact ⟨_, rfl, rfl⟩
  have hexec : (PollLoop.execsIf Servers.empty.runs.step
      (getTwo.dispatch ((ConnectionPool.init 2).config 5 3)).startPoll
      [.report [{ out := true }, { out := true }],
        .part {}, .part {}, .part { room := some 100 }, .part {},
        .part {}, .part {}, .part { room := some 100 }, .part {}, .nextRound,
        .report [{ in_ := true }, {}],
        .part {}, .part {}, .part {}, .part { bytes := some (ascii "END\r\n"), rounds := 9 },
        .part {}, .part {}, .part {}, .part {}, .nextRound,
        .report [{ err := true }, {}], .part { reconnect := ⟨0, some 7⟩ },
        .part {}, .part {}, .part {}, .part {}, .nextRound,
        .report [{ out := true }, {}], .part {}, .part {}, .part { room := some 100 }, .part {},
        .part {}, .part {}, .part {}, .part {}, .nextRound,
        .report [{}, { in_ := true }], .part {}, .part {}, .part {}, .part {},
        .part {}, .part {}, .part {}, .part { bytes := some (ascii "END\r\n"), rounds := 9 },
        .nextRound, .leave]).map
      (fun s => (s.progress, s.pool.reset.conns[0]?.map fun c =>
        (c.alive, c.traffic.taken, decide (Servers.empty.replies 0 c.traffic = [])))) =
        some (.finished, some (true, [], false)) := by decide +kernel
  obtain ⟨s, hs, hpair⟩ := Option.map_eq_some_iff.1 hexec
  obtain ⟨hfinished, hconn⟩ := Prod.mk.inj hpair
  obtain ⟨c, hc, hpair⟩ := Option.map_eq_some_iff.1 hconn
  obtain ⟨halive, hpair⟩ := Prod.mk.inj hpair
  obtain ⟨htaken, hreplies⟩ := Prod.mk.inj hpair
  have hreq : Servers.empty.runs.request _ getTwo := ⟨hroutes, by decide⟩
  have hp : Reachable Servers.empty.runs s.pool.reset :=
    .command hinit getTwo hreq
      (.run (by decide) (PollLoop.steps_of_execsIf hs) (.inl hfinished)) fun _ => 0
  have hall := h Servers.empty _ hp 0 c hc halive
  rw [htaken] at hall
  exact of_decide_eq_false hreplies hall.symm

end Libmc
