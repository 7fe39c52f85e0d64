import Libmc.PollEnds

/-!
# The code of a command

In a run in which nothing fails, the only codes are those of the error lines. So `waitPoll` returns
`RET_OK` exactly if no server answers a command by an error line (`waitPoll_ok_iff`).
-/

namespace Libmc

variable {c c0 : Connection} {p p' : ConnectionPool} {s s' s0 : PollLoop} {ev : Event} {r : Revents}
  {a : Answers} {e e' : Entry} {part : Part} {jump : Bool} {i k : ℕ} {fd : PollFd} {srv : Servers}
  {req : Request} {err code : ErrCode}

/-- A part of a turn leaves the code, or takes that of an error line. -/
theorem Entry.Moves.retCode (h : Moves r a e part jump e') : e'.retCode = e.retCode ∨
    ∃ err, err ≠ .ok ∧ err ≠ .incompleteBufferErr ∧ e'.conn.traffic.processed = some err := by
  cases h with
  | passed => exact .inl rfl
  | peeked => exact .inl rfl
  | sent => exact .inl rfl
  | @received bs d d' err _ _ _ hd hp =>
    have hprocessed : d'.traffic.processed = some err := by rw [(hd.processed hp).traffic_eq]
    have htraffic := traffic_parsed err a { e with conn := d' }
    have hparsed := parsed_cases err a { e with conn := d' }
    generalize parsed err a { e with conn := d' } = e'' at hparsed htraffic ⊢
    cases hparsed with
    | done => exact .inl rfl
    | failed herr =>
      refine .inr ⟨err, ?_, ?_, ?_⟩
      · rcases herr with rfl | rfl <;> nofun
      · rcases herr with rfl | rfl <;> nofun
      · rw [htraffic]
        exact hprocessed
    | more => exact .inl rfl

namespace Connection

/-- A command of the request of this connection is answered by an error line. -/
def Failing (srv : Servers) (p : ConnectionPool) (req : Request) (i : ℕ) (c0 : Connection) : Prop :=
  srv.Fails i c0.traffic.socket (readCommands c0.traffic.written).1.length (req.commandsFor p i)

/-- The code of the last call of the parser, if it does not ask for more. -/
theorem Taking.last_code (h : Taking srv p req i c0 c) (hne : req.commandsFor p i ≠ [])
    (hsocket : c.traffic.socket = c0.traffic.socket) (hprocessed : c.traffic.processed = some err)
    (hmore : err ≠ .incompleteBufferErr) : err = .ok ↔ ¬ c0.Failing srv p req i := by
  obtain ⟨v, got, hready, -, hpart, htook⟩ := h.took
  have hearlier : earlier c0 c = (readCommands c0.traffic.written).1 := if_pos hsocket
  rw [hprocessed] at htook
  rw [hsocket, hearlier] at hpart
  have hpos : 0 < req.counterFor i := by
    by_contra hzero
    rw [Servers.answers_eq_nil fun cmd hcmd => by
      simpa using mt (req.expectsReply_iff hcmd).1 hzero] at hpart
    rw [List.prefix_nil.1 hpart] at htook
    cases htook.eq_of_nil.1
  exact htook.code hready hpart hmore (hready.concludes_answers hpos hne)

end Connection

namespace PollLoop

/-- A server answers a command by an error line. -/
def Failing (srv : Servers) (p : ConnectionPool) (req : Request) (s0 : PollLoop) : Prop :=
  ∃ i ∈ s0.pool.activeConns, ∃ c0, s0.pool.conns[i]? = some c0 ∧ c0.Failing srv p req i

theorem SteadyInv.retCode (h : SteadyInv srv p req s0 s) (hstep : Step s ev s')
    (hrule : srv.steadyRuns.step s ev s') (hfine : ¬ Failing srv p req s0) (hok : s.retCode = .ok) :
    s'.retCode = .ok := by
  have h' := h.step hstep hrule
  cases hstep with
  | leave => exact hok
  | fail => exact absurd rfl (hrule.1.1 _ _)
  | report => exact hok
  | @part k part revents r a e e' jump hturn he hr hrun =>
    have hmoves := h.moves hturn hr hrun (hrule.2.1 k part revents r a e rfl hturn hr he)
    rcases hmoves.retCode with hsame | ⟨err, hne, hmore, hprocessed⟩
    · exact hsame.trans ((retCode_of_entry he).trans hok)
    · have hslot : ({ s.setEntry k e' with progress := next k part revents jump } : PollLoop).slot k =
          some (e'.conn, e'.pollfd) :=
        (slot_setEntry h.taking.slots.nodup (slot_of_entry he) e' k).trans (if_pos rfl)
      obtain ⟨i, c0, hi, hc0, -, -, hstarted, -, -, htaking⟩ := h'.slot hslot
      have hcode := htaking.last_code hstarted.commands_ne
        ((h'.stays k _ _ hslot).socket_eq i c0 hi hc0) hprocessed hmore
      exact absurd (hcode.2 fun hfails => hfine ⟨i, List.mem_of_getElem? hi, c0, hc0, hfails⟩) hne
  | nextRound => exact hok

theorem SteadyInv.retCode_steps (h : SteadyInv srv p req s0 s)
    (hsteps : Steps srv.steadyRuns.step s s') (hfine : ¬ Failing srv p req s0)
    (hok : s.retCode = .ok) : s'.retCode = .ok := by
  induction hsteps with
  | refl => exact hok
  | tail hsteps hstep ih =>
    obtain ⟨ev, hstep, hrule⟩ := hstep
    exact (h.steps hsteps).retCode hstep hrule hfine ih

/-- An active connection is on the socket that it had when the command was dispatched. -/
theorem SteadyInv.socket_eq (h : SteadyInv srv p req s0 s) (hi : i ∈ s0.pool.activeConns)
    (hc0 : s0.pool.conns[i]? = some c0) (hc : s.pool.conns[i]? = some c) :
    c.traffic.socket = c0.traffic.socket := by
  obtain ⟨k, hk⟩ := List.mem_iff_getElem?.1 hi
  obtain ⟨fd, hslot⟩ := h.taking.serving.counted.aligned.slot hk hc
  exact (h.stays k c fd hslot).socket_eq i c0 hk hc0

/-- With `RET_OK` no server has answered by an error line. -/
theorem SteadyInv.not_failing (h : SteadyInv srv p req s0 s) (hs : s.progress = .finished)
    (halive : ∀ i ∈ s.pool.activeConns, ∀ c, s.pool.conns[i]? = some c → c.alive = true) :
    ¬ Failing srv p req s0 := by
  rintro ⟨i, hi, c0, hc0, hfails⟩
  have haligned := h.taking.serving.counted.aligned
  have hlt : i < s.pool.conns.length := by
    rw [haligned.frame.length]
    exact (List.getElem?_eq_some_iff.1 hc0).1
  obtain ⟨k, hk⟩ := List.mem_iff_getElem?.1 hi
  obtain ⟨fd, hslot⟩ := haligned.slot hk (List.getElem?_eq_getElem hlt)
  obtain ⟨j, c1, hj, hc1, hc, -, hstarted, -, hserving, htaking⟩ := h.slot hslot
  obtain rfl := Option.some.inj (Eq.trans (Eq.symm hk) hj)
  obtain rfl := Option.some.inj (hc0.symm.trans hc1)
  have hi' : i ∈ s.pool.activeConns := haligned.frame.activeConns ▸ hi
  obtain ⟨v, got, -, htaken, -⟩ := htaking.took
  obtain ⟨-, hprocessed⟩ := hserving.whole_end (halive i hi' _ hc) (fun hex =>
    (exchanging_pos hi' hc hex).ne' (h.taking.counted.2 (.inl hs))) htaken
  by_cases hpos : 0 < req.counterFor i
  · exact (htaking.last_code hstarted.commands_ne ((h.stays k _ _ hslot).socket_eq i c0 hk hc0)
      (hprocessed hpos) nofun).1 rfl hfails
  · -- no reply is owed
    exact Servers.not_fails (fun cmd hcmd => by simpa using mt (req.expectsReply_iff hcmd).1 hpos) _
      hfails

end PollLoop

theorem ConnectionPool.WaitPoll.steady (hp : Reachable srv.failingRuns p)
    (hreq : srv.steadyRuns.request p req)
    (hwait : (req.dispatch p).WaitPoll srv.steadyRuns.step code p')
    (hactive : (req.dispatch p).nActiveConn ≠ 0) :
    ∃ s, PollLoop.Steps srv.steadyRuns.step (req.dispatch p).startPoll s ∧
      PollLoop.SteadyInv srv p req (req.dispatch p).startPoll s ∧ s.progress = .finished ∧
        s.retCode = code ∧ s.pool = p' := by
  cases hwait with
  | idle hzero => exact absurd hzero hactive
  | run _ hsteps hend =>
    have hinv := (PollLoop.steadyInv_startPoll hp hreq).steps hsteps
    exact ⟨_, hsteps, hinv, hend.resolve_right hinv.taking.serving.not_broken, rfl, rfl⟩

theorem ConnectionPool.WaitPoll.ok_of (hp : Reachable srv.failingRuns p)
    (hreq : srv.steadyRuns.request p req)
    (hwait : (req.dispatch p).WaitPoll srv.steadyRuns.step code p')
    (hactive : (req.dispatch p).nActiveConn ≠ 0)
    (hfine : ¬ PollLoop.Failing srv p req (req.dispatch p).startPoll) : code = .ok := by
  obtain ⟨s, hsteps, -, -, rfl, -⟩ := hwait.steady hp hreq hactive
  exact (PollLoop.steadyInv_startPoll hp hreq).retCode_steps hsteps hfine rfl

/-- **The code of a command.** As long as nothing fails, `waitPoll` returns `RET_OK` exactly if no
server answers a command by an error line. -/
theorem waitPoll_ok_iff (hp : Reachable srv.failingRuns p) (hreq : srv.steadyRuns.request p req)
    (hactive : (req.dispatch p).nActiveConn ≠ 0)
    (hwait : (req.dispatch p).WaitPoll srv.steadyRuns.step code p') :
    code = .ok ↔ ∀ i ∈ (req.dispatch p).activeConns, ∀ c0, (req.dispatch p).conns[i]? = some c0 →
      ¬ srv.Fails i c0.traffic.socket (readCommands c0.traffic.written).1.length
        (req.commandsFor p i) := by
  constructor
  · rintro hok i hi c0 hc0 hfails
    obtain ⟨s, hsteps, hinv, hfinished, hcode, -⟩ := hwait.steady hp hreq hactive
    have hunfailed : s.Unfailed := PollLoop.Unfailed.steps (s := (req.dispatch p).startPoll)
      (fun _ => ⟨nofun, fun i hi c hc => by
        obtain ⟨d, hd, halive⟩ := req.alive_dispatch hp.clean hreq.1.1 hi
        obtain rfl := Option.some.inj (hc.symm.trans hd)
        exact halive⟩) hsteps
    exact hinv.not_failing hfinished (hunfailed (hcode.trans hok)).2 ⟨i, hi, c0, hc0, hfails⟩
  · intro hfine
    refine hwait.ok_of hp hreq hactive ?_
    rintro ⟨i, hi, c0, hc0, hfails⟩
    exact hfine i hi c0 hc0 hfails

/-- The second server knows no command. -/
def Servers.half : Servers where
  reply i _ _ cmd :=
    match i, cmd with
    | 0, .retrieval _ _ => ascii "END\r\n"
    | _, _ => ReplyLine.error.bytes
  isReply i _ _ cmd _ := by
    split
    · exact @IsReply.items _ _ [] (List.forall_mem_nil _)
    · exact .failed trivial rfl

/-- One of two servers answers by an error line. -/
theorem waitPoll_ok_iff_two : ∃ code p', (getTwo.dispatch (.init 2)).WaitPoll
    Servers.half.steadyRuns.step code p' ∧ code = .programmingErr ∧
      ¬ ∀ i ∈ (getTwo.dispatch (.init 2)).activeConns, ∀ c0,
        (getTwo.dispatch (.init 2)).conns[i]? = some c0 →
          ¬ Servers.half.Fails i c0.traffic.socket (readCommands c0.traffic.written).1.length
            (getTwo.commandsFor (.init 2) i) := by
  have hroutes : getTwo.RoutesLive (.init 2) := by
    refine ⟨fun _ i hi => ?_, fun _ i hi => ?_, trivial⟩
    · cases hi
      exact ⟨_, rfl, rfl⟩
    · cases hi
      exact ⟨_, rfl, rfl⟩
  have hexec : (PollLoop.execsIf Servers.half.steadyRuns.step (getTwo.dispatch (.init 2)).startPoll
      [.report [{ out := true }, { out := true }],
        .part {}, .part {}, .part { room := some 100 }, .part {},
        .part {}, .part {}, .part { room := some 100 }, .part {}, .nextRound,
        .report [{ in_ := true }, { in_ := true }],
        .part {}, .part {}, .part {}, .part { bytes := some (ascii "END\r\n"), rounds := 9 },
        .part {}, .part {}, .part {}, .part { bytes := some (ascii "ERROR\r\n"), rounds := 9 },
        .nextRound, .leave]).map (fun s => (s.progress, s.retCode)) =
        some (.finished, .programmingErr) := by decide +kernel
  obtain ⟨s, hs, hpair⟩ := Option.map_eq_some_iff.1 hexec
  obtain ⟨hfinished, hcode⟩ := Prod.mk.inj hpair
  have hreq : Servers.half.steadyRuns.request (.init 2) getTwo :=
    ⟨⟨hroutes, by decide⟩, by decide⟩
  have hwait := ConnectionPool.WaitPoll.run (p := getTwo.dispatch (.init 2)) (by decide)
    (PollLoop.steps_of_execsIf hs) (.inl hfinished)
  refine ⟨_, _, hwait, hcode, fun hfine => ?_⟩
  have hok := (waitPoll_ok_iff (.init 2) hreq (by decide) hwait).2 hfine
  cases hcode.symm.trans hok

end Libmc
