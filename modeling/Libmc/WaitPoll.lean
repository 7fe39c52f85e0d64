import Libmc.ConnectionPool

/-!
# The poll loop

`waitPoll` sends the requests of the active connections and receives their replies. A turn of the
loop looks at one descriptor after the other; for each there are four parts, one after the other,
and all but the last can jump to the next descriptor. The steps of the loop are these parts: `poll`
may report anything that was asked for, and an error on any descriptor that is not negative; the
calls on the sockets may come out in any way.
-/

namespace Libmc

/-- `pollfd`, with `POLLOUT` and `POLLIN` of the events. -/
structure PollFd where
  fd : ℤ
  out : Bool
  in_ : Bool
  deriving DecidableEq, Repr

/-- The events that are reported; `err` is any of `POLLERR`, `POLLHUP` and `POLLNVAL`. -/
structure Revents where
  err : Bool := false
  out : Bool := false
  in_ : Bool := false
  deriving DecidableEq, Repr

/-- What `poll` can report for a descriptor: events that were asked for, and errors; nothing for a
negative descriptor. -/
def PollFd.Reports (fd : PollFd) (r : Revents) : Prop :=
  (r.out → fd.out) ∧ (r.in_ → fd.in_) ∧ (r.err ∨ r.out ∨ r.in_ → 0 ≤ fd.fd)

/-- What the system answers in one part of a turn. `rounds` bounds the loop of the parser. -/
structure Answers where
  deadTime : ℤ := 0
  reconnect : Reconnect := ⟨0, none⟩
  room : Option ℕ := none
  bytes : Option Bytes := none
  rounds : ℕ := 0
  deriving DecidableEq, Repr

/-- What a turn of the loop works on: a connection, its descriptor, and `m_nActiveConn` and
`ret_code`. -/
structure Entry where
  conn : Connection
  pollfd : PollFd
  nActiveConn : ℕ
  retCode : ErrCode
  deriving DecidableEq, Repr

namespace Entry

/-- `ConnectionPool::markDeadConn`. -/
def markDeadConn (now : ℤ) (e : Entry) : Entry :=
  let conn := e.conn.markDead now
  { e with conn, pollfd := ⟨conn.socketFd, false, false⟩ }

/-- `ConnectionPool::rewindConn`. -/
def rewindConn (e : Entry) : Entry :=
  let conn := e.conn.rewind
  { e with conn, pollfd := ⟨conn.socketFd, true, false⟩ }

/-- `--m_nActiveConn`, with a code for the caller. -/
def giveUp (code : ErrCode) (e : Entry) : Entry :=
  { e with retCode := code, nActiveConn := decr32 e.nActiveConn }

/-- A connection has failed: it is marked dead, and either starts again or is given up. -/
def lose (code : ErrCode) (a : Answers) (e : Entry) : Entry :=
  let e := e.markDeadConn a.deadTime
  let e := { e with conn := e.conn.tryReconnect true a.reconnect }
  if e.conn.alive then e.rewindConn else e.giveUp code

/-! ### The parts of a turn; they say whether they jump to `next_fd` -/

/-- `POLLERR`, `POLLHUP` or `POLLNVAL`. -/
def errorPart (r : Revents) (a : Answers) (e : Entry) : Bool × Entry :=
  if r.err then (true, e.lose .connPollErr a) else (false, e)

/-- Receiving before anything is sent: the bytes are only looked at. A connection that starts again
here is not rewound. -/
def earlyPart (r : Revents) (a : Answers) (e : Entry) : Bool × Entry :=
  if r.in_ && !e.conn.isSent then
    let (nRecv, conn) := e.conn.recv true a.bytes
    let e := { e with conn }
    if nRecv = none ∨ nRecv = some [] then
      let e := e.markDeadConn a.deadTime
      let e := { e with conn := e.conn.tryReconnect false a.reconnect }
      if e.conn.alive then (true, { e with pollfd := ⟨e.conn.socketFd, true, false⟩ })
      else (true, e.giveUp .recvErr)
    else (false, { e with pollfd := { e.pollfd with in_ := false } })
  else (false, e)

/-- `POLLOUT`. A request without a reply is done when it is sent. -/
def sendPart (r : Revents) (a : Answers) (e : Entry) : Bool × Entry :=
  if r.out then
    match e.conn.send a.room with
    | (none, conn) => (true, lose .sendErr a { e with conn })
    | (some nToSend, conn) =>
      let e := { e with conn, pollfd := { e.pollfd with in_ := true } }
      if nToSend = 0 then
        let e := { e with pollfd := { e.pollfd with out := false } }
        if conn.counter = 0 then (false, { e with nActiveConn := decr32 e.nActiveConn })
        else (false, e)
      else (false, e)
  else (false, e)

/-- The `switch` on the code of the parser. -/
def parsed (err : ErrCode) (a : Answers) (e : Entry) : Entry :=
  match err with
  | .ok => { e with pollfd := { e.pollfd with in_ := false }, nActiveConn := decr32 e.nActiveConn }
  | .programmingErr => (e.markDeadConn a.deadTime).giveUp .programmingErr
  | .mcServerErr => (e.markDeadConn a.deadTime).giveUp .mcServerErr
  | _ => e

/-- `POLLIN`; none if the parser does not return. -/
def recvPart (r : Revents) (a : Answers) (e : Entry) : Option Entry :=
  if r.in_ then
    let (nRecv, conn) := e.conn.recv false a.bytes
    if nRecv = none ∨ nRecv = some [] then some (lose .recvErr a { e with conn })
    else
      (conn.process a.rounds).map fun (err, conn) => parsed err a { e with conn }
  else some e

end Entry

inductive Part
  | error
  | early
  | send
  | recv
  deriving DecidableEq, Repr

/-- The part that comes after one that does not jump. -/
def Part.next : Part → Option Part
  | .error => some .early
  | .early => some .send
  | .send => some .recv
  | .recv => none

/-- A part of a turn, and whether it jumps to `next_fd`. -/
def Entry.run (part : Part) (r : Revents) (a : Answers) (e : Entry) : Option (Bool × Entry) :=
  match part with
  | .error => some (e.errorPart r a)
  | .early => some (e.earlyPart r a)
  | .send => some (e.sendPart r a)
  | .recv => (e.recvPart r a).map (true, ·)

/-- Where the loop is: before `poll`, in a turn, or left by its condition or by `break`. -/
inductive Progress
  | polling
  | turn (fdIdx : ℕ) (part : Part) (revents : List Revents)
  | finished
  | broken
  deriving DecidableEq, Repr

/-- The state of `waitPoll`. -/
structure PollLoop where
  pool : ConnectionPool
  pollfds : List PollFd
  retCode : ErrCode := .ok
  progress : Progress := .polling
  deriving DecidableEq, Repr

inductive Event
  | leave
  | fail (code : ErrCode) (times : ℕ → ℤ)
  | report (revents : List Revents)
  | part (a : Answers)
  | nextRound

namespace ConnectionPool

/-- The descriptors that `waitPoll` starts with. -/
def startFds (p : ConnectionPool) : List PollFd :=
  p.activeConns.map fun i => ⟨(p.conns[i]?.map (·.socketFd)).getD (-1), true, true⟩

/-- `waitPoll` before its loop. -/
def startPoll (p : ConnectionPool) : PollLoop := { pool := p, pollfds := p.startFds }

/-- `ConnectionPool::markDeadAll`; without descriptors every active connection is marked dead. -/
def markDeadAll (pollfds : Option (List PollFd)) (times : ℕ → ℤ) (p : ConnectionPool) :
    ConnectionPool :=
  p.activeConns.zipIdx.foldl (fun p (i, fdIdx) =>
    p.modifyConn i fun c =>
      if pollfds.all fun fds => fds[fdIdx]?.any fun fd => fd.out || fd.in_ then
        c.markDead (times fdIdx)
      else c) p

end ConnectionPool

namespace PollLoop

/-- `fd2conn[fd_idx]`, as an index in `m_conns`. -/
def connAt (s : PollLoop) (fdIdx : ℕ) : Option ℕ := s.pool.activeConns[fdIdx]?

/-- What a turn works on. -/
def entry (s : PollLoop) (fdIdx : ℕ) : Option Entry := do
  let i ← s.connAt fdIdx
  let conn ← s.pool.conns[i]?
  let pollfd ← s.pollfds[fdIdx]?
  return ⟨conn, pollfd, s.pool.nActiveConn, s.retCode⟩

/-- What a turn has done. -/
def setEntry (s : PollLoop) (fdIdx : ℕ) (e : Entry) : PollLoop :=
  { s with
    pool := { s.pool with
      conns := match s.connAt fdIdx with
        | some i => s.pool.conns.set i e.conn
        | none => s.pool.conns
      nActiveConn := e.nActiveConn }
    pollfds := s.pollfds.set fdIdx e.pollfd
    retCode := e.retCode }

/-- What `poll` can report for all descriptors. -/
def Admissible (fds : List PollFd) (revents : List Revents) : Prop :=
  revents.length = fds.length ∧
    ∀ (k : ℕ) (fd : PollFd) (r : Revents), fds[k]? = some fd → revents[k]? = some r → fd.Reports r

instance (fd : PollFd) (r : Revents) : Decidable (fd.Reports r) := by
  unfold PollFd.Reports
  infer_instance

def next (fdIdx : ℕ) (part : Part) (revents : List Revents) (jump : Bool) : Progress :=
  match if jump then none else part.next with
  | some part => .turn fdIdx part revents
  | none => .turn (fdIdx + 1) .error revents

inductive Step (s : PollLoop) : Event → PollLoop → Prop
  | leave (hs : s.progress = .polling) (h0 : s.pool.nActiveConn = 0) :
      Step s .leave { s with progress := .finished }
  | fail {code : ErrCode} {times : ℕ → ℤ} (hs : s.progress = .polling)
      (h0 : s.pool.nActiveConn ≠ 0) (hcode : code = .pollErr ∨ code = .pollTimeoutErr) :
      Step s (.fail code times)
        { s with
          pool := s.pool.markDeadAll (some s.pollfds) times
          retCode := code
          progress := .broken }
  | report {revents : List Revents} (hs : s.progress = .polling) (h0 : s.pool.nActiveConn ≠ 0)
      (hr : Admissible s.pollfds revents) :
      Step s (.report revents) { s with progress := .turn 0 .error revents }
  | part {k : ℕ} {part : Part} {revents : List Revents} {r : Revents} {a : Answers} {e e' : Entry}
      {jump : Bool} (hs : s.progress = .turn k part revents) (he : s.entry k = some e)
      (hr : revents[k]? = some r) (hrun : e.run part r a = some (jump, e')) :
      Step s (.part a) { s.setEntry k e' with progress := next k part revents jump }
  | nextRound {k : ℕ} {part : Part} {revents : List Revents} (hs : s.progress = .turn k part revents)
      (hk : s.pollfds.length ≤ k) : Step s .nextRound { s with progress := .polling }

def exec (s : PollLoop) : Event → Option PollLoop
  | .leave =>
    if s.progress = .polling ∧ s.pool.nActiveConn = 0 then some { s with progress := .finished }
    else none
  | .fail code times =>
    if s.progress = .polling ∧ s.pool.nActiveConn ≠ 0 ∧ (code = .pollErr ∨ code = .pollTimeoutErr) then
      some
        { s with
          pool := s.pool.markDeadAll (some s.pollfds) times
          retCode := code
          progress := .broken }
    else none
  | .report revents =>
    if s.progress = .polling ∧ s.pool.nActiveConn ≠ 0 ∧ revents.length = s.pollfds.length ∧
        (s.pollfds.zip revents).all fun x => decide (x.1.Reports x.2) then
      some { s with progress := .turn 0 .error revents }
    else none
  | .part a =>
    match s.progress with
    | .turn k part revents => do
      let e ← s.entry k
      let r ← revents[k]?
      let (jump, e') ← e.run part r a
      return { s.setEntry k e' with progress := next k part revents jump }
    | _ => none
  | .nextRound =>
    match s.progress with
    | .turn k _ _ => if s.pollfds.length ≤ k then some { s with progress := .polling } else none
    | _ => none

theorem step_of_exec {s s' : PollLoop} (ev : Event) (h : s.exec ev = some s') : Step s ev s' := by
  cases ev with
  | leave =>
    dsimp only [exec] at h
    split_ifs at h with hs
    obtain rfl := Option.some.inj h
    exact .leave hs.1 hs.2
  | fail code times =>
    dsimp only [exec] at h
    split_ifs at h with hs
    obtain rfl := Option.some.inj h
    exact .fail hs.1 hs.2.1 hs.2.2
  | report revents =>
    dsimp only [exec] at h
    split_ifs at h with hs
    obtain rfl := Option.some.inj h
    refine .report hs.1 hs.2.1 ⟨hs.2.2.1, fun k fd r hfd hr => ?_⟩
    have hmem : (fd, r) ∈ s.pollfds.zip revents := by
      refine List.mem_of_getElem? (i := k) ?_
      rw [List.getElem?_zip_eq_some]
      exact ⟨hfd, hr⟩
    exact of_decide_eq_true (List.all_eq_true.1 hs.2.2.2 _ hmem)
  | part a =>
    dsimp only [exec] at h
    split at h
    · rename_i k part revents hs
      simp only [Option.bind_eq_bind, Option.bind_eq_some_iff, Option.pure_def] at h
      obtain ⟨e, he, r, hr, ⟨jump, e'⟩, hrun, heq⟩ := h
      obtain rfl := Option.some.inj heq
      exact .part hs he hr hrun
    · cases h
  | nextRound =>
    dsimp only [exec] at h
    split at h
    · rename_i k part revents hs
      split_ifs at h with hk
      obtain rfl := Option.some.inj h
      exact .nextRound hs hk
    · cases h

def Steps (rule : PollLoop → Event → PollLoop → Prop) : PollLoop → PollLoop → Prop :=
  Relation.ReflTransGen fun s s' => ∃ ev, Step s ev s' ∧ rule s ev s'

def Ended (s : PollLoop) : Prop := s.progress = .finished ∨ s.progress = .broken

end PollLoop

/-- `ConnectionPool::waitPoll`, with steps that keep a rule. -/
inductive ConnectionPool.WaitPoll (rule : PollLoop → Event → PollLoop → Prop) (p : ConnectionPool) :
    ErrCode → ConnectionPool → Prop
  | idle (h : p.nActiveConn = 0) :
      WaitPoll rule p (if 0 < p.nInvalidKey then .invalidKeyErr else .mcServerErr) p
  | run {s : PollLoop} (h : p.nActiveConn ≠ 0) (hs : PollLoop.Steps rule p.startPoll s)
      (hend : s.Ended) : WaitPoll rule p s.retCode s.pool

end Libmc
