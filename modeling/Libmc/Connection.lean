import Libmc.BufferWriter
import Libmc.ParserFeed

/-!
# Connections

A `Connection` has a socket, the writer of a request and the parser of its replies. What the system
does is a parameter of each call: the time, the outcome of a connection attempt, how many bytes
`sendmsg` takes and which bytes `recv` gives. `traffic` records what has gone through the present
socket; the code does not read it.
-/

namespace Libmc

/-- `MIN_DATABLOCK_CAPACITY`. -/
def minDataBlockCapacity : ℕ := 8192

/-- `MC_UIO_MAXIOV`. -/
def uioMaxIov : ℕ := 1024

/-- What has gone through a socket: the bytes written to it and taken from it, and the code of the
last call of `process` on its replies in the present command. Sockets are numbered. -/
structure Traffic where
  socket : ℕ := 0
  written : Bytes := []
  taken : Bytes := []
  processed : Option ErrCode := none
  deriving DecidableEq, Repr

/-- The clock, and the descriptor of a connection that is established. -/
structure Reconnect where
  now : ℤ
  fd : Option ℕ
  deriving DecidableEq, Repr

/-- `Connection`. -/
structure Connection where
  counter : ℕ := 0
  socketFd : ℤ := -1
  alive : Bool := false
  deadUntil : ℤ := 0
  retryTimeout : ℤ := 5
  maxRetries : ℤ := 0
  retires : ℤ := 0
  bufferWriter : BufferWriter := {}
  parser : PacketParser.Blocks := { bufferReader := {} }
  traffic : Traffic := {}
  deriving DecidableEq, Repr

namespace Connection

/-! ### The socket -/

/-- `Connection::close`. -/
def close (c : Connection) : Connection :=
  if 0 < c.socketFd then { c with alive := false, socketFd := -1 } else c

/-- `Connection::connect`; it says whether the connection is established. -/
def connect (r : Reconnect) (c : Connection) : Bool × Connection :=
  match r.fd with
  | some fd =>
    (true,
      { c.close with socketFd := fd, alive := true, traffic := { socket := c.traffic.socket + 1 } })
  | none => (false, c.close)

/-- The part of `tryReconnect` after the check of the retries. -/
def attempt (r : Reconnect) (c : Connection) : Connection :=
  if c.deadUntil ≤ r.now then
    match c.connect r with
    | (true, c) => { c with deadUntil := 0 }
    | (false, c) => { c with deadUntil := r.now + c.retryTimeout }
  else c

/-- `Connection::tryReconnect`, without its result, which is `m_alive`. -/
def tryReconnect (checkRetries : Bool) (r : Reconnect) (c : Connection) : Connection :=
  if c.alive then c
  else if checkRetries then
    let c := { c with retires := c.retires + 1 }
    if c.maxRetries < c.retires then c else c.attempt r
  else c.attempt r

/-- `Connection::markDead`, with the default delay. -/
def markDead (now : ℤ) (c : Connection) : Connection :=
  if c.alive then { c with deadUntil := now }.close else c

/-! ### The request -/

/-- `Connection::takeBuffer`. -/
def takeBuffer (buf : Bytes) (c : Connection) : Connection :=
  { c with bufferWriter := c.bufferWriter.takeBuffer buf }

/-- `Connection::takeNumber`. -/
def takeNumber (val : Int64) (c : Connection) : Connection :=
  { c with bufferWriter := c.bufferWriter.takeNumber val }

/-- `Connection::addRequestKey`. -/
def addRequestKey (key : Bytes) (c : Connection) : Connection :=
  { c with parser := { c.parser with requestKeys := c.parser.requestKeys ++ [key] } }

/-- `Connection::requestKeyCount`. -/
def requestKeyCount (c : Connection) : ℕ := c.parser.requestKeys.length

/-- `Connection::setParserMode`. -/
def setParserMode (md : ParserMode) (c : Connection) : Connection :=
  { c with parser := { c.parser with mode := md } }

/-- `Connection::isSent`. -/
def isSent (c : Connection) : Bool := c.bufferWriter.isRead

/-- What `sendmsg` is given. -/
def offered (c : Connection) : Bytes := (c.bufferWriter.getReadPtr.take uioMaxIov).flatten

/-- `Connection::send`. `sendmsg` takes what there is room for, and `none` is its `-1`. The result
is the number of buffers left. -/
def send (room : Option ℕ) (c : Connection) : Option ℕ × Connection :=
  match room with
  | none => (none, c)
  | some room =>
    let nSent := min room c.offered.length
    let writer := c.bufferWriter.commitRead nSent
    (some writer.msgIovlen,
      { c with
        bufferWriter := writer
        traffic := { c.traffic with written := c.traffic.written ++ c.offered.take nSent } })

/-! ### The replies -/

/-- The block that `recv` writes to, and how many bytes fit in it. -/
def prepareRecv (c : Connection) : ℕ × BufferReader :=
  let (bufferSize, reader) :=
    c.parser.bufferReader.getNextPreferedDataBlockSize minDataBlockCapacity
  reader.prepareWriteBlock minDataBlockCapacity bufferSize

/-- `Connection::recv`. `none` is the `-1` of `recv`, and no bytes are the end of the stream. -/
def recv (isPeek : Bool) (bytes : Option Bytes) (c : Connection) : Option Bytes × Connection :=
  let (bufferSizeAvailable, reader) := c.prepareRecv
  let actual := bytes.map (·.take bufferSizeAvailable)
  match actual with
  | some bs =>
    if !isPeek && bs ≠ [] then
      (actual,
        { c with
          parser := { c.parser with bufferReader := reader.commitWrite bs }
          traffic := { c.traffic with taken := c.traffic.taken ++ bs } })
    else (actual, { c with parser := { c.parser with bufferReader := reader } })
  | none => (actual, { c with parser := { c.parser with bufferReader := reader } })

/-- `Connection::process`, for at most `n` rounds of `process_packets`. -/
def process (n : ℕ) (c : Connection) : Option (ErrCode × Connection) :=
  (Loop.run PacketParser.body n c.parser.enter).map fun r =>
    (r.1, { c with parser := r.2, traffic := { c.traffic with processed := some r.1 } })

/-! ### Starting again -/

/-- `Connection::reset`. -/
def reset (c : Connection) : Connection :=
  { c with
    counter := 0
    retires := 0
    parser := { c.parser.reset with bufferReader := c.parser.bufferReader.reset }
    bufferWriter := c.bufferWriter.reset
    traffic := { c.traffic with processed := none } }

/-- `Connection::rewind`. -/
def rewind (c : Connection) : Connection :=
  { c with
    parser := { c.parser.rewind with bufferReader := c.parser.bufferReader.reset }
    bufferWriter := c.bufferWriter.rewind }

/-! ### What happens to the socket alone -/

variable {c c' c'' : Connection} {r : Reconnect}

/-- The request and its replies are as before. -/
structure SameWork (c c' : Connection) : Prop where
  bufferWriter_eq : c'.bufferWriter = c.bufferWriter
  parser_eq : c'.parser = c.parser
  counter_eq : c'.counter = c.counter

theorem SameWork.refl (c : Connection) : SameWork c c := ⟨rfl, rfl, rfl⟩

theorem SameWork.trans (h : SameWork c c') (h' : SameWork c' c'') : SameWork c c'' :=
  ⟨h'.1.trans h.1, h'.2.trans h.2, h'.3.trans h.3⟩

theorem sameWork_close (c : Connection) : SameWork c c.close := by
  unfold close
  split_ifs <;> exact ⟨rfl, rfl, rfl⟩

theorem sameWork_connect (r : Reconnect) (c : Connection) : SameWork c (c.connect r).2 := by
  unfold connect
  cases r.fd with
  | none => exact sameWork_close c
  | some fd => exact (sameWork_close c).trans ⟨rfl, rfl, rfl⟩

theorem sameWork_attempt (r : Reconnect) (c : Connection) : SameWork c (c.attempt r) := by
  have hconnect := sameWork_connect r c
  unfold attempt
  split_ifs
  · rcases hc : c.connect r with ⟨ok, d⟩
    rw [hc] at hconnect
    cases ok <;> exact hconnect.trans ⟨rfl, rfl, rfl⟩
  · exact SameWork.refl c

theorem sameWork_tryReconnect (checkRetries : Bool) (r : Reconnect) (c : Connection) :
    SameWork c (c.tryReconnect checkRetries r) := by
  have hretire : SameWork c { c with retires := c.retires + 1 } := ⟨rfl, rfl, rfl⟩
  unfold tryReconnect
  split_ifs
  · exact SameWork.refl c
  · dsimp only
    split_ifs
    · exact hretire
    · exact hretire.trans (sameWork_attempt r _)
  · exact sameWork_attempt r c

theorem sameWork_markDead (now : ℤ) (c : Connection) : SameWork c (c.markDead now) := by
  have hdead : SameWork c { c with deadUntil := now } := ⟨rfl, rfl, rfl⟩
  unfold markDead
  split_ifs
  · exact hdead.trans (sameWork_close _)
  · exact SameWork.refl c

theorem traffic_markDead (now : ℤ) (c : Connection) : (c.markDead now).traffic = c.traffic := by
  unfold markDead close
  split_ifs <;> rfl

/-- A connection is alive as long as it has a descriptor. -/
def LiveFd (c : Connection) : Prop := c.alive = true ↔ 0 ≤ c.socketFd

structure SameSocket (c c' : Connection) : Prop where
  alive_eq : c'.alive = c.alive
  socketFd_eq : c'.socketFd = c.socketFd
  traffic_eq : c'.traffic = c.traffic

/-- The connection has no socket; the record of the last one is kept. -/
structure Closed (c c' : Connection) : Prop where
  alive_eq : c'.alive = false
  socketFd_lt : c'.socketFd < 0
  traffic_eq : c'.traffic = c.traffic

/-- The connection has a new socket. -/
structure Reconnected (r : Reconnect) (c c' : Connection) : Prop where
  alive_eq : c'.alive = true
  fd_eq : ∃ fd : ℕ, r.fd = some fd ∧ c'.socketFd = fd
  traffic_eq : c'.traffic = { socket := c.traffic.socket + 1 }

theorem SameSocket.liveFd (h : SameSocket c c') (hc : c.LiveFd) : c'.LiveFd := by
  unfold LiveFd at *
  rw [h.alive_eq, h.socketFd_eq]
  exact hc

theorem Closed.liveFd (h : Closed c c') : c'.LiveFd := by
  unfold LiveFd
  rw [h.alive_eq]
  have := h.socketFd_lt
  simp only [Bool.false_eq_true, false_iff]
  omega

theorem Reconnected.liveFd (h : Reconnected r c c') : c'.LiveFd := by
  obtain ⟨fd, -, hfd⟩ := h.fd_eq
  unfold LiveFd
  rw [h.alive_eq, hfd]
  simp

theorem markDead_cases (h : c.LiveFd) (now : ℤ) :
    (c.socketFd ≠ 0 ∧ Closed c (c.markDead now)) ∨
      (c.socketFd = 0 ∧ SameSocket c (c.markDead now)) := by
  unfold LiveFd at h
  unfold markDead close
  by_cases halive : c.alive = true
  · have hfd := h.1 halive
    rw [if_pos halive]
    by_cases hpos : 0 < c.socketFd
    · rw [if_pos hpos]
      exact .inl ⟨by omega, rfl, Int.negSucc_lt_zero 0, rfl⟩
    · rw [if_neg hpos]
      exact .inr ⟨by omega, rfl, rfl, rfl⟩
  · have hfd : ¬ 0 ≤ c.socketFd := fun hfd => halive (h.2 hfd)
    rw [if_neg halive]
    exact .inl ⟨by omega, by simpa using halive, by omega, rfl⟩

/-- Only the descriptor 0 outlives `markDead`. -/
theorem alive_markDead (h : c.LiveFd) (hfd : c.socketFd ≠ 0) (now : ℤ) :
    (c.markDead now).alive = false := by
  rcases markDead_cases h now with ⟨-, hclosed⟩ | ⟨hzero, -⟩
  · exact hclosed.alive_eq
  · exact absurd hzero hfd

theorem attempt_cases (h : c.LiveFd) (hdead : c.alive = false) (r : Reconnect) :
    Closed c (c.attempt r) ∨ Reconnected r c (c.attempt r) := by
  have hfd : ¬ 0 ≤ c.socketFd := fun hfd => by
    rw [h.2 hfd] at hdead
    cases hdead
  have hclose : c.close = c := by
    unfold close
    exact if_neg (by omega)
  unfold attempt connect
  rw [hclose]
  split_ifs
  · rcases hr : r.fd with _ | fd
    · exact .inl ⟨hdead, by simpa using hfd, rfl⟩
    · exact .inr ⟨rfl, ⟨fd, hr, rfl⟩, rfl⟩
  · exact .inl ⟨hdead, by simpa using hfd, rfl⟩

theorem tryReconnect_of_alive (h : c.alive = true) (checkRetries : Bool) (r : Reconnect) :
    c.tryReconnect checkRetries r = c := if_pos h

/-- Reconnecting gives a new socket, or none. -/
theorem tryReconnect_cases (h : c.LiveFd) (hdead : c.alive = false) (checkRetries : Bool)
    (r : Reconnect) :
    Closed c (c.tryReconnect checkRetries r) ∨ Reconnected r c (c.tryReconnect checkRetries r) := by
  have hfd : c.socketFd < 0 := by
    by_contra hfd
    rw [h.2 (by omega)] at hdead
    cases hdead
  unfold tryReconnect
  rw [if_neg (by simp [hdead])]
  split_ifs
  · dsimp only
    split_ifs
    · exact .inl ⟨hdead, hfd, rfl⟩
    · rcases attempt_cases (c := { c with retires := c.retires + 1 }) h hdead r with hc | hc
      · exact .inl ⟨hc.alive_eq, hc.socketFd_lt, hc.traffic_eq⟩
      · exact .inr ⟨hc.alive_eq, hc.fd_eq, hc.traffic_eq⟩
  · exact attempt_cases h hdead r

theorem LiveFd.tryReconnect (h : c.LiveFd) (checkRetries : Bool) (r : Reconnect) :
    (c.tryReconnect checkRetries r).LiveFd := by
  by_cases halive : c.alive = true
  · rw [tryReconnect_of_alive halive]
    exact h
  · rcases tryReconnect_cases h (by simpa using halive) checkRetries r with hc | hc
    · exact hc.liveFd
    · exact hc.liveFd

/-- The socket is as before, or the connection was dead and has been tried again. -/
def Retried (c c' : Connection) : Prop :=
  SameSocket c c' ∨ c.alive = false ∧ (Closed c c' ∨ ∃ r, Reconnected r c c')

theorem Retried.trans_same (h : Retried c c') (h' : SameSocket c' c'') : Retried c c'' := by
  rcases h with h | ⟨hdead, h | ⟨r, h⟩⟩
  · exact .inl ⟨h'.1.trans h.1, h'.2.trans h.2, h'.3.trans h.3⟩
  · exact .inr ⟨hdead, .inl ⟨h'.1.trans h.1, h'.2 ▸ h.2, h'.3.trans h.3⟩⟩
  · obtain ⟨fd, hr, hfd⟩ := h.fd_eq
    exact .inr ⟨hdead, .inr ⟨r, h'.1.trans h.1, ⟨fd, hr, h'.2.trans hfd⟩, h'.3.trans h.3⟩⟩

theorem Retried.liveFd (h : Retried c c') (hc : c.LiveFd) : c'.LiveFd := by
  rcases h with h | ⟨-, h | ⟨r, h⟩⟩
  · exact h.liveFd hc
  · exact h.liveFd
  · exact h.liveFd

/-- Trying again changes nothing on a connection that is alive. -/
theorem Retried.tryReconnect (h : Retried c c') (hc : c.LiveFd) (checkRetries : Bool)
    (r : Reconnect) : Retried c (c'.tryReconnect checkRetries r) := by
  by_cases halive : c'.alive = true
  · rw [tryReconnect_of_alive halive]
    exact h
  · have hdead' : c'.alive = false := by simpa using halive
    have hdead : c.alive = false ∧ c'.traffic = c.traffic := by
      rcases h with h | ⟨hdead, h | ⟨r, h⟩⟩
      · exact ⟨h.alive_eq.symm.trans hdead', h.traffic_eq⟩
      · exact ⟨hdead, h.traffic_eq⟩
      · exact absurd h.alive_eq halive
    rcases tryReconnect_cases (h.liveFd hc) hdead' checkRetries r with h' | h'
    · exact .inr ⟨hdead.1, .inl ⟨h'.1, h'.2, h'.3.trans hdead.2⟩⟩
    · exact .inr ⟨hdead.1, .inr ⟨r, h'.1, h'.2, by rw [h'.3, hdead.2]⟩⟩

/-- A connection that has only been tried again. -/
structure Idled (c c' : Connection) : Prop where
  work : SameWork c c'
  socket : c.LiveFd → Retried c c'

theorem Idled.refl (c : Connection) : Idled c c := ⟨SameWork.refl c, fun _ => .inl ⟨rfl, rfl, rfl⟩⟩

theorem Idled.tryReconnect (h : Idled c c') (checkRetries : Bool) (r : Reconnect) :
    Idled c (c'.tryReconnect checkRetries r) where
  work := h.work.trans (sameWork_tryReconnect _ _ _)
  socket hc := (h.socket hc).tryReconnect hc checkRetries r

end Connection

end Libmc
