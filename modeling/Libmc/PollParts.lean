import Libmc.PollInvariant

/-!
# What the parts of a turn do

A part of a turn does nothing, or its connection is lost (and starts again or is given up), or it
peeks, sends or receives. `Entry.run_cases` is the one place where the parts are unfolded; every
invariant of the loop is a case analysis over `Effect`.
-/

namespace Libmc

variable {c c' d : Connection} {r : Revents} {a : Answers} {e e' : Entry} {part : Part} {jump : Bool}
  {n : ℕ} {bs : Bytes}

/-- The parser of a connection whose reader has prepared a block. -/
structure SameReplies (p p' : PacketParser.Blocks) : Prop where
  ok : p.Ok → p'.Ok
  view_eq : p.Ok → p'.view = p.view

theorem SameReplies.refl (p : PacketParser.Blocks) : SameReplies p p := ⟨id, fun _ => rfl⟩

namespace Connection

/-- A connection on which nothing was sent and nothing was received. -/
structure Waited (c d : Connection) : Prop where
  socket : SameSocket c d
  bufferWriter_eq : d.bufferWriter = c.bufferWriter
  counter_eq : d.counter = c.counter
  replies : SameReplies c.parser d.parser

theorem Waited.refl (c : Connection) : Waited c c :=
  ⟨⟨rfl, rfl, rfl⟩, rfl, rfl, SameReplies.refl c.parser⟩

/-- The block that is prepared has room, and nothing is lost. -/
theorem prepareRecv_spec (h : c.parser.Ok) :
    BufferReader.Writes c.parser.bufferReader [] c.prepareRecv.2 ∧
      BufferReader.Prepared c.prepareRecv.2 ∧ 0 < c.prepareRecv.1 ∧
      c.prepareRecv.1 ≤ c.prepareRecv.2.writeBlock.getWriteLeft := by
  have hsize : 0 < (c.parser.bufferReader.getNextPreferedDataBlockSize minDataBlockCapacity).1 := by
    unfold BufferReader.getNextPreferedDataBlockSize
    dsimp only
    split_ifs with h0
    · decide
    · omega
  have hreads := PacketParser.reads_nextPrefered h minDataBlockCapacity
  obtain ⟨hw, hprep, hpos, -, hroom⟩ :=
    BufferReader.prepareWriteBlock_spec hreads.wf minDataBlockCapacity hsize
  exact ⟨⟨hw.wf, hw.unread_eq, hw.keeps⟩, hprep, hpos, hroom⟩

structure Received (c : Connection) (bs : Bytes) (d : Connection) : Prop where
  alive_eq : d.alive = c.alive
  socketFd_eq : d.socketFd = c.socketFd
  traffic_eq : d.traffic = { c.traffic with taken := c.traffic.taken ++ bs }
  bufferWriter_eq : d.bufferWriter = c.bufferWriter
  counter_eq : d.counter = c.counter
  ok : c.parser.Ok → d.parser.Ok
  view_eq : c.parser.Ok → d.parser.view = c.parser.view.feed bs

theorem recv_cases (isPeek : Bool) (bytes : Option Bytes) (c : Connection) :
    (isPeek = true ∨ (c.recv isPeek bytes).1 = none ∨ (c.recv isPeek bytes).1 = some [] →
        Waited c (c.recv isPeek bytes).2) ∧
      ∀ bs, isPeek = false → (c.recv isPeek bytes).1 = some bs → bs ≠ [] →
        Received c bs (c.recv isPeek bytes).2 := by
  have hwaited : Waited c { c with parser := { c.parser with bufferReader := c.prepareRecv.2 } } := by
    refine ⟨⟨rfl, rfl, rfl⟩, rfl, rfl, fun h => h.writes (prepareRecv_spec h).1, fun h => ?_⟩
    have := PacketParser.view_writes h (prepareRecv_spec h).1
    rw [List.append_nil] at this
    exact this
  rcases hb : bytes with _ | bs
  · exact ⟨fun _ => hwaited, fun bs' _ h => by cases h⟩
  · have hrecv : ∀ isPeek, c.recv isPeek (some bs) =
        if !isPeek && bs.take c.prepareRecv.1 ≠ [] then
          (some (bs.take c.prepareRecv.1),
            { c with
              parser :=
                { c.parser with
                  bufferReader := c.prepareRecv.2.commitWrite (bs.take c.prepareRecv.1) }
              traffic := { c.traffic with taken := c.traffic.taken ++ bs.take c.prepareRecv.1 } })
        else
          (some (bs.take c.prepareRecv.1),
            { c with parser := { c.parser with bufferReader := c.prepareRecv.2 } }) := fun _ => rfl
    rw [hrecv]
    split_ifs with hgot
    · rw [Bool.and_eq_true, Bool.not_eq_true', decide_eq_true_eq] at hgot
      refine ⟨fun h => ?_, fun bs' _ h _ => ?_⟩
      · rcases h with h | h | h
        · rw [hgot.1] at h
          cases h
        · cases h
        · exact absurd (Option.some.inj h) hgot.2
      · obtain rfl := Option.some.inj h
        have hwrites : c.parser.Ok → BufferReader.Writes c.parser.bufferReader
            (bs.take c.prepareRecv.1) (c.prepareRecv.2.commitWrite (bs.take c.prepareRecv.1)) := by
          intro hok
          obtain ⟨hw, hprep, -, hroom⟩ := prepareRecv_spec hok
          have hlen : (bs.take c.prepareRecv.1).length ≤ c.prepareRecv.1 := List.length_take_le _ _
          have := hw.trans (BufferReader.commitWrite_writes hprep hgot.2 (hlen.trans hroom))
          rwa [List.nil_append] at this
        exact ⟨rfl, rfl, rfl, rfl, rfl, fun hok => hok.writes (hwrites hok),
          fun hok => PacketParser.view_writes hok (hwrites hok)⟩
    · refine ⟨fun _ => hwaited, fun bs' hpeek h hne => ?_⟩
      obtain rfl := Option.some.inj h
      simp [hpeek, hne] at hgot

/-- What is offered to `sendmsg` is what comes next. -/
theorem offered_prefix (c : Connection) : c.offered <+: c.bufferWriter.unread := by
  have hsplit := List.take_append_drop uioMaxIov c.bufferWriter.getReadPtr
  refine ⟨(c.bufferWriter.getReadPtr.drop uioMaxIov).flatten, ?_⟩
  unfold offered BufferWriter.unread
  rw [← List.flatten_append, hsplit]

theorem parser_rewound (h : c.parser.Ok) : c.rewind.parser.Ok ∧
    c.rewind.parser.view = { c.parser.view.rewind with bufferReader := [] } := by
  obtain ⟨hwf, hunread⟩ := BufferReader.wf_reset h.wf
  refine ⟨⟨hwf, fun _ h => absurd h List.not_mem_nil, fun _ h => absurd h List.not_mem_nil⟩, ?_⟩
  have : c.rewind.parser.view = { c.parser.view.rewind with
    bufferReader := c.parser.bufferReader.reset.unread } := rfl
  rw [this, hunread]

end Connection

/-! ### A connection is lost -/

/-- The result of a call of `recv` is an error, or the end of the stream. -/
def Fails (nRecv : Option Bytes) : Prop := nRecv = none ∨ nRecv = some []

namespace Entry

/-- A part of a turn finds that its connection has failed. -/
def Loses (part : Part) (r : Revents) (a : Answers) (e : Entry) : Prop :=
  match part with
  | .error => r.err
  | .early => r.in_ ∧ e.conn.isSent = false ∧ Fails (e.conn.recv true a.bytes).1
  | .send => r.out ∧ a.room = none
  | .recv => r.in_ ∧ Fails (e.conn.recv false a.bytes).1

/-- The parser gives a code for what is received. -/
def Gives (r : Revents) (a : Answers) (e : Entry) (err : ErrCode) : Prop :=
  r.in_ ∧ ∃ bs d d', e.conn.recv false a.bytes = (some bs, d) ∧ bs ≠ [] ∧
    d.process a.rounds = some (err, d')

/-- A lost connection has a socket again: a new one, or descriptor 0, which `close` leaves alone. -/
def Socket (a : Answers) (c c' : Connection) : Prop :=
  (c.socketFd ≠ 0 ∧ Connection.Reconnected a.reconnect c c') ∨
    (c.socketFd = 0 ∧ Connection.SameSocket c c')

/-- The request starts again, on a socket. -/
structure Rewound (a : Answers) (c : Connection) (e e' : Entry) : Prop where
  alive_eq : e'.conn.alive = true
  live : e'.conn.LiveFd
  socket : Socket a c e'.conn
  pollfd_eq : e'.pollfd = ⟨e'.conn.socketFd, true, false⟩
  bufferWriter_eq : e'.conn.bufferWriter = c.bufferWriter.rewind
  counter_eq : e'.conn.counter = c.counter
  ok : c.parser.Ok → e'.conn.parser.Ok
  view_eq : c.parser.Ok →
    e'.conn.parser.view = { c.parser.view.rewind with bufferReader := [] }
  nActiveConn_eq : e'.nActiveConn = e.nActiveConn

/-- The request goes on, on a socket. -/
structure Resumed (a : Answers) (c : Connection) (e e' : Entry) : Prop where
  alive_eq : e'.conn.alive = true
  live : e'.conn.LiveFd
  socket : Socket a c e'.conn
  pollfd_eq : e'.pollfd = ⟨e'.conn.socketFd, true, false⟩
  work : Connection.SameWork c e'.conn
  nActiveConn_eq : e'.nActiveConn = e.nActiveConn

/-- The connection is given up. -/
structure GivenUp (c : Connection) (e e' : Entry) : Prop where
  fd_ne : c.socketFd ≠ 0
  closed : Connection.Closed c e'.conn
  pollfd_eq : ∃ fd, fd < 0 ∧ e'.pollfd = ⟨fd, false, false⟩
  work : Connection.SameWork c e'.conn
  nActiveConn_eq : e'.nActiveConn = decr32 e.nActiveConn

theorem Socket.liveFd (h : Socket a c c') (hc : c.LiveFd) : c'.LiveFd := by
  rcases h with ⟨-, h⟩ | ⟨-, h⟩
  · exact h.liveFd
  · exact h.liveFd hc

theorem Socket.trans_same (h : Socket a c c') (hd : Connection.SameSocket c' d) : Socket a c d := by
  rcases h with ⟨h0, h⟩ | ⟨h0, h⟩
  · obtain ⟨fd, hr, hfd⟩ := h.fd_eq
    exact .inl ⟨h0, hd.alive_eq.trans h.alive_eq, ⟨fd, hr, hd.socketFd_eq.trans hfd⟩,
      hd.traffic_eq.trans h.traffic_eq⟩
  · exact .inr ⟨h0, hd.alive_eq.trans h.alive_eq, hd.socketFd_eq.trans h.socketFd_eq,
      hd.traffic_eq.trans h.traffic_eq⟩

theorem reconnect_cases (h : c.LiveFd) (checkRetries : Bool) (a : Answers) :
    Connection.SameWork c ((c.markDead a.deadTime).tryReconnect checkRetries a.reconnect) ∧
      (c.socketFd ≠ 0 ∧
          Connection.Closed c ((c.markDead a.deadTime).tryReconnect checkRetries a.reconnect) ∧
          (c.markDead a.deadTime).socketFd < 0 ∨
        ((c.markDead a.deadTime).tryReconnect checkRetries a.reconnect).alive = true ∧
          Socket a c ((c.markDead a.deadTime).tryReconnect checkRetries a.reconnect)) := by
  refine ⟨(Connection.sameWork_markDead _ _).trans (Connection.sameWork_tryReconnect _ _ _), ?_⟩
  rcases Connection.markDead_cases h a.deadTime with ⟨hfd, hdead⟩ | ⟨hfd, hsame⟩
  · rcases Connection.tryReconnect_cases hdead.liveFd hdead.alive_eq checkRetries a.reconnect with
      hc | hc
    · refine .inl ⟨hfd, ⟨hc.alive_eq, hc.socketFd_lt, ?_⟩, hdead.socketFd_lt⟩
      exact hc.traffic_eq.trans hdead.traffic_eq
    · refine .inr ⟨hc.alive_eq, .inl ⟨hfd, hc.alive_eq, hc.fd_eq, ?_⟩⟩
      rw [hc.traffic_eq, hdead.traffic_eq]
  · have halive : (c.markDead a.deadTime).alive = true := by
      rw [hsame.alive_eq]
      exact h.2 hfd.ge
    rw [Connection.tryReconnect_of_alive halive]
    exact .inr ⟨halive, .inr ⟨hfd, hsame⟩⟩

/-- A connection that is lost starts again or is given up. -/
theorem lose_cases (h : d.LiveFd) (code : ErrCode) (a : Answers) (e : Entry) :
    Rewound a d e (lose code a { e with conn := d }) ∨
      GivenUp d e (lose code a { e with conn := d }) := by
  obtain ⟨hwork, hcases⟩ := reconnect_cases h true a
  unfold lose markDeadConn
  dsimp only
  rcases hcases with ⟨hne, hclosed, hfd⟩ | ⟨halive, hsocket⟩
  · rw [if_neg (by simp [hclosed.alive_eq])]
    exact .inr ⟨hne, hclosed, ⟨_, hfd, rfl⟩, hwork, rfl⟩
  · rw [if_pos halive]
    have hparser : ∀ c : Connection, Connection.SameWork d c → d.parser.Ok → c.rewind.parser.Ok ∧
        c.rewind.parser.view = { d.parser.view.rewind with bufferReader := [] } := by
      intro c hc hok
      rw [← hc.parser_eq] at hok ⊢
      exact Connection.parser_rewound hok
    refine .inl ⟨halive, hsocket.liveFd h, hsocket.trans_same ⟨rfl, rfl, rfl⟩, rfl, ?_,
      hwork.counter_eq, fun hok => (hparser _ hwork hok).1, fun hok => (hparser _ hwork hok).2, rfl⟩
    show BufferWriter.rewind _ = _
    rw [hwork.bufferWriter_eq]

/-! ### The cases of a part -/

/-- `n` bytes are sent. -/
def sent (n : ℕ) (e : Entry) : Entry :=
  let writer := e.conn.bufferWriter.commitRead n
  { e with
    conn :=
      { e.conn with
        bufferWriter := writer
        traffic := { e.conn.traffic with written := e.conn.traffic.written ++ e.conn.offered.take n } }
    pollfd := { e.pollfd with out := e.pollfd.out && writer.msgIovlen ≠ 0, in_ := true }
    nActiveConn :=
      if writer.msgIovlen = 0 ∧ e.conn.counter = 0 then decr32 e.nActiveConn else e.nActiveConn }

/-- The connection after a failure before anything is sent. -/
def restarted (a : Answers) (e : Entry) : Connection :=
  ((e.conn.recv true a.bytes).2.markDead a.deadTime).tryReconnect false a.reconnect

/-- What a part of a turn does, and whether it jumps. -/
inductive Effect (r : Revents) (a : Answers) (e : Entry) : Part → Bool → Entry → Prop
  | idle {part : Part} {jump : Bool} (hkeeps : ¬ e.Loses part r a)
      (hout : part = .send → r.out = false) (hin : part = .recv → r.in_ = false) :
      Effect r a e part jump e
  | rewound {part : Part} {d : Connection} {e' : Entry} (hpart : part ≠ .early)
      (hloses : e.Loses part r a) (hd : Connection.Waited e.conn d) (h : Rewound a d e e') :
      Effect r a e part true e'
  | resumed {d : Connection} {e' : Entry} (hloses : e.Loses .early r a)
      (hd : Connection.Waited e.conn d) (h : Resumed a d e e') (heq : e'.conn = e.restarted a) :
      Effect r a e .early true e'
  | givenUp {part : Part} {d : Connection} {e' : Entry} (hloses : e.Loses part r a)
      (hd : Connection.Waited e.conn d) (h : GivenUp d e e')
      (heq : part = .early → e'.conn = e.restarted a) : Effect r a e part true e'
  | peeked {d : Connection} (hkeeps : ¬ e.Loses .early r a) (hin : r.in_ = true)
      (hsent : e.conn.isSent = false) (hd : Connection.Waited e.conn d) :
      Effect r a e .early false { e with conn := d, pollfd := { e.pollfd with in_ := false } }
  | sent {n : ℕ} (hkeeps : ¬ e.Loses .send r a) (hout : r.out = true)
      (hn : n ≤ e.conn.offered.length) :
      Effect r a e .send false (e.sent n)
  | received {bs : Bytes} {d d' : Connection} {err : ErrCode} (hkeeps : ¬ e.Loses .recv r a)
      (hgives : e.Gives r a err) (hbs : bs ≠ []) (hd : Connection.Received e.conn bs d)
      (hp : d.process a.rounds = some (err, d')) :
      Effect r a e .recv true (parsed err a { e with conn := d' })

/-- **The cases of a part of a turn.** -/
theorem run_cases (h : e.conn.LiveFd) (hrun : e.run part r a = some (jump, e')) :
    Effect r a e part jump e' := by
  cases part with
  | error =>
    have hpart : e.errorPart r a = (jump, e') := Option.some.inj hrun
    unfold errorPart at hpart
    split_ifs at hpart with herr
    · obtain ⟨rfl, rfl⟩ := Prod.mk.inj hpart
      rcases lose_cases h .connPollErr a e with hlost | hlost
      · exact .rewound (by decide) herr (Connection.Waited.refl _) hlost
      · exact .givenUp herr (Connection.Waited.refl _) hlost fun h => by cases h
    · obtain ⟨rfl, rfl⟩ := Prod.mk.inj hpart
      exact .idle herr (fun h => by cases h) fun h => by cases h
  | early =>
    have hpart : e.earlyPart r a = (jump, e') := Option.some.inj hrun
    unfold earlyPart at hpart
    split_ifs at hpart with hin
    · rw [Bool.and_eq_true, Bool.not_eq_true'] at hin
      have hwaited := (Connection.recv_cases true a.bytes e.conn).1 (.inl rfl)
      rcases hrecv : e.conn.recv true a.bytes with ⟨nRecv, d⟩
      rw [hrecv] at hwaited
      simp only [hrecv] at hpart
      split_ifs at hpart with hfail halive
      · obtain ⟨rfl, rfl⟩ := Prod.mk.inj hpart
        have hloses : e.Loses .early r a := ⟨hin.1, hin.2, by rw [hrecv]; exact hfail⟩
        obtain ⟨hwork, hcases⟩ := reconnect_cases (hwaited.socket.liveFd h) false a
        rcases hcases with ⟨-, hclosed, -⟩ | ⟨-, hsocket⟩
        · exact absurd (hclosed.alive_eq.symm.trans halive) (by decide)
        · refine .resumed hloses hwaited ⟨halive, hsocket.liveFd (hwaited.socket.liveFd h), hsocket,
            rfl, hwork, rfl⟩ ?_
          unfold restarted
          rw [hrecv]
          rfl
      · obtain ⟨rfl, rfl⟩ := Prod.mk.inj hpart
        have hloses : e.Loses .early r a := ⟨hin.1, hin.2, by rw [hrecv]; exact hfail⟩
        obtain ⟨hwork, hcases⟩ := reconnect_cases (hwaited.socket.liveFd h) false a
        rcases hcases with ⟨hne, hclosed, hfd⟩ | ⟨halive', -⟩
        · refine .givenUp hloses hwaited ⟨hne, hclosed, ⟨_, hfd, rfl⟩, hwork, rfl⟩ fun _ => ?_
          unfold restarted
          rw [hrecv]
          rfl
        · exact absurd halive' halive
      · obtain ⟨rfl, rfl⟩ := Prod.mk.inj hpart
        refine .peeked (fun hloses => hfail ?_) hin.1 hin.2 hwaited
        have := hloses.2.2
        rw [hrecv] at this
        exact this
    · obtain ⟨rfl, rfl⟩ := Prod.mk.inj hpart
      refine .idle (fun hloses => hin ?_) (fun h => by cases h) fun h => by cases h
      rw [Bool.and_eq_true, Bool.not_eq_true']
      exact ⟨hloses.1, hloses.2.1⟩
  | send =>
    have hpart : e.sendPart r a = (jump, e') := Option.some.inj hrun
    unfold sendPart at hpart
    split_ifs at hpart with hout
    · rcases hroom : a.room with _ | room
      · simp only [hroom, Connection.send] at hpart
        obtain ⟨rfl, rfl⟩ := Prod.mk.inj hpart
        have hloses : e.Loses .send r a := ⟨hout, hroom⟩
        rcases lose_cases h .sendErr a e with hlost | hlost
        · exact .rewound (by decide) hloses (Connection.Waited.refl _) hlost
        · exact .givenUp hloses (Connection.Waited.refl _) hlost fun h => by cases h
      · have heq : (jump, e') = (false, e.sent (min room e.conn.offered.length)) := by
          rw [← hpart]
          simp only [hroom, Connection.send, sent]
          split_ifs <;> simp_all
        obtain ⟨rfl, rfl⟩ := Prod.mk.inj heq
        refine .sent (fun hloses => ?_) hout (min_le_right _ _)
        cases hroom.symm.trans hloses.2
    · obtain ⟨rfl, rfl⟩ := Prod.mk.inj hpart
      exact .idle (fun hloses => hout hloses.1) (fun _ => by simpa using hout) fun h => by cases h
  | recv =>
    obtain ⟨e'', hpart, heq⟩ := Option.map_eq_some_iff.1 hrun
    obtain ⟨rfl, rfl⟩ := Prod.mk.inj heq
    unfold recvPart at hpart
    split_ifs at hpart with hin
    · obtain ⟨hwait, hgot⟩ := Connection.recv_cases false a.bytes e.conn
      rcases hrecv : e.conn.recv false a.bytes with ⟨nRecv, d⟩
      rw [hrecv] at hwait hgot
      simp only [hrecv] at hpart
      split_ifs at hpart with hfail
      · obtain rfl := Option.some.inj hpart
        have hwaited := hwait (.inr hfail)
        have hloses : e.Loses .recv r a := ⟨hin, by rw [hrecv]; exact hfail⟩
        rcases lose_cases (hwaited.socket.liveFd h) .recvErr a e with hlost | hlost
        · exact .rewound (by decide) hloses hwaited hlost
        · exact .givenUp hloses hwaited hlost fun h => by cases h
      · rcases nRecv with _ | bs
        · exact absurd (.inl rfl) hfail
        · have hbs : bs ≠ [] := fun hnil => hfail (.inr (by rw [hnil]))
          obtain ⟨⟨err, d'⟩, hp, rfl⟩ := Option.map_eq_some_iff.1 hpart
          refine .received (fun hloses => hfail ?_) ⟨hin, bs, d, d', hrecv, hbs, hp⟩ hbs
            (hgot bs rfl rfl hbs) hp
          have := hloses.2
          rw [hrecv] at this
          exact this
    · obtain rfl := Option.some.inj hpart
      exact .idle (fun hloses => hin hloses.1) (fun h => by cases h) fun _ => by simpa using hin

end Entry

end Libmc
