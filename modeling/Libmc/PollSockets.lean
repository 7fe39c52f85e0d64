import Libmc.Loading
import Libmc.PollParts

/-!
# The sockets of a pool

A connection is alive as long as it has a descriptor, in every state between commands
(`Reachable.live`) and in the loop. In a slot of the loop the descriptor is negative unless the
connection is alive, so that events come for live connections only (`Tracked`).
-/

namespace Libmc

variable {c c' d : Connection} {p p' : ConnectionPool} {s s' : PollLoop} {ev : Event} {r : Revents}
  {a : Answers} {e e' : Entry} {part : Part} {jump : Bool} {i k n : ℕ} {fd : PollFd} {err : ErrCode}
  {rule : PollLoop → Event → PollLoop → Prop} {rules : Rules}

/-! ### What a part does to the socket -/

namespace Connection

theorem unprocessed_attempt (h : c.traffic.processed = none) (r : Reconnect) :
    (c.attempt r).traffic.processed = none := by
  have hclose : c.close.traffic.processed = none := by
    unfold close
    split_ifs <;> exact h
  unfold attempt connect
  split_ifs
  · cases r.fd with
    | none => exact hclose
    | some fd => rfl
  · exact h

theorem process_eq (h : c.process n = some (err, d)) :
    d = { c with parser := d.parser, traffic := { c.traffic with processed := some err } } := by
  obtain ⟨⟨err', p⟩, -, heq⟩ := Option.map_eq_some_iff.1 h
  obtain ⟨rfl, rfl⟩ := Prod.mk.inj heq
  rfl

/-- A connection that has taken bytes from its socket and parsed them. -/
structure Processed (c : Connection) (bs : Bytes) (err : ErrCode) (d : Connection) : Prop where
  alive_eq : d.alive = c.alive
  socketFd_eq : d.socketFd = c.socketFd
  bufferWriter_eq : d.bufferWriter = c.bufferWriter
  counter_eq : d.counter = c.counter
  traffic_eq : d.traffic =
    { c.traffic with taken := c.traffic.taken ++ bs, processed := some err }

theorem Received.processed {bs : Bytes} (h : Received c bs c') (hp : c'.process n = some (err, d)) :
    Processed c bs err d := by
  rw [process_eq hp]
  exact ⟨h.alive_eq, h.socketFd_eq, h.bufferWriter_eq, h.counter_eq, by rw [h.traffic_eq]⟩

theorem Processed.liveFd {bs : Bytes} (h : Processed c bs err d) (hc : c.LiveFd) : d.LiveFd := by
  unfold LiveFd
  rw [h.alive_eq, h.socketFd_eq]
  exact hc

theorem LiveFd.markDead (h : c.LiveFd) (now : ℤ) : (c.markDead now).LiveFd := by
  rcases markDead_cases h now with ⟨-, hclosed⟩ | ⟨-, hsame⟩
  · exact hclosed.liveFd
  · exact hsame.liveFd h

end Connection

namespace Entry

/-- The connection, its request and its counter after the bytes that are received are parsed. -/
inductive Parsed (a : Answers) (err : ErrCode) (e : Entry) : Entry → Prop
  | done (h : err = .ok) : Parsed a err e
      { e with pollfd := { e.pollfd with in_ := false }, nActiveConn := decr32 e.nActiveConn }
  | failed (h : err = .programmingErr ∨ err = .mcServerErr) : Parsed a err e
      { e.markDeadConn a.deadTime with retCode := err, nActiveConn := decr32 e.nActiveConn }
  | more (hok : err ≠ .ok) (hprog : err ≠ .programmingErr) (hserver : err ≠ .mcServerErr) :
      Parsed a err e e

theorem parsed_cases (err : ErrCode) (a : Answers) (e : Entry) :
    Parsed a err e (parsed err a e) := by
  cases err with
  | ok => exact .done rfl
  | programmingErr => exact .failed (.inl rfl)
  | mcServerErr => exact .failed (.inr rfl)
  | _ => exact .more nofun nofun nofun

theorem conn_parsed {Q : Connection → Prop} {err : ErrCode} (h : Q e.conn)
    (hdead : Q (e.conn.markDead a.deadTime)) : Q (parsed err a e).conn := by
  have hparsed := parsed_cases err a e
  generalize parsed err a e = e' at hparsed ⊢
  cases hparsed with
  | done => exact h
  | failed => exact hdead
  | more => exact h

theorem Effect.live (h : Effect r a e part jump e') (he : e.conn.LiveFd) : e'.conn.LiveFd := by
  cases h with
  | idle => exact he
  | rewound _ _ _ h => exact h.live
  | resumed _ _ h => exact h.live
  | givenUp _ _ h _ => exact h.closed.liveFd
  | peeked _ _ _ hd => exact hd.socket.liveFd he
  | sent => exact he
  | @received bs d d' err _ _ _ hd hp =>
    have hlive := (hd.processed hp).liveFd he
    exact conn_parsed hlive (hlive.markDead _)

end Entry

/-! ### Every connection of a pool -/

namespace ConnectionPool

theorem forall_foldl_modifyConn {α : Type} {Q : Connection → Prop} {f : α → Connection → Connection}
    (idx : α → ℕ) (hf : ∀ a c, Q c → Q (f a c)) (l : List α) (h : ∀ c ∈ p.conns, Q c) :
    ∀ c ∈ (l.foldl (fun p a => p.modifyConn (idx a) (f a)) p).conns, Q c := by
  intro c hc
  obtain ⟨i, hi⟩ := List.mem_iff_getElem?.1 hc
  have hsome := hi
  rw [foldl_modifyConn_conns, Option.map_eq_some_iff] at hsome
  obtain ⟨d, hd, -⟩ := hsome
  obtain ⟨c', hc', hQ⟩ := conn_foldl_modifyConn idx hf l ⟨d, hd, h d (List.mem_of_getElem? hd)⟩
  obtain rfl := Option.some.inj (hi.symm.trans hc')
  exact hQ

end ConnectionPool

/-- A property of connections that no loop takes away. -/
structure Lasting (Q : Connection → Prop) : Prop where
  live : ∀ c, Q c → c.LiveFd
  markDead : ∀ c now, Q c → Q (c.markDead now)
  effect : ∀ {r : Revents} {a : Answers} {e : Entry} {part : Part} {jump : Bool} {e' : Entry},
    Entry.Effect r a e part jump e' → Q e.conn → Q e'.conn

theorem lasting_live : Lasting Connection.LiveFd :=
  ⟨fun _ h => h, fun _ now h => h.markDead now, Entry.Effect.live⟩

namespace PollLoop

theorem mem_of_entry (h : s.entry k = some e) : e.conn ∈ s.pool.conns := by
  obtain ⟨i, -, hc, -⟩ := slot_eq_some (slot_of_entry h)
  exact List.mem_of_getElem? hc

theorem mem_setEntry (h : c ∈ (s.setEntry k e).pool.conns) : c = e.conn ∨ c ∈ s.pool.conns := by
  unfold setEntry at h
  rcases hi : s.connAt k with _ | i
  · rw [hi] at h
    exact .inr h
  · rw [hi] at h
    exact (List.mem_or_eq_of_mem_set h).symm

end PollLoop

namespace Lasting

variable {Q : Connection → Prop}

theorem markDeadAll (hQ : Lasting Q) (pollfds : Option (List PollFd)) (times : ℕ → ℤ)
    (h : ∀ c ∈ p.conns, Q c) : ∀ c ∈ (p.markDeadAll pollfds times).conns, Q c := by
  refine ConnectionPool.forall_foldl_modifyConn Prod.fst (fun x c hc => ?_) _ h
  split_ifs
  · exact hQ.markDead c _ hc
  · exact hc

theorem step (hQ : Lasting Q) (h : PollLoop.Step s ev s') (hs : ∀ c ∈ s.pool.conns, Q c) :
    ∀ c ∈ s'.pool.conns, Q c := by
  cases h with
  | leave => exact hs
  | fail => exact hQ.markDeadAll _ _ hs
  | report => exact hs
  | part _ he _ hrun =>
    intro c hc
    rcases PollLoop.mem_setEntry hc with rfl | hc
    · have hconn := hs _ (PollLoop.mem_of_entry he)
      exact hQ.effect (Entry.run_cases (hQ.live _ hconn) hrun) hconn
    · exact hs c hc
  | nextRound => exact hs

theorem steps (hQ : Lasting Q) (h : PollLoop.Steps rule s s') (hs : ∀ c ∈ s.pool.conns, Q c) :
    ∀ c ∈ s'.pool.conns, Q c := by
  induction h with
  | refl => exact hs
  | tail _ hstep ih =>
    obtain ⟨ev, hstep, -⟩ := hstep
    exact hQ.step hstep ih

theorem waitPoll (hQ : Lasting Q) {code : ErrCode} (h : p.WaitPoll rule code p')
    (hp : ∀ c ∈ p.conns, Q c) : ∀ c ∈ p'.conns, Q c := by
  cases h with
  | idle => exact hp
  | run _ hs _ => exact hQ.steps hs hp

theorem finish (hQ : Lasting Q) (req : Request) (times : ℕ → ℤ) (h : ∀ c ∈ p.conns, Q c) :
    ∀ c ∈ (req.finish times p).conns, Q c := by
  unfold Request.finish
  split
  · split_ifs
    · exact hQ.markDeadAll _ _ h
    · exact h
  · exact h

end Lasting

theorem Request.live_dispatch (hp : ∀ c ∈ p.conns, c.LiveFd) (req : Request) :
    ∀ c ∈ (req.dispatch p).conns, c.LiveFd :=
  req.forall_dispatch (Connection.loadable_socket fun alive fd _ _ => (alive = true ↔ 0 ≤ fd))
    (fun _ r hc => Connection.LiveFd.tryReconnect hc false r) hp

/-- A command leaves every connection alive as long as it has a descriptor. -/
theorem Request.live_command {code : ErrCode} (hp : ∀ c ∈ p.conns, c.LiveFd) (req : Request)
    (hwait : (req.dispatch p).WaitPoll rule code p') (times : ℕ → ℤ) :
    ∀ c ∈ (req.finish times p').reset.conns, c.LiveFd := by
  have hwaited := lasting_live.waitPoll hwait (req.live_dispatch hp)
  have hfinish := lasting_live.finish req times hwaited
  exact ConnectionPool.forall_foldl_modifyConn (f := fun _ => Connection.reset) id
    (fun _ c hc => hc) _ hfinish

/-- **Between commands** a connection is alive as long as it has a descriptor. -/
theorem Reachable.live (h : Reachable rules p) : ∀ c ∈ p.conns, c.LiveFd := by
  induction h with
  | init n =>
    intro c hc
    rw [List.eq_of_mem_replicate hc]
    unfold Connection.LiveFd
    decide
  | config _ retryTimeout maxRetries ih =>
    intro c hc
    obtain ⟨d, hd, rfl⟩ := List.mem_map.1 hc
    exact ih d hd
  | command hp req _ hwait times ih => exact req.live_command ih hwait times

theorem Request.unprocessed_dispatch (hp : ∀ c ∈ p.conns, c.traffic.processed = none)
    (req : Request) : ∀ c ∈ (req.dispatch p).conns, c.traffic.processed = none :=
  req.forall_dispatch (Connection.loadable_socket fun _ _ _ traffic => traffic.processed = none)
    (fun _ r hc => by
      rw [Connection.tryReconnect_false]
      split_ifs
      · exact hc
      · exact Connection.unprocessed_attempt hc r) hp

theorem Reachable.unprocessed (h : Reachable rules p) :
    ∀ c ∈ p.conns, c.traffic.processed = none := by
  induction h with
  | init n =>
    intro c hc
    rw [List.eq_of_mem_replicate hc]
  | config _ retryTimeout maxRetries ih =>
    intro c hc
    obtain ⟨d, hd, rfl⟩ := List.mem_map.1 hc
    exact ih d hd
  | @command p p' code hp req _ hwait times ih =>
    have hframe := hwait.frame.trans (req.finish_frame times p')
    intro c hc
    rcases ConnectionPool.reset_cases hc with ⟨i, hi, hc⟩ | ⟨i, -, d, -, rfl⟩
    · rw [hframe.activeConns] at hi
      rw [hframe.conns i hi] at hc
      exact req.unprocessed_dispatch ih c (List.mem_of_getElem? hc)
    · rfl

/-! ### The connections of a loop -/

/-- A connection and its descriptor in the loop. -/
structure Tracked (c : Connection) (fd : PollFd) : Prop where
  live : c.LiveFd
  wf : c.bufferWriter.Wf
  fd_alive : 0 ≤ fd.fd → c.alive = true

def Revents.Some (r : Revents) : Prop := r.err ∨ r.out ∨ r.in_

theorem Tracked.alive (h : Tracked c fd) (hr : fd.Reports r) (hsome : r.Some) : c.alive = true :=
  h.fd_alive (hr.2.2 hsome)

namespace Entry

/-- A part that does not jump leaves the connection alive. -/
theorem Effect.alive_eq (h : Effect r a e part false e') : e'.conn.alive = e.conn.alive := by
  cases h with
  | idle => rfl
  | peeked _ _ _ hd => exact hd.socket.alive_eq
  | sent => rfl

theorem Effect.tracked (h : Effect r a e part jump e') (he : Tracked e.conn e.pollfd) :
    Tracked e'.conn e'.pollfd := by
  refine ⟨h.live he.live, ?_, ?_⟩
  · have hwaited : ∀ {d}, Connection.Waited e.conn d → d.bufferWriter.Wf := fun hd => by
      rw [hd.bufferWriter_eq]
      exact he.wf
    cases h with
    | idle => exact he.wf
    | rewound _ _ hd h =>
      rw [h.bufferWriter_eq]
      exact (hwaited hd).rewind.1
    | resumed _ hd h =>
      rw [h.work.bufferWriter_eq]
      exact hwaited hd
    | givenUp _ hd h _ =>
      rw [h.work.bufferWriter_eq]
      exact hwaited hd
    | peeked _ _ _ hd => exact hwaited hd
    | sent _ _ hn => exact (he.wf.commitRead (hn.trans (Connection.offered_prefix _).length_le)).1
    | @received bs d d' err _ _ _ hd hp =>
      have hwf : d'.bufferWriter.Wf := by
        rw [(hd.processed hp).bufferWriter_eq]
        exact he.wf
      refine conn_parsed (Q := fun c => c.bufferWriter.Wf) hwf ?_
      rw [(Connection.sameWork_markDead _ _).bufferWriter_eq]
      exact hwf
  · have hlive := h.live he.live
    cases h with
    | idle => exact he.fd_alive
    | rewound _ _ _ h => exact fun _ => h.alive_eq
    | resumed _ _ h => exact fun _ => h.alive_eq
    | givenUp _ _ h _ =>
      obtain ⟨fd, hneg, hfd⟩ := h.pollfd_eq
      rw [hfd]
      exact fun hpos => absurd hpos hneg.not_ge
    | peeked _ _ _ hd =>
      rw [hd.socket.alive_eq]
      exact he.fd_alive
    | sent => exact he.fd_alive
    | @received bs d d' err _ _ _ hd hp =>
      have halive := (hd.processed hp).alive_eq
      have hparsed := parsed_cases err a { e with conn := d' }
      generalize parsed err a { e with conn := d' } = e'' at hparsed hlive ⊢
      cases hparsed with
      | done =>
        rw [halive]
        exact he.fd_alive
      | failed => exact hlive.2
      | more =>
        rw [halive]
        exact he.fd_alive

end Entry

theorem Request.slot_dispatch (hp : Reachable rules p) (req : Request)
    (h : (req.dispatch p).startPoll.slot k = some (c, fd)) :
    fd = ⟨c.socketFd, true, true⟩ ∧ Tracked c fd ∧ c.bufferWriter.msgIovlen ≠ 0 ∧
      c.bufferWriter.unread = c.bufferWriter.request := by
  obtain ⟨⟨i, hi, hc⟩, rfl⟩ := SlotInvariant.slot_startPoll h
  have hlive := req.live_dispatch hp.live c (List.mem_of_getElem? hc)
  have hlt : i < p.conns.length := by
    rw [← req.dispatch_length p]
    exact (List.getElem?_eq_some_iff.1 hc).1
  obtain ⟨d, hd, hdis, hactive⟩ := req.dispatches hp.clean (List.getElem?_eq_getElem hlt)
  obtain rfl := Option.some.inj (hc.symm.trans hd)
  have hpos : 0 < c.bufferWriter.iovec.length := by
    have hne := hactive.1 (List.mem_of_getElem? hi)
    rw [List.length_pos_iff]
    intro hnil
    have hflat := hdis.loaded.flatten_eq
    rw [hnil] at hflat
    obtain ⟨cmd, hcmd⟩ := List.exists_mem_of_ne_nil _ hne
    have hbytes := List.flatMap_eq_nil_iff.1 hflat.symm cmd hcmd
    simp [Command.bytes, crlf] at hbytes
  have hwf := hdis.loaded.wf hpos
  refine ⟨rfl, ⟨hlive, hwf, hlive.2⟩, hwf.msgIovlen_pos hdis.loaded.readIdx_eq, ?_⟩
  rw [hdis.loaded.unread_eq, hdis.loaded.request_eq]

end Libmc
