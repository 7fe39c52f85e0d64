import Mathlib.Data.Finset.Basic
import Libmc.Connection
import Libmc.Support.Run

/-!
# The descriptors of a connection

`connect` with its system calls, as the release build runs it. `fds` records the descriptors that a
connection has opened and not closed; the code does not read it. They are the socket of the connection
while it is alive, and none otherwise, exactly as long as no connection over a unix socket fails in
`connectPoll`, which does not close the descriptor, and none succeeds while the descriptor is 0, which
`close` leaves open (`connection_fds_iff`). A connection behaves as without its descriptors
(`tryReconnect_conn`).
-/

namespace Libmc

/-! ### System calls -/

/-- What `poll` returns: 1, with an error in `revents` or without one, -1, or anything else. -/
inductive PollRv
  | ready (failed : Bool)
  | error
  | timeout
  deriving DecidableEq, Repr

/-- What `::connect` returns: 0, or -1 with an `errno` that is `EINPROGRESS` or `EALREADY`, or another
one. `polls n` is the result of `poll` when `max_timeout` is `n + 1`. -/
inductive ConnectRv
  | connected
  | inProgress (polls : ℕ → PollRv)
  | error

/-- The loop of `connectPoll`, with one more than the calls of `poll` that are left. -/
def pollLoop (polls : ℕ → PollRv) : ℕ → Bool
  | 0 => false
  | n + 1 =>
    match polls n with
    | .ready failed => !failed
    | .error => false
    | .timeout => pollLoop polls n

/-- `Connection::connectPoll`; it says whether it returns 0. -/
def connectPoll : ConnectRv → Bool
  | .connected => true
  | .inProgress polls => pollLoop polls 5
  | .error => false

/-- The system calls for one socket: the descriptor, whether `O_NONBLOCK` is set already, and whether
each of the others succeeds. -/
structure SocketCalls where
  socket : Option ℕ
  getFlags : Option Bool
  setNonblock : Bool
  noDelay : Bool
  keepAlive : Bool
  connect : ConnectRv

namespace SocketCalls

/-- Nothing goes to `try_next_ai`. -/
def ready (w : SocketCalls) : Bool :=
  w.getFlags.any (fun nonblock => nonblock || w.setNonblock) && w.noDelay && w.keepAlive &&
    connectPoll w.connect

/-- `unixSocketConnect` sets `O_NONBLOCK`. -/
def nonblocking (w : SocketCalls) : Bool := w.getFlags.isSome && w.setNonblock

/-- The descriptor that is kept for an address. -/
def fd (w : SocketCalls) : Option ℕ := if w.ready then w.socket else none

def unixFd (w : SocketCalls) : Option ℕ :=
  if w.nonblocking && connectPoll w.connect then w.socket else none

/-- The descriptor that is neither kept nor closed. -/
def unixLost (w : SocketCalls) : Option ℕ :=
  if w.nonblocking && !connectPoll w.connect then w.socket else none

theorem socket_of_fd {w : SocketCalls} {d : ℕ} (h : w.fd = some d) : w.socket = some d := by
  unfold fd at h
  split_ifs at h
  exact h

theorem socket_of_unixFd {w : SocketCalls} {d : ℕ} (h : w.unixFd = some d) : w.socket = some d := by
  unfold unixFd at h
  split_ifs at h
  exact h

theorem socket_of_unixLost {w : SocketCalls} {d : ℕ} (h : w.unixLost = some d) :
    w.socket = some d ∧ w.unixFd = none := by
  unfold unixLost at h
  split_ifs at h with hlost
  refine ⟨h, if_neg ?_⟩
  rw [Bool.and_eq_true, Bool.not_eq_true'] at hlost
  rw [hlost.2, Bool.and_false]
  exact Bool.false_ne_true

end SocketCalls

/-- The system calls of `connect`; no addresses if `getaddrinfo` fails. -/
structure ConnectCalls where
  addresses : Option (List SocketCalls)
  unix : SocketCalls

/-- The descriptor of the connection that is established. -/
def ConnectCalls.fd (w : ConnectCalls) (unixSocket : Bool) : Option ℕ :=
  if unixSocket then w.unix.unixFd else w.addresses.bind fun l => l.findSome? (·.fd)

/-! ### Connections -/

/-- A `Connection` with the descriptors that it has opened and not closed. -/
structure ConnectionFds where
  conn : Connection := {}
  unixSocket : Bool := false
  fds : Finset ℤ := ∅

namespace ConnectionFds

/-- `socket` returns a descriptor. -/
def opened (fd : ℕ) (s : ConnectionFds) : ConnectionFds := { s with fds := insert (fd : ℤ) s.fds }

/-- `::close`. -/
def closed (fd : ℤ) (s : ConnectionFds) : ConnectionFds := { s with fds := s.fds.erase fd }

/-- `Connection::close`. -/
def close (s : ConnectionFds) : ConnectionFds :=
  if 0 < s.conn.socketFd then
    { s.closed s.conn.socketFd with conn := { s.conn with alive := false, socketFd := -1 } }
  else s

def established (fd : ℕ) (s : ConnectionFds) : ConnectionFds :=
  { s with
    conn := { s.conn with
      socketFd := fd
      alive := true
      traffic := { socket := s.conn.traffic.socket + 1 } } }

/-- The loop of `connect` over the addresses. -/
def tcpConnect : List SocketCalls → ConnectionFds → ConnectionFds
  | [], s => s
  | w :: rest, s =>
    match w.socket with
    | none => tcpConnect rest s
    | some fd =>
      if w.ready then (s.opened fd).established fd
      else tcpConnect rest ((s.opened fd).closed fd)

/-- `Connection::unixSocketConnect`. -/
def unixSocketConnect (w : SocketCalls) (s : ConnectionFds) : Bool × ConnectionFds :=
  match w.socket with
  | none => (false, s)
  | some fd =>
    if w.nonblocking then
      if connectPoll w.connect then (true, (s.opened fd).established fd)
      -- here `fd` stays open
      else (false, s.opened fd)
    else (false, (s.opened fd).closed fd)

/-- `Connection::connect`; it says whether it returns 0. -/
def connect (w : ConnectCalls) (s : ConnectionFds) : Bool × ConnectionFds :=
  let s := s.close
  if s.unixSocket then s.unixSocketConnect w.unix
  else
    match w.addresses with
    | none => (false, s)
    | some addresses =>
      let s := tcpConnect addresses s
      (s.conn.alive, s)

/-- The part of `tryReconnect` after the check of the retries. -/
def attempt (now : ℤ) (w : ConnectCalls) (s : ConnectionFds) : ConnectionFds :=
  if s.conn.deadUntil ≤ now then
    match s.connect w with
    | (true, s) => { s with conn := { s.conn with deadUntil := 0 } }
    | (false, s) => { s with conn := { s.conn with deadUntil := now + s.conn.retryTimeout } }
  else s

/-- `Connection::tryReconnect`. -/
def tryReconnect (checkRetries : Bool) (now : ℤ) (w : ConnectCalls) (s : ConnectionFds) :
    ConnectionFds :=
  if s.conn.alive then s
  else if checkRetries then
    let s := { s with conn := { s.conn with retires := s.conn.retires + 1 } }
    if s.conn.maxRetries < s.conn.retires then s else s.attempt now w
  else s.attempt now w

/-- `Connection::markDead`. -/
def markDead (now delay : ℤ) (s : ConnectionFds) : ConnectionFds :=
  if s.conn.alive then close { s with conn := { s.conn with deadUntil := now + delay } } else s

end ConnectionFds

inductive SocketEvent
  | connect (w : ConnectCalls)
  | tryReconnect (checkRetries : Bool) (now : ℤ) (w : ConnectCalls)
  | markDead (now delay : ℤ)
  | close

namespace ConnectionFds

def exec (s : ConnectionFds) : SocketEvent → ConnectionFds
  | .connect w => (s.connect w).2
  | .tryReconnect checkRetries now w => s.tryReconnect checkRetries now w
  | .markDead now delay => s.markDead now delay
  | .close => s.close

/-- What `socket` returns is not open. -/
def Fresh (s : ConnectionFds) (w : ConnectCalls) : Prop :=
  (∀ fd ∈ w.unix.socket, (fd : ℤ) ∉ s.close.fds) ∧
    ∀ l ∈ w.addresses, ∀ x ∈ l, ∀ fd ∈ x.socket, (fd : ℤ) ∉ s.close.fds

inductive Step : ConnectionFds → SocketEvent → ConnectionFds → Prop
  | connect (s : ConnectionFds) (w : ConnectCalls) (h : s.Fresh w) :
      Step s (.connect w) (s.exec (.connect w))
  | tryReconnect (s : ConnectionFds) (checkRetries : Bool) (now : ℤ) (w : ConnectCalls)
      (h : s.Fresh w) :
      Step s (.tryReconnect checkRetries now w) (s.exec (.tryReconnect checkRetries now w))
  | markDead (s : ConnectionFds) (now delay : ℤ) :
      Step s (.markDead now delay) (s.exec (.markDead now delay))
  | close (s : ConnectionFds) : Step s .close (s.exec .close)

variable {s s' : ConnectionFds} {w : ConnectCalls} {x : SocketCalls} {l : List SocketCalls} {fd : ℕ}
  {ev : SocketEvent} {tr : List (Transition ConnectionFds SocketEvent)}

/-! ### What an attempt to connect does -/

theorem closed_opened (h : (fd : ℤ) ∉ s.fds) : (s.opened fd).closed fd = s := by
  unfold closed opened
  rw [Finset.erase_insert h]

theorem tcpConnect_eq (h : ∀ x ∈ l, ∀ fd ∈ x.socket, (fd : ℤ) ∉ s.fds) :
    tcpConnect l s = (l.findSome? (·.fd)).elim s fun fd => (s.opened fd).established fd := by
  induction l with
  | nil => rfl
  | cons x rest ih =>
    obtain ⟨hx, hrest⟩ := List.forall_mem_cons.1 h
    unfold tcpConnect
    rw [List.findSome?_cons, SocketCalls.fd]
    cases hsocket : x.socket with
    | none =>
      rw [ite_self]
      exact ih hrest
    | some fd =>
      cases x.ready with
      | true => rfl
      | false => exact (congrArg _ (closed_opened (hx fd hsocket))).trans (ih hrest)

/-- A connection is alive after `close` if its descriptor is not positive. -/
theorem alive_close (s : ConnectionFds) :
    s.close.conn.alive = true ↔ s.conn.alive = true ∧ s.conn.socketFd ≤ 0 := by
  unfold close
  split
  · next h => simp [h]
  · next h => simp [not_lt.1 h]

theorem alive_close_of_dead (h : s.conn.alive = false) : s.close.conn.alive = false := by
  rw [← Bool.not_eq_true, alive_close, h]
  exact fun hboth => Bool.false_ne_true hboth.1

theorem unixSocket_close (s : ConnectionFds) : s.close.unixSocket = s.unixSocket := by
  unfold close
  split
  · rfl
  · rfl

/-- `connect` to addresses; there are none if `getaddrinfo` fails. -/
theorem connect_tcp (hunix : s.unixSocket = false) (hfresh : s.Fresh w) :
    (s.connect w).2 = (w.fd false).elim s.close (fun fd => (s.close.opened fd).established fd) ∧
      (s.conn.alive = false → (s.connect w).1 = (w.fd false).isSome) := by
  unfold connect ConnectCalls.fd
  dsimp only
  rw [unixSocket_close, hunix]
  cases haddresses : w.addresses with
  | none => exact ⟨rfl, fun _ => rfl⟩
  | some l =>
    have heq := tcpConnect_eq (hfresh.2 l haddresses)
    refine ⟨heq, fun hdead => ?_⟩
    show (tcpConnect l s.close).conn.alive = (l.findSome? (·.fd)).isSome
    rw [heq]
    cases l.findSome? (·.fd) with
    | none => exact alive_close_of_dead hdead
    | some fd => rfl

theorem connect_unix (hunix : s.unixSocket = true) (w : ConnectCalls) :
    s.connect w = s.close.unixSocketConnect w.unix := by
  unfold connect
  dsimp only
  rw [unixSocket_close, hunix]
  rfl

theorem unixSocketConnect_eq (h : ∀ fd ∈ x.socket, (fd : ℤ) ∉ s.fds) :
    s.unixSocketConnect x = (x.unixFd.isSome,
      x.unixFd.elim (x.unixLost.elim s fun fd => s.opened fd) fun fd =>
        (s.opened fd).established fd) := by
  unfold unixSocketConnect SocketCalls.unixFd SocketCalls.unixLost
  cases hsocket : x.socket with
  | none =>
    rw [ite_self, ite_self]
    rfl
  | some fd =>
    cases x.nonblocking with
    | false => exact congrArg (Prod.mk false) (closed_opened (h fd hsocket))
    | true =>
      cases connectPoll x.connect with
      | true => rfl
      | false => rfl

/-! ### The descriptors -/

/-- The socket is open and nothing else, if the connection is alive; otherwise nothing is open. -/
def Owns (s : ConnectionFds) : Prop :=
  s.fds = if s.conn.alive = true then {s.conn.socketFd} else ∅

theorem Owns.close (h : s.Owns) : s.close.Owns := by
  unfold ConnectionFds.close
  split
  · show s.fds.erase s.conn.socketFd = ∅
    rw [h]
    split
    · exact Finset.erase_singleton _
    · exact Finset.erase_empty _
  · exact h

theorem owns_established (h : s.Owns) (hfresh : (fd : ℤ) ∉ s.fds) :
    ((s.opened fd).established fd).Owns ↔ s.conn.alive = false := by
  show insert (fd : ℤ) s.fds = {(fd : ℤ)} ↔ _
  cases halive : s.conn.alive with
  | true =>
    unfold Owns at h
    rw [if_pos halive] at h
    refine iff_of_false (fun heq => ?_) nofun
    have hmem : s.conn.socketFd ∈ insert (fd : ℤ) s.fds :=
      Finset.mem_insert_of_mem (by rw [h]; exact Finset.mem_singleton_self _)
    rw [heq, Finset.mem_singleton] at hmem
    rw [h, Finset.mem_singleton] at hfresh
    exact hfresh hmem.symm
  | false =>
    unfold Owns at h
    rw [if_neg (by simp [halive])] at h
    refine iff_of_true ?_ rfl
    rw [h]
    rfl

theorem not_owns_opened (h : s.Owns) (hfresh : (fd : ℤ) ∉ s.fds) : ¬ (s.opened fd).Owns := by
  intro howns
  have heq : insert (fd : ℤ) s.fds = s.fds := howns.trans h.symm
  exact hfresh (Finset.insert_eq_self.1 heq)

/-- An attempt loses no descriptor: `unixSocketConnect` does not, and a connection is not established
while the last one is still alive, which is so for descriptor 0. -/
def Keeps (s : ConnectionFds) (w : ConnectCalls) : Prop :=
  (s.unixSocket = true → w.unix.unixLost = none) ∧
    (s.conn.alive = true ∧ s.conn.socketFd ≤ 0 → w.fd s.unixSocket = none)

theorem exists_of_fd (h : w.fd false = some fd) : ∃ l ∈ w.addresses, ∃ x ∈ l, x.socket = some fd := by
  obtain ⟨l, hl, hfind⟩ := Option.bind_eq_some_iff.1 h
  obtain ⟨x, hx, hfd⟩ := List.exists_of_findSome?_eq_some hfind
  exact ⟨l, hl, x, hx, SocketCalls.socket_of_fd hfd⟩

theorem owns_connect (h : s.Owns) (hfresh : s.Fresh w) : (s.connect w).2.Owns ↔ s.Keeps w := by
  have hestablished : ∀ fd : ℕ, (fd : ℤ) ∉ s.close.fds → (((s.close.opened fd).established fd).Owns ↔
      ¬ (s.conn.alive = true ∧ s.conn.socketFd ≤ 0)) := fun fd hfd => by
    rw [owns_established h.close hfd, ← alive_close, Bool.not_eq_true]
  unfold Keeps
  cases hunix : s.unixSocket with
  | false =>
    rw [(connect_tcp hunix hfresh).1, and_iff_right (by simp)]
    cases hfd : w.fd false with
    | none => exact iff_of_true h.close fun _ => rfl
    | some fd =>
      obtain ⟨l, hl, x, hx, hsocket⟩ := exists_of_fd hfd
      rw [Option.elim_some, hestablished fd (hfresh.2 l hl x hx fd hsocket)]
      simp
  | true =>
    have hfd : w.fd true = w.unix.unixFd := rfl
    rw [connect_unix hunix, unixSocketConnect_eq hfresh.1, hfd]
    cases hlost : w.unix.unixLost with
    | some fd =>
      obtain ⟨hsocket, hnone⟩ := SocketCalls.socket_of_unixLost hlost
      rw [hnone]
      exact iff_of_false (not_owns_opened h.close (hfresh.1 fd hsocket)) (by simp)
    | none =>
      rw [and_iff_right fun _ => rfl]
      cases hfd : w.unix.unixFd with
      | none => exact iff_of_true h.close fun _ => rfl
      | some fd =>
        rw [Option.elim_some, hestablished fd (hfresh.1 fd (SocketCalls.socket_of_unixFd hfd))]
        simp

/-- `tryReconnect` makes an attempt. -/
def Attempts (s : ConnectionFds) (checkRetries : Bool) (now : ℤ) : Prop :=
  s.conn.alive = false ∧ (checkRetries = true → s.conn.retires + 1 ≤ s.conn.maxRetries) ∧
    s.conn.deadUntil ≤ now

/-- A call loses no descriptor. -/
def KeepsIn (s : ConnectionFds) : SocketEvent → Prop
  | .connect w => s.Keeps w
  | .tryReconnect checkRetries now w => s.Attempts checkRetries now → s.Keeps w
  | _ => True

theorem owns_of_eq (hfds : s'.fds = s.fds) (halive : s'.conn.alive = s.conn.alive)
    (hsocket : s'.conn.socketFd = s.conn.socketFd) : s'.Owns ↔ s.Owns := by
  unfold Owns
  rw [hfds, halive, hsocket]

theorem owns_attempt (h : s.Owns) (hfresh : s.Fresh w) (now : ℤ) :
    (s.attempt now w).Owns ↔ (s.conn.deadUntil ≤ now → s.Keeps w) := by
  unfold attempt
  by_cases hnow : s.conn.deadUntil ≤ now
  · rw [if_pos hnow, imp_iff_right hnow, ← owns_connect h hfresh]
    split
    · next heq =>
      rw [heq]
      exact owns_of_eq rfl rfl rfl
    · next heq =>
      rw [heq]
      exact owns_of_eq rfl rfl rfl
  · rw [if_neg hnow]
    exact iff_of_true h fun hle => absurd hle hnow

theorem fds_close (s : ConnectionFds) :
    s.close.fds = if 0 < s.conn.socketFd then s.fds.erase s.conn.socketFd else s.fds := by
  unfold ConnectionFds.close
  split
  · rfl
  · rfl

theorem fresh_of_eq (hfds : s'.fds = s.fds) (hsocket : s'.conn.socketFd = s.conn.socketFd)
    (h : s.Fresh w) : s'.Fresh w := by
  unfold Fresh at *
  rw [fds_close, hfds, hsocket, ← fds_close]
  exact h

theorem owns_tryReconnect (h : s.Owns) (hfresh : s.Fresh w) (checkRetries : Bool) (now : ℤ) :
    (s.tryReconnect checkRetries now w).Owns ↔ (s.Attempts checkRetries now → s.Keeps w) := by
  unfold tryReconnect Attempts
  cases halive : s.conn.alive with
  | true => exact iff_of_true h nofun
  | false =>
    rw [if_neg Bool.false_ne_true]
    cases checkRetries with
    | false =>
      rw [if_neg Bool.false_ne_true, owns_attempt h hfresh now]
      exact ⟨fun hkeeps hall => hkeeps hall.2.2, fun hkeeps hnow => hkeeps ⟨rfl, nofun, hnow⟩⟩
    | true =>
      rw [if_pos rfl]
      dsimp only
      by_cases hretries : s.conn.maxRetries < s.conn.retires + 1
      · rw [if_pos hretries]
        exact iff_of_true h fun hall => absurd (hall.2.1 rfl) (not_le.2 hretries)
      · rw [if_neg hretries]
        refine (owns_attempt (s := { s with conn := { s.conn with retires := s.conn.retires + 1 } })
          h (fresh_of_eq (s := s) rfl rfl hfresh) now).trans ?_
        exact ⟨fun hkeeps hall => hkeeps hall.2.2,
          fun hkeeps hnow => hkeeps ⟨rfl, fun _ => not_lt.1 hretries, hnow⟩⟩

theorem owns_step (h : s.Owns) (hstep : Step s ev s') : s'.Owns ↔ s.KeepsIn ev := by
  cases hstep with
  | connect w hfresh => exact owns_connect h hfresh
  | tryReconnect checkRetries now w hfresh => exact owns_tryReconnect h hfresh checkRetries now
  | markDead now delay =>
    refine iff_of_true ?_ trivial
    show (s.markDead now delay).Owns
    unfold markDead
    split
    · exact Owns.close h
    · exact h
  | close => exact iff_of_true h.close trivial

/-- **The descriptors of a connection.** In a run of calls of a connection that starts dead, the
descriptors that are opened and not closed are the socket of the connection while it is alive, and none
otherwise, exactly if no call loses one. -/
theorem connection_fds_iff {c : Connection} {unixSocket : Bool} (hdead : c.alive = false)
    (h : Run Step { conn := c, unixSocket } tr s) :
    (∀ t ∈ tr, t.after.Owns) ↔ ∀ t ∈ tr, t.before.KeepsIn t.event := by
  have hstart : Owns { conn := c, unixSocket } := by
    unfold Owns
    rw [hdead]
    rfl
  refine h.forall_iff (I := Owns) (P := fun t => t.after.Owns) hstart ?_ ?_
  · intro s ev s' hs hstep hkeeps
    have howns := (owns_step hs hstep).2 hkeeps
    exact ⟨howns, howns⟩
  · intro s ev s' hs hstep hnot howns
    exact hnot ((owns_step hs hstep).1 howns)

/-- A connection over TCP, where two addresses fail before the third one is used. -/
theorem connection_fds_third : ∃ s : ConnectionFds, s.conn.alive = true ∧ s.Owns := by
  have hrun : Run Step { conn := {}, unixSocket := false } _ _ := .snoc .nil (.connect _
    ⟨some [⟨none, none, false, false, false, .error⟩, ⟨some 3, some false, true, true, true, .error⟩,
      ⟨some 3, some false, true, true, true, .inProgress fun _ => .ready false⟩],
      ⟨none, none, false, false, false, .error⟩⟩ (by simp [Fresh, ConnectionFds.close]))
  refine ⟨_, ?_, (connection_fds_iff rfl hrun).2 (fun t ht => ?_) _ (List.mem_singleton_self _)⟩
  · rfl
  · rw [List.mem_singleton.1 ht]
    exact ⟨nofun, nofun⟩

/-- Nobody listens on a unix socket: the descriptor of the attempt stays open. -/
theorem connection_fds_lost : ¬ ∀ (c : Connection) (unixSocket : Bool)
    (tr : List (Transition ConnectionFds SocketEvent)) (s : ConnectionFds), c.alive = false →
      Run Step { conn := c, unixSocket } tr s → ∀ t ∈ tr, t.after.Owns := by
  intro h
  have hrun : Run Step { conn := {}, unixSocket := true } _ _ := .snoc .nil (.connect _
    ⟨none, ⟨some 3, some false, true, true, true, .error⟩⟩ (by simp [Fresh, ConnectionFds.close]))
  have howns := h _ _ _ _ rfl hrun _ (List.mem_singleton_self _)
  have hmem : (3 : ℤ) ∈ (∅ : Finset ℤ) := by
    rw [← show _ = (∅ : Finset ℤ) from howns]
    exact Finset.mem_insert_self _ _
  exact absurd hmem (Finset.notMem_empty _)

/-! ### The connection without its descriptors -/

theorem close_conn (s : ConnectionFds) : s.close.conn = s.conn.close := by
  unfold ConnectionFds.close Connection.close
  split
  · rfl
  · rfl

theorem connect_conn (hdead : s.conn.alive = false) (hfresh : s.Fresh w) (now : ℤ) :
    ((s.connect w).1, (s.connect w).2.conn) = s.conn.connect ⟨now, w.fd s.unixSocket⟩ := by
  have hpair : ∀ (o : Option ℕ) (t : ConnectionFds), t.conn = s.conn.close →
      (o.isSome, (o.elim t fun fd => (s.close.opened fd).established fd).conn) =
        s.conn.connect ⟨now, o⟩ := by
    intro o t ht
    unfold Connection.connect
    cases o with
    | none => exact congrArg (Prod.mk false) ht
    | some fd =>
      have htraffic : s.conn.close.traffic = s.conn.traffic := by
        unfold Connection.close
        split
        · rfl
        · rfl
      show (true, ({ s.close.conn with
        socketFd := fd, alive := true, traffic := { socket := s.close.conn.traffic.socket + 1 } } :
          Connection)) = _
      rw [close_conn, htraffic]
  cases hunix : s.unixSocket with
  | false =>
    rw [(connect_tcp hunix hfresh).2 hdead, (connect_tcp hunix hfresh).1]
    exact hpair _ _ (close_conn s)
  | true =>
    rw [connect_unix hunix, unixSocketConnect_eq hfresh.1]
    refine hpair _ _ ?_
    cases w.unix.unixLost with
    | none => exact close_conn s
    | some fd => exact close_conn s

theorem attempt_conn (hdead : s.conn.alive = false) (hfresh : s.Fresh w) (now : ℤ) :
    (s.attempt now w).conn = s.conn.attempt ⟨now, w.fd s.unixSocket⟩ := by
  unfold attempt Connection.attempt
  rw [← connect_conn hdead hfresh]
  dsimp only
  split
  · cases hresult : s.connect w with
    | mk done t =>
      cases done with
      | true => rfl
      | false => rfl
  · rfl

theorem tryReconnect_conn (hfresh : s.Fresh w) (checkRetries : Bool) (now : ℤ) :
    (s.tryReconnect checkRetries now w).conn =
      s.conn.tryReconnect checkRetries ⟨now, w.fd s.unixSocket⟩ := by
  unfold tryReconnect Connection.tryReconnect
  by_cases halive : s.conn.alive = true
  · rw [if_pos halive, if_pos halive]
  · have hdead : s.conn.alive = false := by simpa using halive
    rw [if_neg halive, if_neg halive]
    cases checkRetries with
    | false => exact attempt_conn hdead hfresh now
    | true =>
      rw [if_pos rfl, if_pos rfl]
      dsimp only
      split
      · rfl
      · exact attempt_conn (s := { s with conn := { s.conn with retires := s.conn.retires + 1 } })
          hdead (fresh_of_eq (s := s) rfl rfl hfresh) now

theorem markDead_conn (s : ConnectionFds) (now : ℤ) :
    (s.markDead now 0).conn = s.conn.markDead now := by
  unfold markDead Connection.markDead
  rw [add_zero]
  split
  · exact close_conn _
  · rfl

end ConnectionFds

end Libmc
