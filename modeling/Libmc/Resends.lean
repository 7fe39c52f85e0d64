import Libmc.PollSent
import Libmc.ReplacedServers

/-!
# Requests that are sent again

During a command a connection that was marked dead is brought back by `tryReconnect(true)` at most
`m_maxRetries` times, and each time `waitPoll` rewinds its request. But `close` closes positive
descriptors only: a connection with the descriptor 0 is still alive after `markDead`, and then
`tryReconnect(true)` does not count. So the bound holds exactly as long as no such connection is
marked dead (`resends_bounded_iff`).

1. The calls on one connection: what is counted is a `Tally` over the steps of a run, and the
   counter of the connection keeps up with it (`Spent`).
2. The calls of `waitPoll` on a connection, read off its parts (`Entry.calls`): carried out in order
   they are what the loop does to it (`PollLoop.calls_run`).
3. In the loop each rewind follows a call of `tryReconnect(true)` that is counted (`Carries`).
4. No retry has been counted when a command is dispatched (`Client.Reachable.retires`).
-/

namespace Libmc

variable {c c' d : Connection}

/-! ### One connection -/

namespace Connection

/-- The counter of the retries and its bound are as before. -/
structure SameRetries (c c' : Connection) : Prop where
  retires_eq : c'.retires = c.retires
  maxRetries_eq : c'.maxRetries = c.maxRetries

theorem sameRetries_close (c : Connection) : SameRetries c c.close := by
  unfold close
  split_ifs <;> exact ⟨rfl, rfl⟩

theorem sameRetries_markDead (now : ℤ) (c : Connection) : SameRetries c (c.markDead now) := by
  unfold markDead
  split_ifs
  · obtain ⟨hretires, hmax⟩ := sameRetries_close { c with deadUntil := now }
    exact ⟨hretires, hmax⟩
  · exact ⟨rfl, rfl⟩

theorem sameRetries_attempt (r : Reconnect) (c : Connection) : SameRetries c (c.attempt r) := by
  obtain ⟨hretires, hmax⟩ := sameRetries_close c
  unfold attempt connect
  split_ifs
  · cases r.fd with
    | none => exact ⟨hretires, hmax⟩
    | some fd => exact ⟨hretires, hmax⟩
  · exact ⟨rfl, rfl⟩

theorem dead_markDead_iff (c : Connection) (now : ℤ) :
    (c.markDead now).alive = false ↔ (c.alive = true → 0 < c.socketFd) := by
  unfold markDead close
  by_cases halive : c.alive = true
  · rw [if_pos halive]
    by_cases hfd : 0 < c.socketFd
    · rw [if_pos hfd]
      exact iff_of_true rfl fun _ => hfd
    · rw [if_neg hfd]
      exact iff_of_false (fun hdead => Bool.noConfusion (halive.symm.trans hdead))
        fun h => hfd (h halive)
  · rw [if_neg halive]
    exact iff_of_true (by simpa using halive) fun h => absurd h halive

/-- What trying again does to the counter of a connection that is dead: an attempt that is to be
checked is counted, and is made if the bound is not exceeded. -/
theorem retires_tryReconnect (h : c.alive = false) (checkRetries : Bool) (r : Reconnect) :
    (c.tryReconnect checkRetries r).retires = c.retires + (if checkRetries then 1 else 0) ∧
      (c.tryReconnect checkRetries r).maxRetries = c.maxRetries ∧
        (checkRetries = true → (c.tryReconnect checkRetries r).alive = true →
          c.retires + 1 ≤ c.maxRetries) := by
  unfold tryReconnect
  rw [if_neg (by simp [h])]
  cases checkRetries with
  | false =>
    obtain ⟨hretires, hmax⟩ := sameRetries_attempt r c
    exact ⟨by simpa using hretires, hmax, nofun⟩
  | true =>
    simp only [↓reduceIte]
    split_ifs with hexceeded
    · exact ⟨rfl, rfl, fun _ halive => Bool.noConfusion (halive.symm.trans h)⟩
    · obtain ⟨hretires, hmax⟩ := sameRetries_attempt r { c with retires := c.retires + 1 }
      exact ⟨hretires, hmax, fun _ _ => by omega⟩

/-! ### The calls on a connection -/

/-- The calls on a connection during a command. `work` is sending, receiving or parsing, and gives
the connection after it. -/
inductive Call
  | markDead (now : ℤ)
  | tryReconnect (checkRetries : Bool) (r : Reconnect)
  | rewind
  | work (c : Connection)

/-- A call of `rewind`. -/
def Call.isRewind : Call → Bool
  | .rewind => true
  | _ => false

def exec (c : Connection) : Call → Connection
  | .markDead now => c.markDead now
  | .tryReconnect checkRetries r => c.tryReconnect checkRetries r
  | .rewind => c.rewind
  | .work d => d

/-- Sending, receiving and parsing leave the socket and the retries alone. -/
structure Working (c d : Connection) : Prop where
  alive_eq : d.alive = c.alive
  socketFd_eq : d.socketFd = c.socketFd
  retries : SameRetries c d

inductive Does (c : Connection) : Call → Connection → Prop
  | markDead (now : ℤ) : Does c (.markDead now) (c.markDead now)
  | tryReconnect (checkRetries : Bool) (r : Reconnect) :
      Does c (.tryReconnect checkRetries r) (c.tryReconnect checkRetries r)
  | rewind : Does c .rewind c.rewind
  | work {d : Connection} (h : Working c d) : Does c (.work d) d

/-- `markDead` leaves the connection dead. -/
def Dies (t : Transition Connection Call) : Prop :=
  match t.event with
  | .markDead _ => t.after.alive = false
  | _ => True

/-- A connection that is marked dead has a descriptor that `close` closes, or is dead already. -/
def Closable (c : Connection) : Call → Prop
  | .markDead _ => c.alive = true → 0 < c.socketFd
  | _ => True

theorem dies_iff {call : Call} (h : Does c call c') : Dies ⟨c, call, c'⟩ ↔ Closable c call := by
  cases h with
  | markDead now => exact dead_markDead_iff c now
  | tryReconnect => exact Iff.rfl
  | rewind => exact Iff.rfl
  | work => exact Iff.rfl

/-- Whether a connection has been marked dead and is not back yet, and how often
`tryReconnect(true)` has brought it back. -/
structure Tally where
  marked : Bool := false
  revivals : ℕ := 0

/-- `tryReconnect` returns `m_alive`. -/
def Tally.add (x : Tally) (t : Transition Connection Call) : Tally :=
  match t.event with
  | .markDead _ => { x with marked := true }
  | .tryReconnect checkRetries _ =>
    if t.after.alive then
      { marked := false, revivals := x.revivals + if checkRetries && x.marked then 1 else 0 }
    else x
  | .rewind => x
  | .work _ => x

/-- How often `tryReconnect(true)` returns true after `markDead`. -/
def revivals (tr : List (Transition Connection Call)) : ℕ := (tr.foldl Tally.add {}).revivals

/-- A connection that is marked is dead, and its counter covers the revivals. -/
structure Spent (maxRetries : ℤ) (c : Connection) (x : Tally) : Prop where
  maxRetries_eq : c.maxRetries = maxRetries
  dead : x.marked = true → c.alive = false
  le_retires : (x.revivals : ℤ) ≤ c.retires
  le_max : x.revivals ≤ maxRetries.toNat

theorem Spent.step {m : ℤ} {x : Tally} {call : Call} (h : Spent m c x) (hdoes : Does c call c')
    (hclosable : Closable c call) : Spent m c' (x.add ⟨c, call, c'⟩) := by
  cases hdoes with
  | markDead now =>
    obtain ⟨hretires, hmax⟩ := sameRetries_markDead now c
    have hdead := (dead_markDead_iff c now).2 hclosable
    refine ⟨hmax.trans h.maxRetries_eq, fun _ => hdead, ?_, h.le_max⟩
    rw [hretires]
    exact h.le_retires
  | tryReconnect checkRetries r =>
    show Spent m _ (if (c.tryReconnect checkRetries r).alive = true then _ else x)
    by_cases halive : c.alive = true
    · have hmarked : x.marked = false := by
        by_contra hmarked
        rw [h.dead (by simpa using hmarked)] at halive
        cases halive
      rw [tryReconnect_of_alive halive, if_pos halive, hmarked, Bool.and_false]
      exact ⟨h.maxRetries_eq, nofun, h.le_retires, h.le_max⟩
    · obtain ⟨hretires, hmax, hbound⟩ :=
        retires_tryReconnect (by simpa using halive) checkRetries r
      have hle := h.le_retires
      have hmax' := h.maxRetries_eq
      have hle' : (x.revivals : ℤ) ≤ (c.tryReconnect checkRetries r).retires := by
        rw [hretires]
        split_ifs <;> omega
      split_ifs with hback hcounted
      · rw [Bool.and_eq_true] at hcounted
        have hroom := hbound hcounted.1 hback
        rw [if_pos hcounted.1] at hretires
        refine ⟨hmax.trans hmax', nofun, ?_, ?_⟩
        · rw [hretires]
          push_cast
          omega
        · show x.revivals + 1 ≤ _
          omega
      · exact ⟨hmax.trans hmax', nofun, hle', h.le_max⟩
      · exact ⟨hmax.trans hmax', fun _ => by simpa using hback, hle', h.le_max⟩
  | rewind => exact ⟨h.maxRetries_eq, h.dead, h.le_retires, h.le_max⟩
  | work hwork =>
    obtain ⟨halive, -, hretires, hmax⟩ := hwork
    refine ⟨hmax.trans h.maxRetries_eq, fun hmarked => halive.trans (h.dead hmarked), ?_, h.le_max⟩
    rw [hretires]
    exact h.le_retires

theorem Spent.run {tr : List (Transition Connection Call)} (h : Run Does c tr d)
    (hretires : c.retires = 0) (hclosable : ∀ t ∈ tr, Closable t.before t.event) :
    Spent c.maxRetries d (tr.foldl Tally.add {}) := by
  induction h with
  | nil => exact ⟨rfl, nofun, hretires.ge, Nat.zero_le _⟩
  | snoc _ hdoes ih =>
    obtain ⟨hprev, hlast⟩ := List.forall_mem_append.1 hclosable
    rw [List.foldl_append]
    exact (ih hprev).step hdoes (hlast _ (List.mem_singleton_self _))

theorem forall_dies_iff {tr : List (Transition Connection Call)} (h : Run Does c tr d) :
    (∀ t ∈ tr, Dies t) ↔ ∀ t ∈ tr, Closable t.before t.event :=
  h.forall_iff (I := fun _ => True) trivial
    (fun _ _ _ _ hdoes hclosable => ⟨trivial, (dies_iff hdoes).2 hclosable⟩)
    fun _ _ _ _ hdoes hclosable => mt (dies_iff hdoes).1 hclosable

/-- **One connection during a command.** -/
theorem revivals_bounded_iff {tr : List (Transition Connection Call)} (h : Run Does c tr d)
    (hretires : c.retires = 0) :
    (∀ t ∈ tr, Dies t) ∧ revivals tr ≤ c.maxRetries.toNat ↔
      ∀ t ∈ tr, Closable t.before t.event := by
  have hdies := forall_dies_iff h
  constructor
  · rintro ⟨hall, -⟩
    exact hdies.1 hall
  · intro hclosable
    exact ⟨hdies.2 hclosable, (Spent.run h hretires hclosable).le_max⟩

/-! ### Calls in order -/

/-- The calls are steps of the connection and lead to `d`, and each of their rewinds follows a
revival of its own. -/
structure Carries (c : Connection) (calls : List Call) (d : Connection) : Prop where
  steps : ∀ t ∈ Transition.trace exec c calls, Does t.before t.event t.after
  foldl_eq : calls.foldl exec c = d
  backed : ∀ x : Tally, x.revivals + calls.countP Call.isRewind ≤
    ((Transition.trace exec c calls).foldl Tally.add x).revivals

theorem Does.exec_eq {call : Call} (h : Does c call c') : c.exec call = c' := by
  cases h <;> rfl

theorem Tally.le_add (x : Tally) (t : Transition Connection Call) :
    x.revivals ≤ (x.add t).revivals := by
  unfold add
  split
  · exact le_rfl
  · split_ifs
    · exact Nat.le_add_right _ _
    · exact Nat.le_add_right _ _
    · exact le_rfl
  · exact le_rfl
  · exact le_rfl

theorem Carries.nil (c : Connection) : Carries c [] c :=
  ⟨List.forall_mem_nil _, rfl, fun _ => le_rfl⟩

theorem Carries.cons {call : Call} {calls : List Call} (hdoes : Does c call c')
    (hcall : call.isRewind = false) (h : Carries c' calls d) : Carries c (call :: calls) d := by
  obtain rfl := hdoes.exec_eq
  refine ⟨List.forall_mem_cons.2 ⟨hdoes, h.steps⟩, h.foldl_eq, fun x => ?_⟩
  have hadd := x.le_add ⟨c, call, c.exec call⟩
  have hbacked := h.backed (x.add ⟨c, call, c.exec call⟩)
  rw [List.countP_cons_of_neg (by simp [hcall])]
  exact (Nat.add_le_add_right hadd _).trans hbacked

theorem Carries.append {calls calls' : List Call} (h : Carries c calls c')
    (h' : Carries c' calls' d) : Carries c (calls ++ calls') d := by
  obtain rfl := h.foldl_eq
  refine ⟨?_, ?_, fun x => ?_⟩
  · rw [Transition.trace_append]
    exact List.forall_mem_append.2 ⟨h.steps, h'.steps⟩
  · rw [List.foldl_append]
    exact h'.foldl_eq
  · have hfirst := h.backed x
    have hsecond := h'.backed ((Transition.trace exec c calls).foldl Tally.add x)
    rw [Transition.trace_append, List.foldl_append, List.countP_append]
    omega

theorem carries_markDead {α : Type} (test : α → Bool) (time : α → ℤ) (l : List α)
    (c : Connection) : Carries c ((l.filter test).map fun x => .markDead (time x))
      (l.foldl (fun c x => if test x then c.markDead (time x) else c) c) := by
  induction l generalizing c with
  | nil => exact Carries.nil c
  | cons x l ih =>
    rw [List.foldl_cons]
    by_cases hx : test x = true
    · rw [List.filter_cons_of_pos hx, List.map_cons, if_pos hx]
      exact .cons (.markDead _) rfl (ih _)
    · rw [List.filter_cons_of_neg hx, if_neg hx]
      exact ih c

theorem Carries.run {calls : List Call} (h : Carries c calls d) :
    Run Does c (Transition.trace exec c calls) d := by
  have hnil : Run Does c [] c := .nil
  have hrun := hnil.trace h.steps
  rwa [h.foldl_eq, List.nil_append] at hrun

theorem Carries.rewinds_le {calls : List Call} (h : Carries c calls d) :
    calls.countP Call.isRewind ≤ revivals (Transition.trace exec c calls) := by
  have hbacked := h.backed {}
  rwa [Nat.zero_add] at hbacked

/-! ### What sending, receiving and parsing leave alone -/

theorem working_send (room : Option ℕ) (c : Connection) : Working c (c.send room).2 := by
  cases room with
  | none => exact ⟨rfl, rfl, rfl, rfl⟩
  | some room => exact ⟨rfl, rfl, rfl, rfl⟩

theorem working_recv (isPeek : Bool) (bytes : Option Bytes) (c : Connection) :
    Working c (c.recv isPeek bytes).2 := by
  unfold recv
  dsimp only
  split
  · split_ifs <;> exact ⟨rfl, rfl, rfl, rfl⟩
  · exact ⟨rfl, rfl, rfl, rfl⟩

theorem working_process {n : ℕ} {err : ErrCode} (h : c.process n = some (err, d)) :
    Working c d := by
  rw [process_eq h]
  exact ⟨rfl, rfl, rfl, rfl⟩

end Connection

/-! ### The calls of the loop -/

namespace Entry

variable {e e' : Entry} {part : Part} {jump : Bool} {r : Revents} {a : Answers}

/-- The calls of a branch that sends a request again. -/
def lostCalls (a : Answers) (c : Connection) : List Connection.Call :=
  [.markDead a.deadTime, .tryReconnect true a.reconnect] ++
    if ((c.markDead a.deadTime).tryReconnect true a.reconnect).alive then [.rewind] else []

/-- The calls of a part of a turn on its connection. -/
def calls (part : Part) (r : Revents) (a : Answers) (e : Entry) : List Connection.Call :=
  match part with
  | .error => if r.err then lostCalls a e.conn else []
  | .early =>
    if r.in_ && !e.conn.isSent then
      let (nRecv, conn) := e.conn.recv true a.bytes
      .work conn ::
        if nRecv = none ∨ nRecv = some [] then
          [.markDead a.deadTime, .tryReconnect false a.reconnect]
        else []
    else []
  | .send =>
    if r.out then
      let (nToSend, conn) := e.conn.send a.room
      .work conn :: if nToSend = none then lostCalls a conn else []
    else []
  | .recv =>
    if r.in_ then
      let (nRecv, conn) := e.conn.recv false a.bytes
      .work conn ::
        if nRecv = none ∨ nRecv = some [] then lostCalls a conn
        else
          match conn.process a.rounds with
          | some (err, conn) =>
            .work conn ::
              if err = .programmingErr ∨ err = .mcServerErr then [.markDead a.deadTime] else []
          | none => []
    else []

/-- In a branch that sends a request again a rewind follows a revival. -/
theorem carries_lost (code : ErrCode) (a : Answers) (c : Connection) (e : Entry) :
    c.Carries (lostCalls a c) (lose code a { e with conn := c }).conn := by
  have hcalls : c.Carries [.markDead a.deadTime, .tryReconnect true a.reconnect]
      ((c.markDead a.deadTime).tryReconnect true a.reconnect) :=
    .cons (.markDead _) rfl (.cons (.tryReconnect _ _) rfl (.nil _))
  unfold lostCalls lose markDeadConn
  dsimp only
  split_ifs with halive
  · refine ⟨?_, rfl, fun x => ?_⟩
    · rw [Transition.trace_append]
      exact List.forall_mem_append.2 ⟨hcalls.steps, List.forall_mem_singleton.2 .rewind⟩
    · have hcounted : Connection.Tally.add ⟨true, x.revivals⟩ ⟨c.markDead a.deadTime,
          .tryReconnect true a.reconnect, (c.markDead a.deadTime).tryReconnect true a.reconnect⟩ =
          ⟨false, x.revivals + 1⟩ := if_pos halive
      exact (congrArg Connection.Tally.revivals hcounted).ge
  · rw [List.append_nil]
    exact hcalls

theorem carries_parsed (err : ErrCode) (a : Answers) (c : Connection) (e : Entry) :
    c.Carries (if err = .programmingErr ∨ err = .mcServerErr then [.markDead a.deadTime] else [])
      (parsed err a { e with conn := c }).conn := by
  have hparsed := parsed_cases err a { e with conn := c }
  generalize parsed err a { e with conn := c } = e' at hparsed ⊢
  cases hparsed with
  | done h =>
    rw [if_neg (by simp [h])]
    exact .nil c
  | failed h =>
    rw [if_pos h]
    exact .cons (.markDead _) rfl (.nil _)
  | more _ hprog hserver =>
    rw [if_neg (not_or.2 ⟨hprog, hserver⟩)]
    exact .nil c

theorem carries_calls (hrun : e.run part r a = some (jump, e')) :
    e.conn.Carries (e.calls part r a) e'.conn := by
  cases part with
  | error =>
    have hpart : e.errorPart r a = (jump, e') := Option.some.inj hrun
    unfold errorPart at hpart
    unfold calls
    dsimp only
    split_ifs at hpart ⊢
    · obtain ⟨-, rfl⟩ := Prod.mk.inj hpart
      exact carries_lost .connPollErr a e.conn e
    · obtain ⟨-, rfl⟩ := Prod.mk.inj hpart
      exact .nil _
  | early =>
    have hpart : e.earlyPart r a = (jump, e') := Option.some.inj hrun
    have hwork := Connection.working_recv true a.bytes e.conn
    unfold earlyPart at hpart
    unfold calls
    dsimp only at hpart ⊢
    generalize e.conn.recv true a.bytes = got at hpart hwork ⊢
    obtain ⟨nRecv, conn⟩ := got
    have hlost : e.conn.Carries
        [.work conn, .markDead a.deadTime, .tryReconnect false a.reconnect]
        ((conn.markDead a.deadTime).tryReconnect false a.reconnect) :=
      .cons (.work hwork) rfl (.cons (.markDead _) rfl (.cons (.tryReconnect _ _) rfl (.nil _)))
    split_ifs at hpart ⊢
    · obtain ⟨-, rfl⟩ := Prod.mk.inj hpart
      exact hlost
    · obtain ⟨-, rfl⟩ := Prod.mk.inj hpart
      exact hlost
    · obtain ⟨-, rfl⟩ := Prod.mk.inj hpart
      exact .cons (.work hwork) rfl (.nil _)
    · obtain ⟨-, rfl⟩ := Prod.mk.inj hpart
      exact .nil _
  | send =>
    have hpart : e.sendPart r a = (jump, e') := Option.some.inj hrun
    have hwork := Connection.working_send a.room e.conn
    unfold sendPart at hpart
    unfold calls
    dsimp only at hpart ⊢
    generalize e.conn.send a.room = sent at hpart hwork ⊢
    obtain ⟨nToSend, conn⟩ := sent
    by_cases hout : r.out = true
    · rw [if_pos hout] at hpart ⊢
      cases nToSend with
      | none =>
        obtain ⟨-, rfl⟩ := Prod.mk.inj hpart
        rw [if_pos rfl]
        exact .cons (.work hwork) rfl (carries_lost .sendErr a conn e)
      | some nToSend =>
        dsimp only at hpart
        have hconn : e'.conn = conn := by
          split_ifs at hpart <;> obtain ⟨-, rfl⟩ := Prod.mk.inj hpart <;> rfl
        rw [if_neg (Option.some_ne_none nToSend), hconn]
        exact .cons (.work hwork) rfl (.nil _)
    · rw [if_neg hout] at hpart ⊢
      obtain ⟨-, rfl⟩ := Prod.mk.inj hpart
      exact .nil _
  | recv =>
    obtain ⟨e'', hpart, heq⟩ := Option.map_eq_some_iff.1 hrun
    obtain ⟨-, rfl⟩ := Prod.mk.inj heq
    have hwork := Connection.working_recv false a.bytes e.conn
    unfold recvPart at hpart
    unfold calls
    dsimp only at hpart ⊢
    generalize e.conn.recv false a.bytes = got at hpart hwork ⊢
    obtain ⟨nRecv, conn⟩ := got
    split_ifs at hpart ⊢
    · obtain rfl := Option.some.inj hpart
      exact .cons (.work hwork) rfl (carries_lost .recvErr a conn e)
    · obtain ⟨⟨err, d⟩, hp, rfl⟩ := Option.map_eq_some_iff.1 hpart
      have hd := Connection.working_process hp
      rw [hp]
      exact .cons (.work hwork) rfl (.cons (.work hd) rfl (carries_parsed err a d e))
    · obtain rfl := Option.some.inj hpart
      exact .nil _

end Entry

namespace PollLoop

variable {s s' : PollLoop} {ev : Event} {i : ℕ}

/-- The calls of a step on the connection `i`. -/
def calls (i : ℕ) (s : PollLoop) : Event → List Connection.Call
  | .part a =>
    match s.progress with
    | .turn k part revents =>
      if s.connAt k = some i then
        match s.entry k, revents[k]? with
        | some e, some r => e.calls part r a
        | _, _ => []
      else []
    | _ => []
  | .fail _ times =>
    ((s.pool.activeConns.zipIdx.filter fun x => x.1 = i).filter fun x =>
      s.pollfds[x.2]?.any fun fd => fd.out || fd.in_).map fun x => .markDead (times x.2)
  | _ => []

/-- The calls of a run on the connection `i`. -/
def callsOn (i : ℕ) (tr : List (Transition PollLoop Event)) : List Connection.Call :=
  tr.flatMap fun t => t.before.calls i t.event

theorem callsOn_append (i : ℕ) (tr tr' : List (Transition PollLoop Event)) :
    callsOn i (tr ++ tr') = callsOn i tr ++ callsOn i tr' := List.flatMap_append

theorem Step.carries (h : Step s ev s') (hc : s.pool.conns[i]? = some c) :
    ∃ d, s'.pool.conns[i]? = some d ∧ c.Carries (s.calls i ev) d := by
  cases h with
  | leave => exact ⟨c, hc, .nil c⟩
  | @fail code times =>
    have hdead := Connection.carries_markDead
      (fun x : ℕ × ℕ => s.pollfds[x.2]?.any fun fd => fd.out || fd.in_) (fun x => times x.2)
      (s.pool.activeConns.zipIdx.filter fun x => x.1 = i) c
    refine ⟨_, ?_, hdead⟩
    show (s.pool.markDeadAll (some s.pollfds) times).conns[i]? = _
    unfold ConnectionPool.markDeadAll
    rw [ConnectionPool.foldl_modifyConn_conns, hc]
    rfl
  | report => exact ⟨c, hc, .nil c⟩
  | @part k part revents r a e e' jump hs he hr hrun =>
    obtain ⟨j, hj, hconn, -⟩ := slot_eq_some (slot_of_entry he)
    show ∃ d, (s.setEntry k e').pool.conns[i]? = some d ∧ _
    have hcalls : s.calls i (.part a) = if j = i then e.calls part r a else [] := by
      unfold calls
      simp [hs, hj, he, hr]
    rw [conns_setEntry hj, hcalls]
    by_cases hji : j = i
    · subst hji
      obtain rfl := Option.some.inj (hc.symm.trans hconn)
      rw [if_pos rfl]
      refine ⟨e'.conn, ?_, Entry.carries_calls hrun⟩
      exact List.getElem?_set_self (List.getElem?_eq_some_iff.1 hc).1
    · rw [if_neg hji, List.getElem?_set_ne hji]
      exact ⟨c, hc, .nil c⟩
  | nextRound => exact ⟨c, hc, .nil c⟩

/-- **The run lemma.** The calls of a run on a connection, carried out in order, are what the run
does to it. -/
theorem calls_run {tr : List (Transition PollLoop Event)} {s₀ : PollLoop} (h : Run Step s₀ tr s)
    (hc : s₀.pool.conns[i]? = some c) :
    ∃ d, s.pool.conns[i]? = some d ∧ c.Carries (callsOn i tr) d := by
  induction h with
  | nil => exact ⟨c, hc, .nil c⟩
  | @snoc tr s s' ev _ hstep ih =>
    obtain ⟨d, hd, hcarries⟩ := ih
    obtain ⟨d', hd', hlast⟩ := hstep.carries hd
    have hcalls : callsOn i [⟨s, ev, s'⟩] = s.calls i ev := List.flatMap_singleton _ _
    rw [callsOn_append, hcalls]
    exact ⟨d', hd', hcarries.append hlast⟩

end PollLoop

/-! ### The counter between commands -/

/-- An attempt that is not to be checked is not counted. -/
theorem Connection.retires_tryReconnect_false (r : Reconnect) (c : Connection) :
    (c.tryReconnect false r).retires = c.retires := by
  rw [tryReconnect_false]
  split_ifs
  · rfl
  · exact (sameRetries_attempt r c).retires_eq

theorem Request.retires_dispatch {p : ConnectionPool} (hp : ∀ c ∈ p.conns, c.retires = 0)
    (req : Request) : ∀ c ∈ (req.dispatch p).conns, c.retires = 0 :=
  req.forall_dispatch (Connection.loadable_socket fun _ _ retires _ => retires = 0)
    (fun c r hc => (c.retires_tryReconnect_false r).trans hc) hp

namespace Client

variable {hash : HashFunctionOption → Bytes → ℕ} {client : Client}

theorem durable_retires : Durable fun c => c.retires = 0 where
  init := rfl
  config _ _ _ h := h
  lookup c r h := (c.retires_tryReconnect_false r).trans h
  command {conns p code} req times h hwait := by
    have hframe := hwait.frame.trans (req.finish_frame times p)
    intro c hc
    rcases ConnectionPool.reset_cases hc with ⟨i, hi, hc⟩ | ⟨i, -, d, -, rfl⟩
    · rw [hframe.activeConns] at hi
      rw [hframe.conns i hi] at hc
      exact req.retires_dispatch h c (List.mem_of_getElem? hc)
    · rfl
  updateServer _ _ _ := rfl

/-- No retry has been counted when a command is dispatched. -/
theorem Reachable.retires (h : Reachable hash client) (req : Request) :
    ∀ c ∈ (req.dispatch client.pool).conns, c.retires = 0 :=
  req.retires_dispatch (Durable.forall_pool (h.durable durable_retires))

end Client

/-! ### The bound -/

/-- **Requests that are sent again.** During a command `markDead` leaves a connection dead each time,
and `tryReconnect(true)` returns true after it at most `m_maxRetries` times, exactly if the
connection has a positive descriptor whenever it is marked dead while it is alive. The same holds of
the calls of `waitPoll` on a connection of a command, and of the times that it rewinds it. -/
theorem resends_bounded_iff {calls : List (Transition Connection Connection.Call)}
    (hretires : c.retires = 0) (hcalls : Run Connection.Does c calls d)
    {hash : HashFunctionOption → Bytes → ℕ} {client : Client}
    (hclient : Client.Reachable hash client) (req : Request)
    {tr : List (Transition PollLoop Event)} {s : PollLoop}
    (hrun : Run PollLoop.Step (req.dispatch client.pool).startPoll tr s) {i : ℕ} {b : Connection}
    (hb : (req.dispatch client.pool).conns[i]? = some b) :
    ((∀ t ∈ calls, Connection.Dies t) ∧ Connection.revivals calls ≤ c.maxRetries.toNat ↔
      ∀ t ∈ calls, Connection.Closable t.before t.event) ∧
    ((∀ t ∈ Transition.trace Connection.exec b (PollLoop.callsOn i tr), Connection.Dies t) ∧
        (PollLoop.callsOn i tr).countP Connection.Call.isRewind ≤ b.maxRetries.toNat ↔
      ∀ t ∈ Transition.trace Connection.exec b (PollLoop.callsOn i tr),
        Connection.Closable t.before t.event) := by
  refine ⟨Connection.revivals_bounded_iff hcalls hretires, ?_⟩
  obtain ⟨e, -, hcarries⟩ := PollLoop.calls_run hrun hb
  have hbound := Connection.revivals_bounded_iff hcarries.run
    (hclient.retires req b (List.mem_of_getElem? hb))
  have hle := hcarries.rewinds_le
  rw [← hbound]
  constructor
  · rintro ⟨hdies, -⟩
    exact hbound.2 ((Connection.forall_dies_iff hcarries.run).1 hdies)
  · rintro ⟨hdies, hrevivals⟩
    exact ⟨hdies, hle.trans hrevivals⟩

instance (c : Connection) (call : Connection.Call) : Decidable (Connection.Closable c call) := by
  unfold Connection.Closable
  split <;> infer_instance

/-- A command for one key, whose connection gets the descriptor 0. -/
def getZero : Request :=
  .retrieval ⟨.get, get_mem⟩ [(ascii "k", { tried := [(0, ⟨0, some 0⟩)], conn := some 0 })]

theorem Client.exists_init : ∃ client : Client,
    Client.Reachable (fun _ => List.length) client ∧ client.pool = .init 1 :=
  ⟨_, .init .new false [⟨ascii "a", 1, none⟩], rfl⟩

namespace PollLoop

def advance (s : PollLoop) (ev : Event) : PollLoop := (s.exec ev).getD s

theorem run_advance {s₀ s : PollLoop} {tr : List (Transition PollLoop Event)} (evs : List Event)
    (h : Run Step s₀ tr s)
    (hexec : ∀ t ∈ Transition.trace advance s evs, t.before.exec t.event = some t.after) :
    Run Step s₀ (tr ++ Transition.trace advance s evs) (evs.foldl advance s) :=
  h.trace fun t ht => step_of_exec t.event (hexec t ht)

end PollLoop

/-- A connection that is brought back once, and one that is lost in the loop. -/
theorem resends_bounded_once :
    Connection.revivals (Transition.trace Connection.exec
      { socketFd := 5, alive := true, maxRetries := 1 }
      [.markDead 0, .tryReconnect true ⟨0, some 6⟩, .rewind]) ≤ 1 ∧
    ∃ tr s, Run PollLoop.Step (getOne.dispatch (.init 1)).startPoll tr s ∧ tr.length = 2 ∧
      (PollLoop.callsOn 0 tr).countP Connection.Call.isRewind ≤ 0 := by
  have hsteps : ∀ t ∈ Transition.trace Connection.exec
      { socketFd := 5, alive := true, maxRetries := 1 }
      [.markDead 0, .tryReconnect true ⟨0, some 6⟩, .rewind],
      Connection.Does t.before t.event t.after :=
    List.forall_mem_cons.2 ⟨.markDead 0, List.forall_mem_cons.2 ⟨.tryReconnect true ⟨0, some 6⟩,
      List.forall_mem_singleton.2 .rewind⟩⟩
  have hstart : Run PollLoop.Step (getOne.dispatch (.init 1)).startPoll [] _ := .nil
  have hrun := PollLoop.run_advance [.report [{ err := true }], .part {}] hstart (by decide +kernel)
  obtain ⟨client, hclient, hpool⟩ := Client.exists_init
  have hbounded := @resends_bounded_iff _ _ _ rfl (Run.nil.trace hsteps) _ client hclient getOne
  rw [hpool] at hbounded
  obtain ⟨hcalls, hloop⟩ := @hbounded _ _ hrun 0 _ rfl
  exact ⟨(hcalls.2 (by decide)).2, _, _, hrun, rfl, (hloop.2 (by decide +kernel)).2⟩

namespace PollLoop

/-- An error is reported for the only connection. -/
def errorRound : List Event := [.report [{ err := true }], .part {}, .nextRound]

/-- With the descriptor 0 a request is sent again without limit. -/
theorem rewinds_unbounded (n : ℕ) : ∃ tr s,
    Run Step (getZero.dispatch (.init 1)).startPoll tr s ∧
      (callsOn 0 tr).countP Connection.Call.isRewind = n := by
  -- after the first round the loop is in the same state after each one
  obtain ⟨states, hstart, hround⟩ : ∃ states : List PollLoop,
      (getZero.dispatch (.init 1)).startPoll ∈ states ∧ ∀ s ∈ states,
        (∀ t ∈ Transition.trace advance s errorRound, t.before.exec t.event = some t.after) ∧
        errorRound.foldl advance s ∈ states ∧
        (callsOn 0 (Transition.trace advance s errorRound)).countP Connection.Call.isRewind = 1 :=
    ⟨[(getZero.dispatch (.init 1)).startPoll,
      errorRound.foldl advance (getZero.dispatch (.init 1)).startPoll], List.mem_cons_self,
      by decide +kernel⟩
  suffices hruns : ∃ tr, ∃ s ∈ states, Run Step (getZero.dispatch (.init 1)).startPoll tr s ∧
      (callsOn 0 tr).countP Connection.Call.isRewind = n by
    obtain ⟨tr, s, -, hrun⟩ := hruns
    exact ⟨tr, s, hrun⟩
  induction n with
  | zero => exact ⟨[], _, hstart, .nil, rfl⟩
  | succ n ih =>
    obtain ⟨tr, s, hs, hrun, hcount⟩ := ih
    obtain ⟨hexec, hnext, hone⟩ := hround s hs
    refine ⟨_, _, hnext, run_advance _ hrun hexec, ?_⟩
    rw [callsOn_append, List.countP_append, hcount, hone]

end PollLoop

/-- The descriptor 0, and no retry is allowed. -/
theorem not_resends_bounded : ¬ ∀ (hash : HashFunctionOption → Bytes → ℕ) (client : Client),
    Client.Reachable hash client →
      ∀ (req : Request) (tr : List (Transition PollLoop Event)) (s : PollLoop),
        Run PollLoop.Step (req.dispatch client.pool).startPoll tr s →
          ∀ (i : ℕ) (c : Connection), (req.dispatch client.pool).conns[i]? = some c →
            (PollLoop.callsOn i tr).countP Connection.Call.isRewind ≤ c.maxRetries.toNat := by
  intro h
  obtain ⟨client, hclient, hpool⟩ := Client.exists_init
  obtain ⟨tr, s, hrun, hcount⟩ := PollLoop.rewinds_unbounded 1
  have hloop := h _ client hclient getZero
  rw [hpool] at hloop
  have hle := hloop tr s hrun 0 _ rfl
  rw [hcount] at hle
  exact absurd hle (by decide)

end Libmc
