import Libmc.PollSteady

/-!
# The loop ends

A round of the loop in which nothing fails does some of the work that is left: it sends or receives
bytes, or it clears an event (`Moves.workLeft_lt`). So the number of its steps is bounded
(`SteadyInv.measure_lt`), and it can always go on until it is left by its condition
(`SteadyInv.goes_on`). The code that `waitPoll` returns then says whether there was an error line
(`waitPoll_ok_iff`).
-/

namespace Libmc

variable {c c0 d : Connection} {p : ConnectionPool} {s s' s0 : PollLoop} {ev : Event}
  {r : Revents} {a : Answers} {e e' : Entry} {part : Part} {jump : Bool} {i k n total : ℕ}
  {fd : PollFd} {srv : Servers} {req : Request} {revents : List Revents} {bs : Bytes}
  {err : ErrCode}

/-! ### The work that is left -/

namespace Connection

/-- What is left to do for a connection that is to take `total` bytes: buffers and bytes to send,
input to look at, and bytes to receive. -/
def workLeft (total : ℕ) (c : Connection) (fd : PollFd) : ℕ :=
  2 * (c.bufferWriter.unread.length + c.bufferWriter.msgIovlen) + (if fd.in_ then 1 else 0) +
    (total - c.traffic.taken.length)

/-- Sending leaves fewer bytes or fewer buffers. -/
theorem sent_lt (h : c.bufferWriter.Wf) (hleft : c.bufferWriter.msgIovlen ≠ 0) (m : ℕ) :
    (c.bufferWriter.commitRead (min (m + 1) c.offered.length)).unread.length +
        (c.bufferWriter.commitRead (min (m + 1) c.offered.length)).msgIovlen <
      c.bufferWriter.unread.length + c.bufferWriter.msgIovlen := by
  have hle : c.offered.length ≤ c.bufferWriter.unread.length := c.offered_prefix.length_le
  obtain ⟨-, hunread, -⟩ := h.commitRead ((min_le_right (m + 1) c.offered.length).trans hle)
  have hcount := BufferWriter.passBuffers_le c.bufferWriter.iovec c.bufferWriter.msgIovlen
    c.bufferWriter.readIdx (min (m + 1) c.offered.length)
  rw [← BufferWriter.msgIovlen_commitRead] at hcount
  rw [hunread, List.length_drop]
  by_cases hnil : c.offered = []
  · -- the next buffer is empty
    have hnext : c.bufferWriter.iovec.getD c.bufferWriter.readIdx [] = [] := by
      rcases lt_or_ge c.bufferWriter.readIdx c.bufferWriter.iovec.length with hlt | hge
      · obtain ⟨n, hn⟩ := Nat.exists_eq_succ_of_ne_zero hleft
        have hoffered := hnil
        unfold offered BufferWriter.getReadPtr at hoffered
        rw [hn, List.drop_eq_getElem_cons hlt, List.take_succ_cons,
          show uioMaxIov = 1023 + 1 from rfl, List.take_succ_cons, List.flatten_cons] at hoffered
        rw [List.getD_eq_getElem _ _ hlt]
        exact (List.append_eq_nil_iff.1 hoffered).1
      · exact List.getD_eq_default _ _ hge
    have := BufferWriter.msgIovlen_commitRead_lt hleft hnext (min (m + 1) c.offered.length)
    omega
  · have hpos := List.length_pos_of_ne_nil hnil
    have : 0 < min (m + 1) c.offered.length := lt_min (Nat.succ_pos m) hpos
    omega

end Connection

namespace Entry

/-- A part of a turn that does something leaves less to do. -/
theorem Moves.workLeft_lt (h : Moves r a e part jump e') (hwf : e.conn.bufferWriter.Wf)
    (hout : part = .send → r.out = true → e.conn.bufferWriter.msgIovlen ≠ 0)
    (hin : part = .early → r.in_ = true → e.pollfd.in_ = true)
    (htotal : e'.conn.traffic.taken.length ≤ total) :
    (e' = e ∧ jump = decide (part = .recv) ∧ (part = .send → r.out = false) ∧
        (part = .recv → r.in_ = false)) ∨
      e'.conn.workLeft total e'.pollfd < e.conn.workLeft total e.pollfd := by
  cases h with
  | passed hout hin => exact .inl ⟨rfl, rfl, hout, hin⟩
  | @peeked d hr hd =>
    right
    unfold Connection.workLeft
    rw [hin rfl hr, if_pos rfl, if_neg Bool.false_ne_true, hd.bufferWriter_eq, hd.socket.traffic_eq]
    omega
  | @sent m hr =>
    right
    have hlt := Connection.sent_lt hwf (hout rfl hr) m
    unfold Connection.workLeft
    show 2 * ((e.conn.bufferWriter.commitRead _).unread.length +
      (e.conn.bufferWriter.commitRead _).msgIovlen) + (if true then 1 else 0) +
        (total - e.conn.traffic.taken.length) < _
    rw [if_pos rfl]
    omega
  | @received bs d d' err _ hbs _ hd hp =>
    right
    have hd' := hd.processed hp
    have hpos := List.length_pos_of_ne_nil hbs
    have htaken : (parsed err a { e with conn := d' }).conn.traffic.taken =
        e.conn.traffic.taken ++ bs := by
      rw [traffic_parsed]
      exact congrArg Traffic.taken hd'.traffic_eq
    have hwriter : (parsed err a { e with conn := d' }).conn.bufferWriter = e.conn.bufferWriter :=
      conn_parsed (Q := fun c => c.bufferWriter = e.conn.bufferWriter) hd'.bufferWriter_eq
        ((Connection.sameWork_markDead _ _).bufferWriter_eq.trans hd'.bufferWriter_eq)
    have hasked : (parsed err a { e with conn := d' }).pollfd.in_ = true → e.pollfd.in_ = true := by
      have hparsed := parsed_cases err a { e with conn := d' }
      generalize parsed err a { e with conn := d' } = e'' at hparsed ⊢
      cases hparsed with
      | done => nofun
      | failed => nofun
      | more => exact id
    unfold Connection.workLeft
    rw [htaken, List.length_append] at htotal ⊢
    rw [hwriter]
    split_ifs with h1 h2
    · omega
    · exact absurd (hasked h1) h2
    · omega
    · omega

end Entry

namespace PollLoop

/-- How many bytes a slot is to take from its socket, with what was taken before. -/
def totalReplies (srv : Servers) (p : ConnectionPool) (req : Request) (s0 : PollLoop) (k : ℕ) : ℕ :=
  ((s0.connAt k).bind fun i => s0.pool.conns[i]?.map fun c0 =>
    (srv.answers i c0.traffic.socket 0
      ((readCommands c0.traffic.written).1 ++ req.commandsFor p i)).length).getD 0

def slotWork (srv : Servers) (p : ConnectionPool) (req : Request) (s0 s : PollLoop) (k : ℕ) : ℕ :=
  ((s.slot k).map fun x => x.1.workLeft (totalReplies srv p req s0 k) x.2).getD 0

def work (srv : Servers) (p : ConnectionPool) (req : Request) (s0 s : PollLoop) : ℕ :=
  ∑ k ∈ Finset.range s.pollfds.length, slotWork srv p req s0 s k

theorem work_setEntry (hnodup : s.pool.activeConns.Nodup) (hslot : s.slot k = some (c, fd))
    (progress : Progress) (hle : e'.conn.workLeft (totalReplies srv p req s0 k) e'.pollfd <
      c.workLeft (totalReplies srv p req s0 k) fd) :
    work srv p req s0 { s.setEntry k e' with progress } < work srv p req s0 s := by
  have hset := slot_setEntry hnodup hslot e'
  have hlen : ({ s.setEntry k e' with progress } : PollLoop).pollfds.length = s.pollfds.length :=
    List.length_set
  obtain ⟨-, -, -, hfd⟩ := slot_eq_some hslot
  have hk := (List.getElem?_eq_some_iff.1 hfd).1
  have hwork : ∀ j, slotWork srv p req s0 { s.setEntry k e' with progress } j =
      if j = k then e'.conn.workLeft (totalReplies srv p req s0 k) e'.pollfd
      else slotWork srv p req s0 s j := by
    intro j
    have hj : ({ s.setEntry k e' with progress } : PollLoop).slot j = _ := hset j
    unfold slotWork
    rw [hj]
    split_ifs with hjk
    · rw [hjk]
      rfl
    · rfl
  unfold work
  rw [hlen]
  refine Finset.sum_lt_sum (fun j _ => ?_) ⟨k, Finset.mem_range.2 hk, ?_⟩
  · rw [hwork]
    split_ifs with hjk
    · subst hjk
      unfold slotWork
      rw [hslot]
      exact hle.le
    · exact le_rfl
  · rw [hwork, if_pos rfl]
    unfold slotWork
    rw [hslot]
    exact hle

/-! ### A measure for the loop -/

/-- An event waits for its part of a turn. -/
def Waits (part : Part) (r : Revents) : Prop := r.in_ = true ∨ part ≠ .recv ∧ r.out = true

/-- Some event waits in a turn. -/
def Waiting (k : ℕ) (part : Part) (revents : List Revents) : Prop :=
  ∃ j r, k ≤ j ∧ revents[j]? = some r ∧ Waits (if j = k then part else .error) r

/-- The parts of a turn before this one. -/
def index : Part → ℕ
  | .error => 0
  | .early => 1
  | .send => 2
  | .recv => 3

/-- The steps that are left in a round. -/
def roundLeft (n k : ℕ) (part : Part) : ℕ := 4 * (n - k) - index part + 1

theorem roundLeft_next (hk : k < n) {revents : List Revents} {k' : ℕ} {part' : Part}
    (h : next k part revents jump = .turn k' part' revents) :
    roundLeft n k' part' < roundLeft n k part := by
  unfold next at h
  unfold roundLeft
  cases jump <;> cases part <;> obtain ⟨rfl, rfl, -⟩ := Progress.turn.inj h <;>
    simp only [index] <;> omega

open Classical in
/-- A measure of the steps that are left. An event that waits lowers the work before the round
ends. -/
noncomputable def measure (srv : Servers) (p : ConnectionPool) (req : Request) (s0 s : PollLoop) : ℕ :=
  (4 * s.pollfds.length + 2) * work srv p req s0 s +
    match s.progress with
    | .polling => 4 * s.pollfds.length + 2
    | .turn k part revents => roundLeft s.pollfds.length k part +
        if Waiting k part revents then 0 else 4 * s.pollfds.length + 2
    | .finished => 0
    | .broken => 0

theorem work_setEntry_self (hnodup : s.pool.activeConns.Nodup) (he : s.entry k = some e)
    (progress : Progress) :
    work srv p req s0 { s.setEntry k e with progress } = work srv p req s0 s := by
  have hslot := slot_of_entry he
  have hset := slot_setEntry hnodup hslot e
  have hlen : ({ s.setEntry k e with progress } : PollLoop).pollfds.length = s.pollfds.length :=
    List.length_set
  unfold work
  rw [hlen]
  refine Finset.sum_congr rfl fun j _ => ?_
  have hj : ({ s.setEntry k e with progress } : PollLoop).slot j = s.slot j := by
    refine (hset j).trans ?_
    split_ifs with hjk
    · rw [hjk, hslot]
    · rfl
  unfold slotWork
  rw [hj]

theorem next_turn (k : ℕ) (part : Part) (revents : List Revents) (jump : Bool) :
    ∃ k' part', next k part revents jump = .turn k' part' revents := by
  unfold next
  split
  · exact ⟨_, _, rfl⟩
  · exact ⟨_, _, rfl⟩

/-- An event that waits still waits after a part that passes. -/
theorem Waiting.next (h : Waiting k part revents) (hr : revents[k]? = some r)
    (hout : part = .send → r.out = false) (hin : part = .recv → r.in_ = false) {k' : ℕ}
    {part' : Part} (hnext : next k part revents (part = .recv) = .turn k' part' revents) :
    Waiting k' part' revents := by
  obtain ⟨j, r', hj, hr', hwaits⟩ := h
  by_cases hjk : j = k
  · subst hjk
    obtain rfl := Option.some.inj (hr.symm.trans hr')
    rw [if_pos rfl] at hwaits
    cases part with
    | recv =>
      rcases hwaits with hin' | ⟨hpart, -⟩
      · cases (hin rfl).symm.trans hin'
      · exact absurd rfl hpart
    | send =>
      obtain ⟨rfl, rfl, -⟩ := Progress.turn.inj hnext
      refine ⟨_, r, le_rfl, hr, ?_⟩
      rw [if_pos rfl]
      refine .inl (hwaits.resolve_right fun hout' => ?_)
      cases (hout rfl).symm.trans hout'.2
    | error =>
      obtain ⟨rfl, rfl, -⟩ := Progress.turn.inj hnext
      refine ⟨_, r, le_rfl, hr, ?_⟩
      rw [if_pos rfl]
      exact hwaits.imp_right fun hout' => ⟨by decide, hout'.2⟩
    | early =>
      obtain ⟨rfl, rfl, -⟩ := Progress.turn.inj hnext
      refine ⟨_, r, le_rfl, hr, ?_⟩
      rw [if_pos rfl]
      exact hwaits.imp_right fun hout' => ⟨by decide, hout'.2⟩
  · rw [if_neg hjk] at hwaits
    refine ⟨j, r', ?_, hr', ?_⟩
    · cases part <;> obtain ⟨rfl, rfl, -⟩ := Progress.turn.inj hnext <;> omega
    · -- the later slots have all their parts left
      split_ifs with hjk'
      · subst hjk'
        cases part <;> obtain ⟨rfl, rfl, -⟩ := Progress.turn.inj hnext
        · exact absurd rfl hjk
        · exact absurd rfl hjk
        · exact absurd rfl hjk
        · exact hwaits
      · exact hwaits

theorem SteadyInv.taken_le (h : SteadyInv srv p req s0 s) (hslot : s.slot k = some (c, fd)) :
    c.traffic.taken.length ≤ totalReplies srv p req s0 k := by
  obtain ⟨i, c0, hi, hc0, -, -, -, -, -, htaking⟩ := h.slot hslot
  obtain ⟨v, got, -, htaken, hgot, -⟩ := htaking.took
  have hsocket := (h.stays k c fd hslot).socket_eq i c0 hi hc0
  have htotal : totalReplies srv p req s0 k = (srv.answers i c0.traffic.socket 0
      ((readCommands c0.traffic.written).1 ++ req.commandsFor p i)).length := by
    unfold totalReplies
    rw [hi, Option.bind_some, hc0]
    rfl
  have hearlier : Connection.earlier c0 c = (readCommands c0.traffic.written).1 := if_pos hsocket
  rw [hearlier, hsocket] at htaken hgot
  rw [htotal, htaken, Servers.answers_append, Nat.zero_add, List.length_append, List.length_append]
  exact Nat.add_le_add_left hgot.length_le _

/-- A part of a turn passes or leaves less work. -/
theorem SteadyInv.part_cases (h : SteadyInv srv p req s0 s)
    (hstep : Step s (.part a) s') (hrule : srv.steadyRuns.step s (.part a) s') :
    ∃ k part revents k' part', s.progress = .turn k part revents ∧
      s'.progress = .turn k' part' revents ∧ s'.pollfds.length = s.pollfds.length ∧
      roundLeft s.pollfds.length k' part' < roundLeft s.pollfds.length k part ∧
      (work srv p req s0 s' = work srv p req s0 s ∧
          (Waiting k part revents → Waiting k' part' revents) ∨
        work srv p req s0 s' < work srv p req s0 s) := by
  have h' := h.step hstep hrule
  cases hstep with
  | @part k part revents r _ e e' jump hturn he hr hrun =>
    have hslot := slot_of_entry he
    have hnodup := h.taking.slots.nodup
    have hmoves := h.moves hturn hr hrun (hrule.2.1 k part revents r a e rfl hturn hr he)
    obtain ⟨k', part', hnext⟩ := next_turn k part revents jump
    obtain ⟨-, -, -, hfd⟩ := slot_eq_some hslot
    have hk := (List.getElem?_eq_some_iff.1 hfd).1
    refine ⟨k, part, revents, k', part', hturn, hnext, List.length_set, roundLeft_next hk hnext, ?_⟩
    obtain ⟨i, c0, -, -, -, htallied, -⟩ := h.slot hslot
    have hexpected := h.taking.serving.slots.reported k part revents hturn k r _ _ le_rfl hr hslot
    rw [if_pos rfl] at hexpected
    have hset : ({ s.setEntry k e' with progress := next k part revents jump } : PollLoop).slot k =
        some (e'.conn, e'.pollfd) := (slot_setEntry hnodup hslot e' k).trans (if_pos rfl)
    have hcases := hmoves.workLeft_lt htallied.tracked.wf (fun hpart hout => ?_)
      (fun hpart hin => ?_) (h'.taken_le hset)
    · rcases hcases with ⟨rfl, rfl, hout, hin⟩ | hlt
      · exact .inl ⟨work_setEntry_self hnodup he _, fun hw => hw.next hr hout hin hnext⟩
      · exact .inr (work_setEntry hnodup hslot _ hlt)
    · have halive := hexpected.signalled.alive (.inr (.inl hout))
      refine (htallied.masked.out_iff halive).1 (hexpected.signalled.out ?_ hout)
      rw [hpart]
      decide
    · exact (h.ahead k part revents hturn).asked k r _ _ le_rfl (fun _ => .inr hpart) hr hin hslot

/-- **A step leaves less to do.** -/
theorem SteadyInv.measure_lt (h : SteadyInv srv p req s0 s) (hstep : Step s ev s')
    (hrule : srv.steadyRuns.step s ev s') :
    measure srv p req s0 s' < measure srv p req s0 s := by
  cases ev with
  | leave =>
    cases hstep with
    | leave hs =>
      unfold measure
      rw [hs]
      show (4 * s.pollfds.length + 2) * work srv p req s0 s + 0 < _
      dsimp only
      omega
  | fail code times => exact absurd rfl (hrule.1.1 code times)
  | report revents =>
    obtain ⟨r, hr, hsome⟩ := (hrule.2.2 revents rfl).waits
    have herr := (hrule.2.2 revents rfl).err r hr
    obtain ⟨j, hj⟩ := List.mem_iff_getElem?.1 hr
    cases hstep with
    | report hs =>
      have hwaiting : Waiting 0 .error revents := by
        refine ⟨j, r, j.zero_le, hj, ?_⟩
        rw [ite_self]
        rcases hsome with hbad | hout | hin
        · cases herr.symm.trans hbad
        · exact .inr ⟨by decide, hout⟩
        · exact .inl hin
      unfold measure
      rw [hs]
      dsimp only
      rw [if_pos hwaiting]
      show (4 * s.pollfds.length + 2) * work srv p req s0 s + _ < _
      simp only [roundLeft, index]
      omega
  | part a =>
    obtain ⟨k, part, revents, k', part', hturn, hturn', hlen, hleft, hwork⟩ := h.part_cases hstep hrule
    unfold measure
    rw [hturn, hturn', hlen]
    dsimp only
    rcases hwork with ⟨hwork, hwaiting⟩ | hwork
    · rw [hwork]
      split_ifs with h1 h2 h2
      · omega
      · omega
      · exact absurd (hwaiting h2) h1
      · omega
    · have hmul : (4 * s.pollfds.length + 2) * work srv p req s0 s' + (4 * s.pollfds.length + 2) ≤
          (4 * s.pollfds.length + 2) * work srv p req s0 s := by
        rw [← Nat.mul_succ]
        exact Nat.mul_le_mul_left _ hwork
      split_ifs <;> omega
  | nextRound =>
    cases hstep with
    | @nextRound k part revents hs hk =>
      have hnot : ¬ Waiting k part revents := by
        rintro ⟨j, r, hj, hr, -⟩
        have hlt := (List.getElem?_eq_some_iff.1 hr).1
        have := (h.ahead k part revents hs).length_eq
        omega
      unfold measure
      rw [hs]
      dsimp only
      rw [if_neg hnot]
      simp only [roundLeft]
      show (4 * s.pollfds.length + 2) * work srv p req s0 s + _ < _
      omega

end PollLoop

/-! ### There is a next step -/

namespace Entry

/-- A part of a turn can be taken if the parser returns. -/
theorem exists_run (hcall : part = .recv → r.in_ = true → ∀ bs d,
    e.conn.recv false a.bytes = (some bs, d) → bs ≠ [] → ∃ x, d.process a.rounds = some x) :
    ∃ jump e', e.run part r a = some (jump, e') := by
  cases part with
  | error => exact ⟨_, _, rfl⟩
  | early => exact ⟨_, _, rfl⟩
  | send => exact ⟨_, _, rfl⟩
  | recv =>
    have hpart : ∃ e', e.recvPart r a = some e' := by
      unfold recvPart
      split_ifs with hin
      · rcases hrecv : e.conn.recv false a.bytes with ⟨nRecv, d⟩
        dsimp only
        split_ifs with hfail
        · exact ⟨_, rfl⟩
        · rcases nRecv with _ | bs
          · exact absurd (.inl rfl) hfail
          · obtain ⟨x, hx⟩ := hcall rfl hin bs d hrecv fun hnil => hfail (.inr (hnil ▸ rfl))
            exact ⟨_, by rw [hx]; rfl⟩
      · exact ⟨_, rfl⟩
    obtain ⟨e', he'⟩ := hpart
    exact ⟨true, e', congrArg (Option.map (true, ·)) he'⟩

/-- Nothing is lost on a socket that takes a byte and has input left. -/
theorem steady_of (h : e.conn.parser.Ok) (herr : r.err = false) {m : ℕ}
    (hroom : a.room = some (m + 1)) {all : Bytes} (hbytes : a.bytes = some all)
    (hleft : part = .early ∨ part = .recv → r.in_ = true → all ≠ []) : e.Steady part r a := by
  have hgives : ∀ isPeek, all ≠ [] → ¬ Fails (e.conn.recv isPeek a.bytes).1 := by
    intro isPeek hne hfails
    rw [Connection.recv_fst, hbytes, Option.map_some] at hfails
    rcases hfails with hnone | hnil
    · cases hnone
    · have hpos := (Connection.prepareRecv_spec h).2.2.1
      rcases List.take_eq_nil_iff.1 (Option.some.inj hnil) with hzero | hnil
      · exact hpos.ne' hzero
      · exact hne hnil
  refine ⟨fun hloses => ?_, fun _ _ hzero => ?_⟩
  · cases part with
    | error => cases herr.symm.trans hloses
    | early => exact hgives true (hleft (.inl rfl) hloses.1) hloses.2.2
    | send => cases hroom.symm.trans hloses.2
    | recv => exact hgives false (hleft (.inr rfl) hloses.1) hloses.2
  · cases hroom.symm.trans hzero

theorem Moves.answered (h : Moves r a e part jump e')
    (h0 : Connection.Started srv p req i c0) (hs' : Connection.Sending c0 e'.conn)
    (htaken : e.conn.traffic.taken <+: srv.replies i e.conn.traffic)
    (hbytes : ∀ all, a.bytes = some all →
      e.conn.traffic.taken ++ all <+: srv.replies i e.conn.traffic) :
    e'.conn.traffic.taken <+: srv.replies i e'.conn.traffic := by
  cases h with
  | passed => exact htaken
  | peeked _ hd =>
    rw [hd.socket.traffic_eq]
    exact htaken
  | sent => exact htaken.trans (h0.replies_mono (c := e.conn) hs' rfl (List.prefix_append _ _))
  | received _ _ hpart hd hp =>
    obtain ⟨all, hall, hpart⟩ := hpart
    rw [traffic_parsed, (hd.processed hp).traffic_eq]
    exact ((List.prefix_append_right_inj _).2 hpart).trans (hbytes all hall)

theorem Moves.socketFd_ne (h : Moves r a e part jump e') (hlive : e.conn.LiveFd)
    (hfd : e.conn.socketFd ≠ 0) : e'.conn.socketFd ≠ 0 := by
  cases h with
  | passed => exact hfd
  | peeked _ hd => exact hd.socket.socketFd_eq ▸ hfd
  | sent => exact hfd
  | @received bs d d' err _ _ _ hd hp =>
    have hd' := hd.processed hp
    have hne : d'.socketFd ≠ 0 := hd'.socketFd_eq ▸ hfd
    refine conn_parsed (Q := fun c => c.socketFd ≠ 0) hne ?_
    rcases Connection.markDead_cases (hd'.liveFd hlive) a.deadTime with ⟨-, hclosed⟩ | ⟨hzero, -⟩
    · exact hclosed.socketFd_lt.ne
    · exact absurd hzero hne

end Entry

namespace Connection

/-- Input is left for a connection whose request has been sent, as long as a reply is owed. -/
theorem Taking.left (h : Taking srv p req i c0 c) (hv : Serving srv p req i c0 c)
    (h0 : Started srv p req i c0) (hs : Sending c0 c) (hex : c.Exchanging)
    (hsent : c.bufferWriter.msgIovlen = 0) : c.Left srv i := by
  obtain ⟨halive, hcase⟩ := hex
  obtain ⟨hcounter, howed⟩ := hcase.resolve_left (absurd hsent)
  have hpos : 0 < req.counterFor i := hv.counter_eq ▸ hcounter
  obtain ⟨v, got, hready, htaken, -, htook⟩ := h.took
  have hunread : c.bufferWriter.unread = [] := by
    unfold BufferWriter.unread BufferWriter.getReadPtr
    rw [hsent, List.take_zero, List.flatten_nil]
  obtain ⟨sent, hwritten, hall⟩ := h0.written hs
  rw [hunread, List.append_nil] at hall
  have hreplies : srv.replies i c.traffic = srv.answers i c.traffic.socket 0 (earlier c0 c) ++
      srv.answers i c.traffic.socket (earlier c0 c).length (req.commandsFor p i) := by
    unfold Servers.replies
    rw [hwritten, hall, ← List.flatMap_append, readCommands_whole (h0.valid_all c),
      Servers.answers_append, Nat.zero_add]
  obtain ⟨cmd, hcmd⟩ := List.exists_mem_of_ne_nil _ h0.commands_ne
  have hne : srv.answers i c.traffic.socket (earlier c0 c).length (req.commandsFor p i) ≠ [] :=
    Servers.answers_ne_nil hcmd ((req.expectsReply_iff hcmd).2 hpos)
  unfold Left
  rw [hreplies, htaken]
  intro heq
  exact htook.owed hready (h.goesOn halive howed) hne (hready.concludes_answers hpos h0.commands_ne)
    (List.append_cancel_left heq)

/-- **The parser returns** on what comes next. -/
theorem Taking.call_returns (h : Taking srv p req i c0 c) (hv : Serving srv p req i c0 c)
    (h0 : Started srv p req i c0) (hs : Sending c0 c) (halive : c.alive = true) (hbs : bs ≠ [])
    (hd : Received c bs d) (hpart : c.traffic.taken ++ bs <+: srv.replies i c.traffic) :
    ∃ m x, d.process m = some x := by
  obtain ⟨v, got, hready, htaken, -, htook⟩ := h.took
  obtain ⟨got', rest, hreceiving⟩ := hv.receiving
  obtain rfl : got = got' := List.append_cancel_left (htaken.symm.trans hreceiving.taken_eq)
  rw [htaken, List.append_assoc] at hpart
  obtain ⟨k, hgot, -⟩ := h0.got_prefix hs hpart
  have hnext : got ++ bs <+:
      srv.answers i c.traffic.socket (earlier c0 c).length (req.commandsFor p i) :=
    hgot.trans (Servers.answers_mono (List.take_prefix k _) _)
  have howed : c.traffic.processed ≠ some .ok := fun hok => by
    rw [← hreceiving.whole, hreceiving.finished halive hok, List.append_nil] at hnext
    have := hnext.length_le
    rw [List.length_append] at this
    exact hbs (List.eq_nil_of_length_eq_zero (by omega))
  have hpos : 0 < req.counterFor i := by
    by_contra hzero
    rw [Servers.answers_eq_nil fun cmd hcmd => by
      simpa using mt (req.expectsReply_iff hcmd).1 hzero] at hnext
    exact hbs (List.append_eq_nil_iff.1 (List.prefix_nil.1 hnext)).2
  obtain ⟨m, e, w, hrun⟩ := htook.call_returns hready (h.goesOn halive howed) hnext
    (hready.concludes_answers hpos h0.commands_ne)
  have hok := hd.ok h.ok
  rw [← hd.view_eq h.ok, ← PacketParser.view_enter, PacketParser.run_view hok.enter] at hrun
  obtain ⟨x, hx, -⟩ := Option.map_eq_some_iff.1 hrun
  exact ⟨m, _, congrArg (Option.map _) hx⟩

end Connection

namespace PollLoop

theorem SteadyInv.rule (h : SteadyInv srv p req s0 s) (hpool : s'.pool = s.pool)
    (hfail : ∀ code times, ev ≠ .fail code times) (hpart : ∀ a, ev ≠ .part a)
    (hreport : ∀ revents, ev = .report revents → srv.Reported s revents) :
    srv.steadyRuns.step s ev s' := by
  refine ⟨⟨hfail, ?_, ?_⟩, fun k part revents r a e hev => absurd hev (hpart a), hreport⟩
  · rw [hpool]
    exact h.taking.serving.socketFd_ne
  · rw [hpool]
    exact h.answered

theorem conns_setEntry_cases {Q : ℕ → Connection → Prop} (hi : s.connAt k = some i)
    (h : ∀ j c, s.pool.conns[j]? = some c → Q j c) (he : Q i e'.conn) {j : ℕ}
    (hj : (s.setEntry k e').pool.conns[j]? = some c) : Q j c := by
  rw [conns_setEntry hi] at hj
  by_cases hij : i = j
  · subst hij
    rw [List.getElem?_set_self (by
      have := (List.getElem?_eq_some_iff.1 hj).1
      rwa [List.length_set] at this)] at hj
    obtain rfl := Option.some.inj hj
    exact he
  · rw [List.getElem?_set_ne hij] at hj
    exact h j c hj

theorem SteadyInv.process_returns (h : SteadyInv srv p req s0 s)
    (hturn : s.progress = .turn k .recv revents) (he : s.entry k = some e) (hr : revents[k]? = some r)
    (hin : r.in_ = true) (hi : s.connAt k = some i) {bytes : Option Bytes}
    (hrecv : e.conn.recv false bytes = (some bs, d)) (hbs : bs ≠ [])
    (hpart : e.conn.traffic.taken ++ bs <+: srv.replies i e.conn.traffic) :
    ∃ m x, d.process m = some x := by
  have hslot := slot_of_entry he
  obtain ⟨j, c0, hj, -, -, -, hstarted, hsending, hserving, htaking⟩ := h.slot hslot
  obtain rfl := Option.some.inj (hi.symm.trans ((h.connAt_eq k).trans hj))
  have hexpected := h.taking.serving.slots.reported k .recv revents hturn k r _ _ le_rfl hr hslot
  rw [if_pos rfl] at hexpected
  have hreceived := (Connection.recv_cases false bytes e.conn).2 bs rfl (congrArg Prod.fst hrecv) hbs
  rw [hrecv] at hreceived
  exact htaking.call_returns hserving hstarted hsending (hexpected.signalled.alive (.inr (.inr hin)))
    hbs hreceived hpart

theorem SteadyInv.exists_part (h : SteadyInv srv p req s0 s) (hturn : s.progress = .turn k part revents)
    (he : s.entry k = some e) (hr : revents[k]? = some r) :
    ∃ ev s', Step s ev s' ∧ srv.steadyRuns.step s ev s' := by
  have hslot := slot_of_entry he
  obtain ⟨i, c0, hi, hc0, hc, htallied, hstarted, hsending, hserving, htaking⟩ := h.slot hslot
  have hat : s.connAt k = some i := (h.connAt_eq k).trans hi
  have hexpected := h.taking.serving.slots.reported k part revents hturn k r _ _ le_rfl hr hslot
  rw [if_pos rfl] at hexpected
  have hahead := h.ahead k part revents hturn
  have herr := hahead.err r (List.mem_of_getElem? hr)
  have hfd := h.taking.serving.socketFd_ne _ (mem_of_entry he)
  obtain ⟨all, hall⟩ := h.answered i _ hc
  -- the parser returns on the bytes that are there
  obtain ⟨m, hm⟩ : ∃ m, part = .recv → r.in_ = true → ∀ bs d,
      e.conn.recv false (some all) = (some bs, d) → bs ≠ [] → ∃ x, d.process m = some x := by
    by_cases hbs : part = .recv ∧ r.in_ = true ∧
      ∃ bs d, e.conn.recv false (some all) = (some bs, d) ∧ bs ≠ []
    · obtain ⟨rfl, hin, bs, d, hrecv, hne⟩ := hbs
      obtain ⟨_, hall', hpart⟩ := Entry.recv_part (congrArg Prod.fst hrecv)
      obtain rfl := Option.some.inj hall'
      obtain ⟨m, x, hx⟩ := h.process_returns hturn he hr hin hat hrecv hne
        (hall ▸ (List.prefix_append_right_inj _).2 hpart)
      refine ⟨m, fun _ _ bs' d' hrecv' _ => ⟨x, ?_⟩⟩
      obtain ⟨-, rfl⟩ := Prod.mk.inj (hrecv.symm.trans hrecv')
      exact hx
    · exact ⟨0, fun hpart hin bs d hrecv hne => absurd ⟨hpart, hin, bs, d, hrecv, hne⟩ hbs⟩
  have hsteady : e.Steady part r { room := some 1, bytes := some all, rounds := m } := by
    refine Entry.steady_of htaking.ok herr rfl rfl fun _ hin hnil => ?_
    refine hahead.left k r i _ _ le_rfl hr hin hat hslot ?_
    rw [← hall, hnil, List.append_nil]
  obtain ⟨jump, e', hrun⟩ := Entry.exists_run
    (a := { room := some 1, bytes := some all, rounds := m }) hm
  have hmoves := Entry.run_moves hrun hsteady herr
  have hsending' := (Entry.run_cases htallied.tracked.live hrun).sending htallied.tracked
    hexpected.signalled.alive (fun hloses => absurd hloses hsteady.1) hsending
  have hanswered := hmoves.answered hstarted hsending' (h.answered i _ hc) fun all' hall' => by
    obtain rfl := Option.some.inj hall'
    rw [hall]
  refine ⟨_, _, .part hturn he hr hrun, ⟨nofun, fun c hc => ?_, fun j c hj => ?_⟩, ?_, nofun⟩
  · obtain ⟨j, hj⟩ := List.mem_iff_getElem?.1 hc
    exact conns_setEntry_cases (Q := fun _ c => c.socketFd ≠ 0) hat
      (fun j c hj => h.taking.serving.socketFd_ne c (List.mem_of_getElem? hj))
      (hmoves.socketFd_ne htallied.tracked.live hfd) hj
  · exact conns_setEntry_cases (Q := fun j c => c.traffic.taken <+: srv.replies j c.traffic) hat
      h.answered hanswered hj
  · intro k' part' revents' r' a' e'' hev hturn' hr' he'
    obtain rfl : _ = a' := Event.part.inj hev
    obtain ⟨rfl, rfl, rfl⟩ := Progress.turn.inj (hturn.symm.trans hturn')
    obtain rfl := Option.some.inj (hr.symm.trans hr')
    obtain rfl := Option.some.inj (he.symm.trans he')
    exact hsteady

/-- `poll` can report something for a connection whose exchange is not over. -/
theorem SteadyInv.exists_report (h : SteadyInv srv p req s0 s) (hs : s.progress = .polling)
    (h0 : s.pool.nActiveConn ≠ 0) (hslot : s.slot k = some (c, fd)) (hex : c.Exchanging) :
    ∃ ev s', Step s ev s' ∧ srv.steadyRuns.step s ev s' := by
  obtain ⟨i, c0, hi, hc0, hc, htallied, hstarted, hsending, hserving, htaking⟩ := h.slot hslot
  have hat : s.connAt k = some i := (h.connAt_eq k).trans hi
  obtain ⟨-, -, -, hfd⟩ := slot_eq_some hslot
  have hk := (List.getElem?_eq_some_iff.1 hfd).1
  -- the request is to be sent, or there is input
  obtain ⟨r, hreports, hsome, herr, hin⟩ : ∃ r, fd.Reports r ∧ r.Some ∧ r.err = false ∧
      (r.in_ = true → c.Left srv i) := by
    have hopen := (h.stays k c fd hslot).fd_nonneg hex.1
    by_cases hleft : c.bufferWriter.msgIovlen = 0
    · have howed := (hex.2.resolve_left (absurd hleft)).2
      refine ⟨{ in_ := true }, ⟨nofun, fun _ => ?_, fun _ => hopen⟩, .inr (.inr rfl), rfl,
        fun _ => htaking.left hserving hstarted hsending hex hleft⟩
      by_contra hnot
      exact howed (htallied.masked.processed hex.1 (by simpa using hnot) hleft)
    · exact ⟨{ out := true }, ⟨fun _ => (htallied.masked.out_iff hex.1).2 hleft, nofun,
        fun _ => hopen⟩, .inr (.inl rfl), rfl, nofun⟩
  have hat' : ∀ j r', ((List.replicate s.pollfds.length ({} : Revents)).set k r)[j]? = some r' →
      j = k ∧ r' = r ∨ r' = {} := by
    intro j r' hj
    by_cases hjk : k = j
    · subst hjk
      rw [List.getElem?_set_self (by rwa [List.length_replicate])] at hj
      exact .inl ⟨rfl, (Option.some.inj hj).symm⟩
    · rw [List.getElem?_set_ne hjk] at hj
      exact .inr (List.eq_of_mem_replicate (List.mem_of_getElem? hj))
  refine ⟨.report ((List.replicate s.pollfds.length ({} : Revents)).set k r), _,
    .report hs h0 ⟨?_, fun j fd' r' hfd' hj => ?_⟩,
    h.rule rfl (fun _ _ hev => Event.noConfusion hev) (fun _ hev => Event.noConfusion hev) ?_⟩
  · rw [List.length_set, List.length_replicate]
  · rcases hat' j r' hj with ⟨rfl, rfl⟩ | rfl
    · obtain rfl := Option.some.inj (hfd.symm.trans hfd')
      exact hreports
    · exact ⟨nofun, nofun, fun hsome => absurd hsome (by decide)⟩
  · rintro revents hrev
    obtain rfl := Event.report.inj hrev
    refine ⟨⟨r, List.mem_of_getElem? (List.getElem?_set_self (by rwa [List.length_replicate])), hsome⟩,
      fun r' hr' => ?_, fun j r' i' c' hj hin' hi' hc' => ?_⟩
    · obtain ⟨j, hj⟩ := List.mem_iff_getElem?.1 hr'
      rcases hat' j r' hj with ⟨-, rfl⟩ | rfl
      · exact herr
      · rfl
    · rcases hat' j r' hj with ⟨rfl, rfl⟩ | rfl
      · obtain rfl := Option.some.inj (hat.symm.trans hi')
        obtain rfl := Option.some.inj (hc.symm.trans hc')
        exact hin hin'
      · cases hin'

/-- **The loop can go on** until it is left. -/
theorem SteadyInv.goes_on (h : SteadyInv srv p req s0 s)
    (hconn : ∀ i ∈ s0.pool.activeConns, i < s0.pool.conns.length) :
    s.progress = .finished ∨ ∃ ev s', Step s ev s' ∧ srv.steadyRuns.step s ev s' := by
  have haligned := h.taking.serving.counted.aligned
  have hslot : ∀ {k i}, s.pool.activeConns[k]? = some i →
      ∃ c fd, s.pool.conns[i]? = some c ∧ s.slot k = some (c, fd) := by
    intro k i hk
    rw [haligned.frame.activeConns] at hk
    have hlt := hconn i (List.mem_of_getElem? hk)
    rw [← haligned.frame.length] at hlt
    have hc := List.getElem?_eq_getElem hlt
    obtain ⟨fd, hfd⟩ := haligned.slot hk hc
    exact ⟨_, fd, hc, hfd⟩
  rcases hs : s.progress with _ | ⟨k, part, revents⟩ | _ | _
  · right
    by_cases h0 : s.pool.nActiveConn = 0
    · exact ⟨.leave, _, .leave hs h0, h.rule rfl (fun _ _ hev => Event.noConfusion hev)
        (fun _ hev => Event.noConfusion hev) fun _ hev => Event.noConfusion hev⟩
    · have hcount := h.taking.counted.1 h.taking.serving.not_broken
      obtain ⟨i, hi, hany⟩ := List.countP_pos_iff.1
        (Nat.pos_of_ne_zero fun hzero => h0 (hcount.trans hzero))
      obtain ⟨k, hk⟩ := List.mem_iff_getElem?.1 hi
      obtain ⟨c, fd, hc, hfd⟩ := hslot hk
      rw [hc] at hany
      exact h.exists_report hs h0 hfd (of_decide_eq_true hany)
  · right
    rcases lt_or_ge k s.pollfds.length with hlt | hge
    · have hk : k < s.pool.activeConns.length := haligned.length_eq ▸ hlt
      obtain ⟨c, fd, -, hfd⟩ := hslot (List.getElem?_eq_getElem hk)
      have he : s.entry k = some ⟨c, fd, s.pool.nActiveConn, s.retCode⟩ := by
        rw [entry_eq, hfd]
        rfl
      have hrlt : k < revents.length := (h.ahead k part revents hs).length_eq ▸ hlt
      exact h.exists_part hs he (List.getElem?_eq_getElem hrlt)
    · exact ⟨.nextRound, _, .nextRound hs hge, h.rule rfl (fun _ _ hev => Event.noConfusion hev)
        (fun _ hev => Event.noConfusion hev) fun _ hev => Event.noConfusion hev⟩
  · exact .inl rfl
  · exact absurd hs h.taking.serving.not_broken

/-- A step of a run in which nothing fails. -/
def SteadyStep (srv : Servers) (s : PollLoop) (ev : Event) (s' : PollLoop) : Prop :=
  Step s ev s' ∧ srv.steadyRuns.step s ev s'

theorem measure_startPoll (p' : ConnectionPool) : measure srv p req s0 p'.startPoll =
    (4 * p'.activeConns.length + 2) * (work srv p req s0 p'.startPoll + 1) := by
  unfold measure
  show (4 * p'.startPoll.pollfds.length + 2) * _ + (4 * p'.startPoll.pollfds.length + 2) = _
  rw [show p'.startPoll.pollfds.length = p'.activeConns.length from List.length_map _, Nat.mul_succ]

end PollLoop

/-- **The loop ends.** As long as nothing fails, the number of its steps is bounded by what is to be
sent and received, and it never stops before it is left by its condition: the parser returns on
whatever is received next. -/
theorem waitPoll_ends (hp : Reachable srv.failingRuns p) (hreq : srv.steadyRuns.request p req)
    {tr : List (Transition PollLoop Event)}
    (h : Run (PollLoop.SteadyStep srv) (req.dispatch p).startPoll tr s) :
    tr.length ≤ (4 * (req.dispatch p).activeConns.length + 2) *
        (PollLoop.work srv p req (req.dispatch p).startPoll (req.dispatch p).startPoll + 1) ∧
      (s.progress = .finished ∨ ∃ ev s', PollLoop.SteadyStep srv s ev s') ∧
      ∀ k revents e r i, s.progress = .turn k .recv revents → s.entry k = some e →
        revents[k]? = some r → r.in_ = true → s.connAt k = some i → ∀ bytes bs d,
          e.conn.recv false bytes = (some bs, d) → bs ≠ [] →
            e.conn.traffic.taken ++ bs <+: srv.replies i e.conn.traffic →
              ∃ m x, d.process m = some x := by
  have hstart := PollLoop.steadyInv_startPoll hp hreq
  have hlen := h.length_le hstart fun s ev s' hs hstep =>
    ⟨hs.step hstep.1 hstep.2, hs.measure_lt hstep.1 hstep.2⟩
  rw [PollLoop.measure_startPoll] at hlen
  have hinv := h.invariant (C := fun _ _ => True) hstart
    (fun s ev s' hs hstep _ => hs.step hstep.1 hstep.2) fun _ _ => trivial
  refine ⟨(Nat.le_add_right _ _).trans hlen, hinv.goes_on fun i hi => ?_, ?_⟩
  · obtain ⟨c, hc, -⟩ := req.alive_dispatch hp.clean hreq.1.1 hi
    exact (List.getElem?_eq_some_iff.1 hc).1
  · intro k revents e r i hturn he hr hin hi bytes bs d hrecv hbs hpart
    exact hinv.process_returns hturn he hr hin hi hrecv hbs hpart

/-- A run of the loop to its end. -/
theorem waitPoll_exists (hp : Reachable srv.failingRuns p) (hreq : srv.steadyRuns.request p req) :
    ∃ code p', (req.dispatch p).WaitPoll srv.steadyRuns.step code p' ∧
      ∀ c ∈ p'.conns, c.socketFd ≠ 0 := by
  have hstart := PollLoop.steadyInv_startPoll hp hreq
  have hconn : ∀ i ∈ (req.dispatch p).activeConns, i < (req.dispatch p).conns.length := fun i hi => by
    obtain ⟨c, hc, -⟩ := req.alive_dispatch hp.clean hreq.1.1 hi
    exact (List.getElem?_eq_some_iff.1 hc).1
  obtain ⟨tr, s, hrun, hs, hfinished⟩ := Run.exists_end hstart
    (fun s ev s' hs (hstep : PollLoop.SteadyStep srv s ev s') =>
      ⟨hs.step hstep.1 hstep.2, hs.measure_lt hstep.1 hstep.2⟩) fun s hs => hs.goes_on hconn
  by_cases hzero : (req.dispatch p).nActiveConn = 0
  · exact ⟨_, _, .idle hzero, hreq.1.2⟩
  · have hsteps : ∀ {tr s}, Run (PollLoop.SteadyStep srv) (req.dispatch p).startPoll tr s →
        PollLoop.Steps srv.steadyRuns.step (req.dispatch p).startPoll s := by
      intro tr s hrun
      induction hrun with
      | nil => exact .refl
      | snoc _ hstep ih => exact ih.tail ⟨_, hstep⟩
    exact ⟨_, _, .run hzero (hsteps hrun) (.inl hfinished), hs.taking.serving.socketFd_ne⟩

/-! ### A run -/

instance (part : Part) (r : Revents) (a : Answers) (e : Entry) : Decidable (e.Steady part r a) := by
  unfold Entry.Steady
  infer_instance

instance (C : Part → Revents → Answers → Entry → Prop) [∀ part r a e, Decidable (C part r a e)]
    (s : PollLoop) (ev : Event) : Decidable (SlotInvariant.PartRule C s ev) :=
  decidable_of_iff (∀ a ∈ (match ev with | .part a => some a | _ => none),
    ∀ x ∈ (match s.progress with | .turn k part revents => some (k, part, revents) | _ => none),
      ∀ r ∈ x.2.2[x.1]?, ∀ e ∈ s.entry x.1, C x.2.1 r a e) <| by
    constructor
    · rintro h k part revents r a e rfl hturn hr he
      rw [hturn] at h
      exact h a rfl _ rfl r hr e he
    · intro h a ha x hx r hr e he
      cases ev with
      | part a' =>
        obtain rfl := Option.some.inj ha
        rcases hs : s.progress with _ | ⟨k, part, revents⟩ | _ | _
        · rw [hs] at hx
          cases hx
        · rw [hs] at hx
          obtain rfl := Option.some.inj hx
          exact h k part revents r _ e rfl hs hr he
        · rw [hs] at hx
          cases hx
        · rw [hs] at hx
          cases hx
      | _ => cases ha

instance (s : PollLoop) (revents : List Revents) : Decidable (srv.Reported s revents) :=
  decidable_of_iff ((∃ r ∈ revents, r.err ∨ r.out ∨ r.in_) ∧ (∀ r ∈ revents, r.err = false) ∧
      ∀ x ∈ revents.zipIdx, x.1.in_ = true → ∀ i ∈ s.connAt x.2, ∀ c ∈ s.pool.conns[i]?,
        c.traffic.taken ≠ srv.replies i c.traffic)
    ⟨fun ⟨hwaits, herr, hin⟩ => ⟨hwaits, herr, fun k r i c hr hrin hi hc =>
        hin (r, k) (List.mem_zipIdx_iff_getElem?.2 hr) hrin i hi c hc⟩,
      fun h => ⟨h.waits, h.err, fun x hx hrin i hi c hc =>
        h.in_ x.2 x.1 i c (List.mem_zipIdx_iff_getElem?.1 hx) hrin hi hc⟩⟩

instance (s : PollLoop) (ev : Event) :
    Decidable (∀ revents, ev = .report revents → srv.Reported s revents) :=
  match ev with
  | .report revents => decidable_of_iff (srv.Reported s revents)
      ⟨fun h _ hev => Event.report.inj hev ▸ h, fun h => h revents rfl⟩
  | .leave => .isTrue fun _ hev => by cases hev
  | .fail _ _ => .isTrue fun _ hev => by cases hev
  | .part _ => .isTrue fun _ hev => by cases hev
  | .nextRound => .isTrue fun _ hev => by cases hev

instance (s : PollLoop) (ev : Event) (s' : PollLoop) : Decidable (srv.steadyRuns.step s ev s') :=
  inferInstanceAs (Decidable (srv.runs.step s ev s' ∧ _ ∧ _))

theorem PollLoop.run_of_execsIf {evs : List Event}
    (h : execsIf srv.steadyRuns.step s evs = some s') :
    ∃ tr, tr.length = evs.length ∧ Run (SteadyStep srv) s tr s' := by
  induction evs using List.reverseRecOn generalizing s' with
  | nil =>
    obtain rfl := Option.some.inj h
    exact ⟨[], rfl, .nil⟩
  | append_singleton evs ev ih =>
    unfold execsIf at h
    rw [List.foldlM_append] at h
    obtain ⟨t, ht, hev⟩ := Option.bind_eq_some_iff.1 h
    obtain ⟨hexec, hrule⟩ := Option.filter_eq_some_iff.1
      (show (t.exec ev).filter (fun s' => srv.steadyRuns.step t ev s') = some s' by simpa using hev)
    obtain ⟨tr, hlen, hrun⟩ := ih ht
    refine ⟨_, ?_, hrun.snoc ⟨step_of_exec ev hexec, of_decide_eq_true hrule⟩⟩
    rw [List.length_append, List.length_append, hlen]
    rfl

/-- The reply comes in two pieces, of which the first has been read. -/
theorem waitPoll_ends_one : ∃ (s : PollLoop) (e : Entry), s.entry 0 = some e ∧
    e.conn.traffic.taken = ascii "EN" ∧ s.pool.nActiveConn = 1 ∧
      16 ≤ 6 * (PollLoop.work Servers.empty (.init 1) getOne (getOne.dispatch (.init 1)).startPoll
        (getOne.dispatch (.init 1)).startPoll + 1) ∧
      (s.progress = .finished ∨ ∃ ev s', PollLoop.SteadyStep Servers.empty s ev s') ∧
      ∃ m x, (e.conn.recv false (some (ascii "D\r\n"))).2.process m = some x := by
  have hroutes : getOne.RoutesLive (.init 1) := by
    refine ⟨fun _ i hi => ?_, trivial⟩
    cases hi
    exact ⟨_, rfl, rfl⟩
  have hexec : (PollLoop.execsIf Servers.empty.steadyRuns.step (getOne.dispatch (.init 1)).startPoll
      [.report [{ out := true }], .part {}, .part {}, .part { room := some 100 }, .part {},
        .nextRound, .report [{ in_ := true }], .part {}, .part {}, .part {},
        .part { bytes := some (ascii "EN"), rounds := 9 }, .nextRound, .report [{ in_ := true }],
        .part {}, .part {}, .part {}]).bind (fun s => (s.entry 0).map fun e =>
          decide (s.progress = .turn 0 .recv [{ in_ := true }] ∧ s.connAt 0 = some 0 ∧
            s.pool.nActiveConn = 1 ∧ e.conn.traffic.taken = ascii "EN" ∧
            (e.conn.recv false (some (ascii "D\r\n"))).1 = some (ascii "D\r\n") ∧
            e.conn.traffic.taken ++ ascii "D\r\n" <+: Servers.empty.replies 0 e.conn.traffic)) =
      some true := by decide +kernel
  obtain ⟨s, hs, hall⟩ := Option.bind_eq_some_iff.1 hexec
  obtain ⟨e, he, hall⟩ := Option.map_eq_some_iff.1 hall
  obtain ⟨hturn, hconn, hactive, htaken, hrecv, hpart⟩ := of_decide_eq_true hall
  have hreq : Servers.empty.steadyRuns.request (.init 1) getOne :=
    ⟨⟨hroutes, by decide⟩, by decide⟩
  obtain ⟨tr, hlen, hrun⟩ := PollLoop.run_of_execsIf hs
  obtain ⟨hle, hnext, hreturns⟩ := waitPoll_ends (.init 1) hreq hrun
  rw [hlen] at hle
  exact ⟨s, e, he, htaken, hactive, hle, hnext,
    hreturns 0 _ e _ 0 hturn he rfl rfl hconn _ _ _ (Prod.ext hrecv rfl) (by decide) hpart⟩

end Libmc
