import Libmc.PollFailed
import Libmc.Routing

/-!
# The counter of the poll loop

`m_nActiveConn` is the number of active connections whose exchange is not over (`Counted`), as long
as nothing happens to those whose exchange is: their descriptors stay in the poll set, and an error
that is reported for one of them counts it down once more, or starts its request again uncounted. The
other ways to go wrong are a complete reply before the request is sent, and descriptor 0, which is
not closed. `waitPoll_counted_iff` says that these are all.
-/

namespace Libmc

variable {c c' d : Connection} {p : ConnectionPool} {s s' s0 : PollLoop} {ev : Event} {r : Revents}
  {a : Answers} {e e' : Entry} {part : Part} {jump : Bool} {i k : ℕ} {fd : PollFd} {rules : Rules}

namespace Connection

/-- The exchange is not over: part of the request has to be sent or a reply is owed, and the
connection is not given up. -/
def Exchanging (c : Connection) : Prop :=
  c.alive = true ∧ (c.bufferWriter.msgIovlen ≠ 0 ∨ 0 < c.counter ∧ c.traffic.processed ≠ some .ok)

instance (c : Connection) : Decidable c.Exchanging := by
  unfold Exchanging
  infer_instance

theorem exchanging_congr (halive : c'.alive = c.alive) (hwriter : c'.bufferWriter = c.bufferWriter)
    (hcounter : c'.counter = c.counter) (hprocessed : c'.traffic.processed = c.traffic.processed) :
    c'.Exchanging ↔ c.Exchanging := by
  unfold Exchanging
  rw [halive, hwriter, hcounter, hprocessed]

theorem exchanging_of_left (halive : c.alive = true) (h : c.bufferWriter.msgIovlen ≠ 0) :
    c.Exchanging := ⟨halive, .inl h⟩

/-- The exchange goes on as long as the parser has not come to the end of the replies. -/
theorem Processed.exchanging_iff {bs : Bytes} {err : ErrCode} (h : Processed c bs err d)
    (herr : err ≠ .ok) (hin : c.counter = 0 ∨ c.Exchanging) : d.Exchanging ↔ c.Exchanging := by
  have howed : d.traffic.processed ≠ some .ok := by
    rw [h.traffic_eq]
    simpa using herr
  unfold Exchanging at hin ⊢
  rw [h.alive_eq, h.bufferWriter_eq, h.counter_eq]
  constructor
  · rintro ⟨halive, hleft | ⟨hpos, -⟩⟩
    · exact ⟨halive, .inl hleft⟩
    · exact hin.resolve_left hpos.ne'
  · rintro ⟨halive, hleft | ⟨hpos, -⟩⟩
    · exact ⟨halive, .inl hleft⟩
    · exact ⟨halive, .inr ⟨hpos, howed⟩⟩

theorem not_exchanging_of_dead (h : c.alive = false) : ¬ c.Exchanging := fun hc => by
  cases h.symm.trans hc.1

theorem exchanging_markDead (h : c.LiveFd) (now : ℤ) :
    (c.markDead now).Exchanging ↔ c.Exchanging ∧ c.socketFd = 0 := by
  rcases markDead_cases h now with ⟨hne, hclosed⟩ | ⟨h0, hsame⟩
  · exact iff_of_false (not_exchanging_of_dead hclosed.alive_eq) fun hc => hne hc.2
  · have hwork := sameWork_markDead now c
    rw [exchanging_congr hsame.alive_eq hwork.bufferWriter_eq hwork.counter_eq
      (by rw [hsame.traffic_eq])]
    exact (and_iff_left h0).symm

end Connection

/-- The number of active connections whose exchange is not over. -/
def ConnectionPool.exchanging (p : ConnectionPool) : ℕ :=
  p.activeConns.countP fun i => p.conns[i]?.any fun c => decide c.Exchanging

/-- The counter is right as long as the loop goes on, and when the loop ends every exchange is over. -/
def PollLoop.Counted (s : PollLoop) : Prop :=
  (s.progress ≠ .broken → s.pool.nActiveConn = s.pool.exchanging) ∧
    (s.Ended → s.pool.exchanging = 0)

/-! ### When it goes wrong -/

/-- Connections are lost only while their exchange is not over, replies are complete only when the
request is sent, and an error in a reply is not for descriptor 0. -/
def Entry.Harmless (part : Part) (r : Revents) (a : Answers) (e : Entry) : Prop :=
  (e.Loses part r a → e.conn.Exchanging) ∧
    ∀ err, part = .recv → e.Gives r a err →
      (err = .ok → e.conn.Exchanging ∧ e.conn.bufferWriter.msgIovlen = 0) ∧
      (err = .programmingErr ∨ err = .mcServerErr → e.conn.Exchanging ∧ e.conn.socketFd ≠ 0)

/-- `poll` does not fail while the exchange on descriptor 0 is not over. -/
def PollLoop.Harmless (s : PollLoop) (ev : Event) : Prop :=
  SlotInvariant.PartRule Entry.Harmless s ev ∧ ∀ code times, ev = .fail code times →
    ∀ i ∈ s.pool.activeConns, ∀ c, s.pool.conns[i]? = some c → c.Exchanging → c.socketFd ≠ 0

/-! ### The parts of a turn -/

/-- A connection and its descriptor. No reply is complete before the request is sent, and no input is
asked for after a reply that is. -/
structure Tallied (c : Connection) (fd : PollFd) : Prop where
  tracked : Tracked c fd
  masked : Masked c fd
  unsent : c.alive = true → c.bufferWriter.msgIovlen ≠ 0 → c.traffic.processed ≠ some .ok
  quiet : c.alive = true → fd.in_ = true → c.counter = 0 ∨ c.Exchanging

/-- What is reported before a part of a turn. -/
structure Expected (part : Part) (r : Revents) (c : Connection) (fd : PollFd) : Prop where
  signalled : Signalled part r c fd
  expected : r.in_ = true → c.counter = 0 ∨ c.Exchanging

theorem Tallied.unprocessed (h : Tallied c fd) (hc : c.Exchanging) :
    c.traffic.processed ≠ some .ok := by
  obtain ⟨halive, hleft | ⟨-, howed⟩⟩ := hc
  · exact h.unsent halive hleft
  · exact howed

/-- A connection whose exchange is not over waits for events. -/
theorem Masked.events (h : Masked c fd) (hc : c.Exchanging) : fd.out = true ∨ fd.in_ = true := by
  by_contra hnot
  rw [not_or, Bool.not_eq_true, Bool.not_eq_true] at hnot
  obtain ⟨halive, hcase⟩ := hc
  have hleft : c.bufferWriter.msgIovlen = 0 := by
    by_contra hleft
    cases hnot.1.symm.trans ((h.out_iff halive).2 hleft)
  rcases hcase with hleft' | ⟨-, howed⟩
  · exact hleft' hleft
  · exact howed (h.processed halive hnot.2 hleft)

namespace Entry

theorem Socket.processed (h : Socket a c c') (hc : c.traffic.processed ≠ some .ok) :
    c'.traffic.processed ≠ some .ok := by
  rcases h with ⟨-, h⟩ | ⟨-, h⟩
  · rw [h.traffic_eq]
    nofun
  · rwa [h.traffic_eq]

theorem exchanging_of_early (halive : e.conn.alive = true) (h : e.conn.bufferWriter.Wf)
    (hsent : e.conn.isSent = false) : e.conn.Exchanging :=
  Connection.exchanging_of_left halive (msgIovlen_of_not_sent h hsent)

theorem exchanging_of_waited (hd : Connection.Waited e.conn d) : d.Exchanging ↔ e.conn.Exchanging :=
  Connection.exchanging_congr hd.socket.alive_eq hd.bufferWriter_eq hd.counter_eq
    (by rw [hd.socket.traffic_eq])

/-- What a part does to the exchange and the counter: nothing, or the exchange ends and is counted
down. -/
inductive Tally (e e' : Entry) : Prop
  | same (hn : e'.nActiveConn = e.nActiveConn) (h : e'.conn.Exchanging ↔ e.conn.Exchanging)
  | down (hn : e'.nActiveConn = decr32 e.nActiveConn) (h : e.conn.Exchanging)
      (h' : ¬ e'.conn.Exchanging)

theorem Effect.tally (h : Effect r a e part jump e') (he : Tallied e.conn e.pollfd)
    (hr : Expected part r e.conn e.pollfd) (hrule : e.Harmless part r a) :
    Tallied e'.conn e'.pollfd ∧ Tally e e' := by
  have htracked := h.tracked he.tracked
  have hmasked := h.masked he.tracked he.masked hr.signalled fun err hpart hgives herr =>
    ((hrule.2 err hpart hgives).2 herr).2
  cases h with
  | idle => exact ⟨he, .same rfl Iff.rfl⟩
  | @rewound _ d _ _ hloses hd h =>
    have hex := hrule.1 hloses
    have hleft : e'.conn.bufferWriter.msgIovlen ≠ 0 := by
      have hwf : d.bufferWriter.Wf := by
        rw [hd.bufferWriter_eq]
        exact he.tracked.wf
      rw [h.bufferWriter_eq]
      exact hwf.rewind.2.2.2
    have hex' := Connection.exchanging_of_left h.alive_eq hleft
    refine ⟨⟨htracked, hmasked, fun _ _ => h.socket.processed ?_, fun _ _ => .inr hex'⟩,
      .same h.nActiveConn_eq (iff_of_true hex' hex)⟩
    rw [hd.socket.traffic_eq]
    exact he.unprocessed hex
  | @resumed d _ hloses hd h =>
    have hex := exchanging_of_early (hr.signalled.alive (.inr (.inr hloses.1))) he.tracked.wf hloses.2.1
    have hleft : e'.conn.bufferWriter.msgIovlen ≠ 0 := by
      rw [h.work.bufferWriter_eq, hd.bufferWriter_eq]
      exact msgIovlen_of_not_sent he.tracked.wf hloses.2.1
    have hex' := Connection.exchanging_of_left h.alive_eq hleft
    refine ⟨⟨htracked, hmasked, fun _ _ => h.socket.processed ?_, fun _ _ => .inr hex'⟩,
      .same h.nActiveConn_eq (iff_of_true hex' hex)⟩
    rw [hd.socket.traffic_eq]
    exact he.unprocessed hex
  | givenUp hloses _ h =>
    have hdead : ¬ e'.conn.alive = true := by simp [h.closed.alive_eq]
    exact ⟨⟨htracked, hmasked, fun halive => absurd halive hdead, fun halive => absurd halive hdead⟩,
      .down h.nActiveConn_eq (hrule.1 hloses)
        (Connection.not_exchanging_of_dead h.closed.alive_eq)⟩
  | @peeked d _ _ _ hd =>
    refine ⟨⟨htracked, hmasked, fun halive hleft => ?_, fun _ hin => by cases hin⟩,
      .same rfl (exchanging_of_waited hd)⟩
    show d.traffic.processed ≠ _
    rw [hd.socket.traffic_eq]
    exact he.unsent (hd.socket.alive_eq.symm.trans halive) (hd.bufferWriter_eq ▸ hleft)
  | @sent n _ hout =>
    have halive := hr.signalled.alive (.inr (.inl hout))
    have hleft := (he.masked.out_iff halive).1 (hr.signalled.out (by decide) hout)
    have howed := he.unsent halive hleft
    have hex := Connection.exchanging_of_left halive hleft
    have hex' : (e.sent n).conn.Exchanging ↔
        ¬ ((e.conn.bufferWriter.commitRead n).msgIovlen = 0 ∧ e.conn.counter = 0) := by
      show e.conn.alive = true ∧ ((e.conn.bufferWriter.commitRead n).msgIovlen ≠ 0 ∨
        0 < e.conn.counter ∧ e.conn.traffic.processed ≠ some .ok) ↔ _
      rw [not_and_or, Nat.pos_iff_ne_zero]
      tauto
    refine ⟨⟨htracked, hmasked, fun _ _ => howed, fun _ _ => ?_⟩, ?_⟩
    · show e.conn.counter = 0 ∨ _
      rw [hex']
      tauto
    · by_cases hdone : (e.conn.bufferWriter.commitRead n).msgIovlen = 0 ∧ e.conn.counter = 0
      · exact .down (if_pos hdone) hex (by rw [hex']; exact not_not_intro hdone)
      · exact .same (if_neg hdone) (iff_of_true (hex'.2 hdone) hex)
  | @received bs d d' err _ hgives _ hd hp =>
    have hd' := hd.processed hp
    have hprocessed : d'.traffic.processed = some err := by rw [hd'.traffic_eq]
    obtain ⟨hok, hfailed⟩ := hrule.2 err rfl hgives
    have hparsed := parsed_cases err a { e with conn := d' }
    generalize parsed err a { e with conn := d' } = e'' at hparsed htracked hmasked ⊢
    cases hparsed with
    | done herr =>
      obtain ⟨hex, hsent⟩ := hok herr
      have hsent' : d'.bufferWriter.msgIovlen = 0 := by
        rw [hd'.bufferWriter_eq]
        exact hsent
      refine ⟨⟨htracked, hmasked, fun _ hleft => absurd hsent' hleft, fun _ hin => by cases hin⟩,
        .down rfl hex ?_⟩
      rintro ⟨-, hleft | ⟨-, howed⟩⟩
      · exact hleft hsent'
      · exact howed (by rw [hprocessed, herr])
    | failed herr =>
      obtain ⟨hex, hne⟩ := hfailed herr
      have hne' : d'.socketFd ≠ 0 := hd'.socketFd_eq ▸ hne
      have hdead := Connection.alive_markDead (hd'.liveFd he.tracked.live) hne' a.deadTime
      have hnot : ¬ (d'.markDead a.deadTime).alive = true := by simp [hdead]
      exact ⟨⟨htracked, hmasked, fun halive => absurd halive hnot, fun halive => absurd halive hnot⟩,
        .down rfl hex (Connection.not_exchanging_of_dead hdead)⟩
    | more herr =>
      have howed : d'.traffic.processed ≠ some .ok := by
        rw [hprocessed]
        simpa using herr
      have hex' := hd'.exchanging_iff herr (hr.expected hgives.1)
      refine ⟨⟨htracked, hmasked, fun _ _ => howed, fun _ _ => ?_⟩, .same rfl hex'⟩
      show d'.counter = 0 ∨ d'.Exchanging
      rw [hex', hd'.counter_eq]
      exact hr.expected hgives.1

theorem Effect.expected (h : Effect r a e part false e') (he : Tallied e.conn e.pollfd)
    (hr : Expected part r e.conn e.pollfd) (he' : Tallied e'.conn e'.pollfd) {part' : Part}
    (hnext : part.next = some part') : Expected part' r e'.conn e'.pollfd := by
  refine ⟨h.signalled he.tracked hr.signalled hnext, fun hin => ?_⟩
  have halive := h.alive_eq.trans (hr.signalled.alive (.inr (.inr hin)))
  cases h with
  | idle => exact hr.expected hin
  | peeked _ _ _ hd =>
    rw [exchanging_of_waited hd, hd.counter_eq]
    exact hr.expected hin
  | sent => exact he'.quiet halive rfl

theorem Gives.not_loses {err : ErrCode} (h : e.Gives r a err) : ¬ e.Loses .recv r a := by
  obtain ⟨-, bs, d, d', hrecv, hbs, -⟩ := h
  rintro ⟨-, hfails⟩
  rw [hrecv] at hfails
  rcases hfails with hnone | hnil
  · cases hnone
  · exact hbs (Option.some.inj hnil)

theorem Gives.unique {err err' : ErrCode} (h : e.Gives r a err) (h' : e.Gives r a err') :
    err = err' := by
  obtain ⟨-, bs, d, _, hrecv, -, hp⟩ := h
  obtain ⟨-, bs', d', _, hrecv', -, hp'⟩ := h'
  obtain rfl : d = d' := (Prod.mk.inj (hrecv.symm.trans hrecv')).2
  exact (Prod.mk.inj (Option.some.inj (hp.symm.trans hp'))).1

theorem Effect.received_cases {err : ErrCode} (h : Effect r a e part jump e') (hpart : part = .recv)
    (hgives : e.Gives r a err) : ∃ bs d d', Connection.Received e.conn bs d ∧ bs ≠ [] ∧
      d.process a.rounds = some (err, d') ∧ e' = parsed err a { e with conn := d' } := by
  cases h with
  | idle _ _ hin => exact absurd hgives.1 (by simp [hin hpart])
  | rewound _ hloses => exact absurd (hpart ▸ hloses) hgives.not_loses
  | givenUp hloses => exact absurd (hpart ▸ hloses) hgives.not_loses
  | resumed => cases hpart
  | peeked => cases hpart
  | sent => cases hpart
  | received _ hgives' hbs hd hp =>
    obtain rfl := hgives.unique hgives'
    exact ⟨_, _, _, hd, hbs, hp, rfl⟩

/-- What goes wrong: an exchange starts that is not counted, or none ends where one is counted
down. -/
inductive Miscount (e e' : Entry) : Prop
  | up (hn : e'.nActiveConn = e.nActiveConn) (h : ¬ e.conn.Exchanging) (h' : e'.conn.Exchanging)
  | down (hn : e'.nActiveConn = decr32 e.nActiveConn) (h : e'.conn.Exchanging ↔ e.conn.Exchanging)

theorem Effect.miscount (h : Effect r a e part jump e') (he : Tallied e.conn e.pollfd)
    (hr : Expected part r e.conn e.pollfd) (hrule : ¬ e.Harmless part r a) : Miscount e e' := by
  have hcases : e.Loses part r a ∧ ¬ e.conn.Exchanging ∨ ∃ err, part = .recv ∧ e.Gives r a err ∧
      (err = .ok ∧ ¬ (e.conn.Exchanging ∧ e.conn.bufferWriter.msgIovlen = 0) ∨
        (err = .programmingErr ∨ err = .mcServerErr) ∧
          ¬ (e.conn.Exchanging ∧ e.conn.socketFd ≠ 0)) := by
    unfold Harmless at hrule
    by_contra hnot
    rw [not_or, not_and, not_not, not_exists] at hnot
    refine hrule ⟨hnot.1, fun err hpart hgives => ⟨fun hok => ?_, fun herr => ?_⟩⟩
    · by_contra hex
      exact hnot.2 err ⟨hpart, hgives, .inl ⟨hok, hex⟩⟩
    · by_contra hex
      exact hnot.2 err ⟨hpart, hgives, .inr ⟨herr, hex⟩⟩
  rcases hcases with ⟨hloses, hex⟩ | ⟨err, rfl, hgives, hcode⟩
  · cases h with
    | idle hkeeps => exact absurd hloses hkeeps
    | peeked hkeeps => exact absurd hloses hkeeps
    | sent hkeeps => exact absurd hloses hkeeps
    | received hkeeps => exact absurd hloses hkeeps
    | @rewound _ d _ _ _ hd h =>
      have hleft : e'.conn.bufferWriter.msgIovlen ≠ 0 := by
        have hwf : d.bufferWriter.Wf := by
          rw [hd.bufferWriter_eq]
          exact he.tracked.wf
        rw [h.bufferWriter_eq]
        exact hwf.rewind.2.2.2
      exact .up h.nActiveConn_eq hex (Connection.exchanging_of_left h.alive_eq hleft)
    | resumed hloses =>
      exact absurd (exchanging_of_early (hr.signalled.alive (.inr (.inr hloses.1))) he.tracked.wf
        hloses.2.1) hex
    | givenUp _ _ h =>
      exact .down h.nActiveConn_eq
        (iff_of_false (Connection.not_exchanging_of_dead h.closed.alive_eq) hex)
  · obtain ⟨bs, d, d', hd, -, hp, rfl⟩ := h.received_cases rfl hgives
    have hd' := hd.processed hp
    have hprocessed : d'.traffic.processed = some err := by rw [hd'.traffic_eq]
    have halive := hr.signalled.alive (.inr (.inr hgives.1))
    have hin := hr.expected hgives.1
    have hparsed := parsed_cases err a { e with conn := d' }
    generalize parsed err a { e with conn := d' } = e'' at hparsed ⊢
    cases hparsed with
    | done herr =>
      refine .down rfl ?_
      have hnot := (hcode.resolve_right (by simp [herr])).2
      show d'.Exchanging ↔ _
      by_cases hleft : e.conn.bufferWriter.msgIovlen = 0
      · refine iff_of_false ?_ fun hex => hnot ⟨hex, hleft⟩
        rintro ⟨-, hleft' | ⟨-, howed⟩⟩
        · exact hleft' (by rw [hd'.bufferWriter_eq]; exact hleft)
        · exact howed (by rw [hprocessed, herr])
      · have hleft' : d'.bufferWriter.msgIovlen ≠ 0 := by
          rw [hd'.bufferWriter_eq]
          exact hleft
        exact iff_of_true (Connection.exchanging_of_left (hd'.alive_eq.trans halive) hleft')
          (Connection.exchanging_of_left halive hleft)
    | failed herr =>
      refine .down rfl ?_
      have hnot := (hcode.resolve_left (by rcases herr with rfl | rfl <;> simp)).2
      have howed : err ≠ .ok := by rcases herr with rfl | rfl <;> nofun
      show (d'.markDead a.deadTime).Exchanging ↔ _
      rw [Connection.exchanging_markDead (hd'.liveFd he.tracked.live), hd'.exchanging_iff howed hin,
        hd'.socketFd_eq]
      exact and_iff_left_of_imp fun hex => by_contra fun hne => hnot ⟨hex, hne⟩
    | more hok hprog hserver =>
      rcases hcode with ⟨rfl, -⟩ | ⟨rfl | rfl, -⟩
      · exact absurd rfl hok
      · exact absurd rfl hprog
      · exact absurd rfl hserver

end Entry

/-! ### The loop -/

theorem countP_update {l : List ℕ} (P Q : ℕ → Bool) (hnodup : l.Nodup) (hi : i ∈ l)
    (h : ∀ j ∈ l, j ≠ i → P j = Q j) :
    l.countP P + (if Q i then 1 else 0) = l.countP Q + if P i then 1 else 0 := by
  have hperm := List.perm_cons_erase hi
  have hrest : (l.erase i).countP P = (l.erase i).countP Q := by
    refine List.countP_congr fun j hj => ?_
    obtain ⟨hne, hmem⟩ := hnodup.mem_erase_iff.1 hj
    rw [h j hmem hne]
  rw [hperm.countP_eq P, hperm.countP_eq Q, List.countP_cons, List.countP_cons, hrest]
  omega

namespace PollLoop

/-- A turn changes the count by its own exchange. -/
theorem exchanging_setEntry (hnodup : s.pool.activeConns.Nodup) (hslot : s.slot k = some (c, fd))
    (e : Entry) : (s.setEntry k e).pool.exchanging + (if c.Exchanging then 1 else 0) =
      s.pool.exchanging + if e.conn.Exchanging then 1 else 0 := by
  obtain ⟨i, hi, hc, -⟩ := slot_eq_some hslot
  have hlt := (List.getElem?_eq_some_iff.1 hc).1
  have hconns := conns_setEntry hi e
  have hupdate := countP_update
    (fun j => (s.setEntry k e).pool.conns[j]?.any fun c => decide c.Exchanging)
    (fun j => s.pool.conns[j]?.any fun c => decide c.Exchanging) hnodup (List.mem_of_getElem? hi)
    fun j _ hj => by rw [hconns, List.getElem?_set_ne (Ne.symm hj)]
  simp only [List.getElem?_set_self hlt, hconns, hc, Option.any_some, decide_eq_true_eq] at hupdate
  have hpool : (s.setEntry k e).pool.exchanging = s.pool.activeConns.countP fun j =>
      (s.pool.conns.set i e.conn)[j]?.any fun c => decide c.Exchanging := by
    unfold ConnectionPool.exchanging
    rw [hconns]
    rfl
  rw [hpool]
  exact hupdate

def countSlot : SlotInvariant where
  holds _ c fd := Tallied c fd
  reported := Expected

theorem local_countSlot : countSlot.Local Entry.Harmless where
  report _ _ _ _ h hr :=
    ⟨⟨h.tracked.alive hr, fun _ => hr.1, fun hin => .inl (hr.2.1 hin)⟩,
      fun hin => h.quiet (h.tracked.alive hr (.inr (.inr hin))) (hr.2.1 hin)⟩
  part k part r a e jump e' htallied hr hrule hrun := by
    have heffect := Entry.run_cases htallied.tracked.live hrun
    have htallied' := (heffect.tally htallied hr hrule).1
    refine ⟨htallied', ?_⟩
    rintro rfl part' hnext
    exact heffect.expected htallied hr htallied' hnext

structure CountInv (s0 s : PollLoop) : Prop where
  aligned : Aligned s0 s
  length_lt : s.pool.activeConns.length < 2 ^ 32
  slots : s.progress ≠ .broken → countSlot.Inv s
  count : s.progress ≠ .broken → s.pool.nActiveConn = s.pool.exchanging

theorem exchanging_le (s : PollLoop) : s.pool.exchanging ≤ s.pool.activeConns.length :=
  List.countP_le_length

theorem nActiveConn_of_entry (h : s.entry k = some e) : e.nActiveConn = s.pool.nActiveConn := by
  rw [entry_eq, Option.map_eq_some_iff] at h
  obtain ⟨x, -, rfl⟩ := h
  rfl

theorem decr32_eq {n : ℕ} (hpos : 0 < n) (hlt : n < 2 ^ 32) : decr32 n + 1 = n := by
  unfold decr32
  omega

theorem decr32_ne (n : ℕ) : decr32 n ≠ n := by
  unfold decr32
  omega

theorem exchanging_pos (hi : i ∈ s.pool.activeConns) (hc : s.pool.conns[i]? = some c)
    (hex : c.Exchanging) : 0 < s.pool.exchanging :=
  List.countP_pos_iff.2 ⟨i, hi, by rw [hc]; exact decide_eq_true hex⟩

namespace CountInv

/-- When `poll` fails, every connection is marked dead whose exchange is not over. -/
theorem exchanging_fail (h : CountInv s0 s) (hs : s.progress ≠ .broken) (times : ℕ → ℤ) :
    (s.pool.markDeadAll (some s.pollfds) times).exchanging = 0 ↔
      ∀ i ∈ s.pool.activeConns, ∀ c, s.pool.conns[i]? = some c → c.Exchanging → c.socketFd ≠ 0 := by
  have hslots := h.slots hs
  have hframe := ConnectionPool.frame_markDeadAll (some s.pollfds) times s.pool
  unfold ConnectionPool.exchanging
  rw [hframe.activeConns, List.countP_eq_zero]
  refine forall₂_congr fun i hi => ?_
  obtain ⟨k, hk⟩ := List.mem_iff_getElem?.1 hi
  have hk0 : s0.connAt k = some i := by
    unfold connAt
    rw [← h.aligned.frame.activeConns]
    exact hk
  rcases hc : s.pool.conns[i]? with _ | c
  · have hnone : (s.pool.markDeadAll (some s.pollfds) times).conns[i]? = none := by
      rw [List.getElem?_eq_none_iff] at hc ⊢
      rw [hframe.length]
      exact hc
    simp [hnone]
  · obtain ⟨fd, hslot⟩ := h.aligned.slot hk0 hc
    obtain ⟨htracked, hmasked, -, -⟩ := hslots.slots k c fd hslot
    rw [markDeadAll_slot hslots.nodup hk hslot times, Option.any_some, decide_eq_true_eq]
    have hmarked : (if fd.out || fd.in_ then c.markDead (times k) else c).Exchanging ↔
        c.Exchanging ∧ c.socketFd = 0 := by
      split_ifs with hevents
      · exact Connection.exchanging_markDead htracked.live (times k)
      · have hnot : ¬ c.Exchanging := fun hex => hevents (by simpa using hmasked.events hex)
        exact iff_of_false hnot fun hex => hnot hex.1
    rw [hmarked, not_and]
    simp

theorem step (h : CountInv s0 s) (hstep : Step s ev s') (hrule : s.Harmless ev) :
    CountInv s0 s' ∧ s'.Counted := by
  have hs := SlotInvariant.step_not_broken hstep
  have hslots := h.slots hs
  have haligned := h.aligned.step hstep
  have hlength : s'.pool.activeConns.length < 2 ^ 32 := by
    rw [hstep.frame.activeConns]
    exact h.length_lt
  have hslots' := fun hs' => hslots.step local_countSlot hstep hrule.1 hs'
  cases hstep with
  | leave _ h0 =>
    exact ⟨⟨haligned, hlength, hslots', fun _ => h.count hs⟩, fun _ => h.count hs,
      fun _ => (h.count hs).symm.trans h0⟩
  | fail =>
    exact ⟨⟨haligned, hlength, hslots', fun hs' => absurd rfl hs'⟩, fun hs' => absurd rfl hs',
      fun _ => (h.exchanging_fail hs _).2 (hrule.2 _ _ rfl)⟩
  | report =>
    refine ⟨⟨haligned, hlength, hslots', fun _ => h.count hs⟩, fun _ => h.count hs, ?_⟩
    rintro (hend | hend) <;> cases hend
  | @part k part revents r a e e' jump hturn hentry hr hrun =>
    have hslot := slot_of_entry hentry
    have he := hslots.slots k _ _ hslot
    have hexpected := hslots.reported k part revents hturn k r _ _ le_rfl hr hslot
    rw [if_pos rfl] at hexpected
    have htally := ((Entry.run_cases he.tracked.live hrun).tally he hexpected
      (hrule.1 k part revents r a e rfl hturn hr hentry)).2
    have hset := exchanging_setEntry hslots.nodup hslot e'
    have hn := nActiveConn_of_entry hentry
    have hcount : e'.nActiveConn = (s.setEntry k e').pool.exchanging := by
      have hbefore := h.count hs
      have hlt := (exchanging_le s).trans_lt h.length_lt
      cases htally with
      | same heq hiff =>
        rw [if_congr hiff rfl rfl] at hset
        omega
      | down heq hex hex' =>
        rw [if_pos hex, if_neg hex'] at hset
        have hdecr := decr32_eq (n := e.nActiveConn) (by omega) (by omega)
        omega
    refine ⟨⟨haligned, hlength, hslots', fun _ => hcount⟩, fun _ => hcount, ?_⟩
    unfold Ended next
    intro hend
    split at hend <;> simp at hend
  | nextRound =>
    refine ⟨⟨haligned, hlength, hslots', fun _ => h.count hs⟩, fun _ => h.count hs, ?_⟩
    rintro (hend | hend) <;> cases hend

theorem not_counted (h : CountInv s0 s) (hstep : Step s ev s') (hrule : ¬ s.Harmless ev) :
    ¬ s'.Counted := by
  have hs := SlotInvariant.step_not_broken hstep
  have hslots := h.slots hs
  unfold PollLoop.Harmless at hrule
  rw [not_and_or] at hrule
  rcases hrule with hpart | hfail
  · unfold SlotInvariant.PartRule at hpart
    push Not at hpart
    obtain ⟨k, part, revents, r, a, e, rfl, hturn, hr, hentry, hharm⟩ := hpart
    cases hstep with
    | @part k' part' revents' r' _ e₁ e' jump hturn' hentry' hr' hrun =>
      obtain ⟨rfl, rfl, rfl⟩ : k' = k ∧ part' = part ∧ revents' = revents := by
        simpa using hturn'.symm.trans hturn
      obtain rfl := Option.some.inj (hr'.symm.trans hr)
      obtain rfl := Option.some.inj (hentry'.symm.trans hentry)
      have hslot := slot_of_entry hentry
      have he := hslots.slots _ _ _ hslot
      have hexpected := hslots.reported _ _ _ hturn' _ _ _ _ le_rfl hr' hslot
      rw [if_pos rfl] at hexpected
      have hmiscount := (Entry.run_cases he.tracked.live hrun).miscount he hexpected hharm
      have hset := exchanging_setEntry hslots.nodup hslot e'
      have hn := nActiveConn_of_entry hentry
      rintro ⟨hcount, -⟩
      have hafter : e'.nActiveConn = (s.setEntry k' e').pool.exchanging := hcount (by
        unfold next
        split <;> nofun)
      have hbefore := h.count hs
      cases hmiscount with
      | up heq hex hex' =>
        rw [if_neg hex, if_pos hex'] at hset
        omega
      | down heq hiff =>
        rw [if_congr hiff rfl rfl] at hset
        exact decr32_ne e₁.nActiveConn (by omega)
  · push Not at hfail
    obtain ⟨code, times, rfl, hfd⟩ := hfail
    cases hstep with
    | fail =>
      rintro ⟨-, hend⟩
      obtain ⟨i, hi, c, hc, hex, h0⟩ := hfd
      exact (h.exchanging_fail hs times).1 (hend (.inr rfl)) i hi c hc hex h0

end CountInv

end PollLoop

/-- When the loop starts, no exchange is over. -/
theorem exchanging_dispatch (hp : Reachable rules p) {req : Request} (hroutes : req.RoutesLive p) :
    (req.dispatch p).exchanging = (req.dispatch p).activeConns.length := by
  refine List.countP_eq_length.2 fun i hi => ?_
  obtain ⟨k, hk⟩ := List.mem_iff_getElem?.1 hi
  obtain ⟨c, hc, halive⟩ := req.alive_dispatch hp.clean hroutes hi
  obtain ⟨fd, hslot⟩ := (PollLoop.aligned_startPoll (req.dispatch p)).slot hk hc
  obtain ⟨-, -, hleft, -⟩ := req.slot_dispatch hp hslot
  rw [hc]
  exact decide_eq_true (Connection.exchanging_of_left halive hleft)

theorem countInv_startPoll (hp : Reachable rules p) {req : Request} (hroutes : req.RoutesLive p)
    (hlength : (req.dispatch p).activeConns.length < 2 ^ 32) :
    PollLoop.CountInv (req.dispatch p).startPoll (req.dispatch p).startPoll where
  aligned := PollLoop.aligned_startPoll _
  length_lt := hlength
  slots _ := by
    refine SlotInvariant.inv_startPoll (req.dispatch_active hp.clean).1 fun k i c hi hc => ?_
    obtain ⟨fd, hslot⟩ := (PollLoop.aligned_startPoll (req.dispatch p)).slot hi hc
    obtain ⟨rfl, htracked, hleft, -⟩ := req.slot_dispatch hp hslot
    have hnone := req.unprocessed_dispatch hp.unprocessed c
      (List.mem_of_getElem? hc)
    refine ⟨htracked, ⟨fun _ => iff_of_true rfl hleft, fun _ hin => by cases hin⟩,
      fun _ _ => by rw [hnone]; nofun, fun halive _ => .inr ?_⟩
    exact Connection.exchanging_of_left halive hleft
  count _ := by
    show (req.dispatch p).nActiveConn = (req.dispatch p).exchanging
    rw [(req.dispatch_active hp.clean).2, exchanging_dispatch hp hroutes, Nat.mod_eq_of_lt hlength]

/-- **The counter of the poll loop.** In a run of `waitPoll` the counter is the number of active
connections whose exchange is not over, and every exchange is over when the loop ends, exactly if
there are fewer than `2 ^ 32` connections and every step meets the condition. -/
theorem waitPoll_counted_iff (hp : Reachable rules p) {req : Request} (hroutes : req.RoutesLive p)
    {tr : List (Transition PollLoop Event)}
    (h : Run PollLoop.Step (req.dispatch p).startPoll tr s) :
    ((req.dispatch p).startPoll.Counted ∧ ∀ x ∈ tr, x.after.Counted) ↔
      (req.dispatch p).activeConns.length < 2 ^ 32 ∧ ∀ x ∈ tr, x.before.Harmless x.event := by
  by_cases hlength : (req.dispatch p).activeConns.length < 2 ^ 32
  · have hinit := countInv_startPoll hp hroutes hlength
    have hcounted : (req.dispatch p).startPoll.Counted := by
      refine ⟨hinit.count, ?_⟩
      rintro (hend | hend) <;> cases hend
    rw [and_iff_right hcounted, and_iff_right hlength]
    exact h.forall_iff (I := PollLoop.CountInv (req.dispatch p).startPoll)
      (P := fun x => x.after.Counted) hinit
      (fun s ev s' hs hstep hrule => hs.step hstep hrule)
      fun s ev s' hs hstep hrule => hs.not_counted hstep hrule
  · refine iff_of_false (fun hall => hlength ?_) fun hall => hlength hall.1
    -- the counter has wrapped around
    have hcount : (req.dispatch p).nActiveConn = (req.dispatch p).exchanging := hall.1.1 nofun
    rw [(req.dispatch_active hp.clean).2, exchanging_dispatch hp hroutes] at hcount
    rw [← hcount]
    exact Nat.mod_lt _ (by decide)

/-- Two servers are told to forget a key each. -/
def forgetTwo : Request :=
  .deletion true [(ascii "a", { tried := [(0, ⟨0, some 5⟩)], conn := some 0 }),
    (ascii "b", { tried := [(1, ⟨0, some 6⟩)], conn := some 1 })]

theorem forgetTwo_routes : forgetTwo.RoutesLive (.init 2) := by
  refine ⟨fun _ i hi => ?_, fun _ i hi => ?_, trivial⟩
  · cases hi
    exact ⟨_, rfl, rfl⟩
  · cases hi
    exact ⟨_, rfl, rfl⟩

/-- The first request is sent. -/
theorem waitPoll_counted_first : ∃ s : PollLoop, s.pool.nActiveConn = 1 ∧ s.Counted := by
  have hreport : Run PollLoop.Step (forgetTwo.dispatch (.init 2)).startPoll _ _ :=
    .snoc .nil (PollLoop.step_of_exec (.report [{ out := true }, {}]) rfl)
  have herror := hreport.snoc (PollLoop.step_of_exec (.part {}) rfl)
  have hearly := herror.snoc (PollLoop.step_of_exec (.part {}) rfl)
  have hsend := hearly.snoc (PollLoop.step_of_exec (.part { room := some 100 }) rfl)
  refine ⟨_, by decide, ((waitPoll_counted_iff (.init 2 : Reachable {} _) forgetTwo_routes
    hsend).2 ⟨by decide, fun x hx => ⟨fun k part revents r a e hev hturn hr _ => ?_, ?_⟩⟩).2 _
    (List.mem_append_right _ (List.mem_singleton_self _))⟩
  · -- no part of the run loses the connection or receives
    simp only [List.nil_append, List.cons_append, List.mem_cons, List.not_mem_nil, or_false] at hx
    rcases hx with rfl | rfl | rfl | rfl
    · cases hev
    · cases hturn
      cases hr
      exact ⟨fun hloses => (by cases hloses), fun _ hpart => (by cases hpart)⟩
    · cases hturn
      cases hr
      exact ⟨fun hloses => (by cases hloses.1), fun _ hpart => (by cases hpart)⟩
    · cases hev
      cases hturn
      exact ⟨fun hloses => (by cases hloses.2), fun _ hpart => (by cases hpart)⟩
  · simp only [List.nil_append, List.cons_append, List.mem_cons, List.not_mem_nil, or_false] at hx
    rintro code times hev
    rcases hx with rfl | rfl | rfl | rfl <;> cases hev

/-- An error is reported for the connection whose request was sent. It is counted down a second time,
and the loop ends while the other request has not been sent. -/
theorem waitPoll_not_counted : ¬ ∀ (p : ConnectionPool) (req : Request) (s : PollLoop)
    (tr : List (Transition PollLoop Event)), Reachable {} p → req.RoutesLive p →
      Run PollLoop.Step (req.dispatch p).startPoll tr s → ∀ x ∈ tr, x.after.Counted := by
  intro h
  have hexec : ((forgetTwo.dispatch (.init 2)).startPoll.execs
      [.report [{ out := true }, {}], .part {}, .part {}, .part { room := some 100 }, .part {},
        .part {}, .part {}, .part {}, .part {}, .nextRound,
        .report [{ err := true }, {}], .part {}, .part {}, .part {}, .part {}, .part {}, .nextRound,
        .leave]).map (fun s => (s.progress, s.pool.exchanging)) = some (.finished, 1) := by decide
  obtain ⟨s, hs, hpair⟩ := Option.map_eq_some_iff.1 hexec
  obtain ⟨hfinished, hcount⟩ := Prod.mk.inj hpair
  obtain ⟨tr, hrun, x, hx, rfl⟩ := PollLoop.run_of_execs hs (by simp)
  obtain ⟨-, hend⟩ := h _ forgetTwo _ tr (.init 2) forgetTwo_routes hrun x hx
  rw [hend (.inl hfinished)] at hcount
  cases hcount

end Libmc
