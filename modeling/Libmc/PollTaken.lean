import Libmc.PollDone

/-!
# What the parser makes of what is taken

In the loop of a command a connection receives the replies piece by piece, with a call of the parser
after each. What the calls leave is what one call on all the bytes would leave (`Took.returns`), so
the results of a connection are those of the part of the answers that it has taken, whether the
command has succeeded or not (`waitPoll_taken`). Here `poll` may fail: that ends the loop, and the
connections whose exchange is not over are marked dead.
-/

namespace Libmc

/-! ### Pieces -/

namespace PacketParser

variable {v u w : Flat} {last : Option ErrCode} {got bs : Bytes} {err : ErrCode} {n : ℕ}

/-- What is left of a parser that has been given bytes in pieces, with a call after each until one
is content, and the code of the last call. -/
inductive Took (v : Flat) : Bytes → Option ErrCode → Flat → Prop
  | nil : Took v [] none v
  | fed {pieces : List Bytes} {n : ℕ} {e : ErrCode} {w : Flat} (hne : pieces ≠ [])
      (hpieces : ∀ b ∈ pieces, b ≠ []) (h : flatMachine.feedPieces n v pieces = some (e, w, [])) :
      Took v pieces.flatten (some e) w

theorem Took.call (h : v.Took got last u)
    (hlast : last = none ∨ last = some .incompleteBufferErr) (hbs : bs ≠ [])
    (hrun : Loop.run body n (u.feed bs).enter = some (err, w)) :
    v.Took (got ++ bs) (some err) w := by
  cases h with
  | nil =>
    have hone : flatMachine.feedPieces n v [bs] = some (err, w, []) := by
      have hcall : flatMachine.call n (flatMachine.feed v bs) = some (err, w) := hrun
      rw [Incremental.feedPieces_cons, hcall, Option.bind_some, if_neg fun h => h.2 rfl]
    have htook := Took.fed (List.cons_ne_nil bs []) (List.forall_mem_singleton.2 hbs) hone
    rwa [List.flatten_singleton] at htook
  | @fed pieces m e _ hne hpieces h =>
    obtain rfl : e = .incompleteBufferErr := by simpa using hlast
    obtain ⟨k, hk⟩ := Incremental.feedPieces_concat (M := flatMachine) (c := bs) h hrun
    have htook := Took.fed (List.append_ne_nil_of_right_ne_nil pieces (List.cons_ne_nil bs []))
      (List.forall_mem_append.2 ⟨hpieces, List.forall_mem_singleton.2 hbs⟩) hk
    rwa [List.flatten_append, List.flatten_singleton] at htook

theorem Took.eq_of_nil (h : v.Took [] last w) : last = none ∧ w = v := by
  generalize hgot : ([] : Bytes) = got at h
  cases h with
  | nil => exact ⟨rfl, rfl⟩
  | @fed pieces n e w hne hpieces h =>
    obtain ⟨b, hb⟩ := List.exists_mem_of_ne_nil _ hne
    exact absurd (List.flatten_eq_nil_iff.1 hgot.symm b hb) (hpieces b hb)

/-- **The pieces do not matter.** What the calls leave is what a call on all the bytes leaves. -/
theorem Took.returns (h : v.Took got (some err) w) {e : ErrCode} {u : Flat}
    (hret : Loop.Returns body (v.feed got).enter (e, u)) : e = err ∧ u = w := by
  cases h with
  | fed hne _ h =>
    obtain ⟨m, hm⟩ := hret
    exact flatMachine_resumable.feedPieces_eq_whole h hne hm

/-- Nothing has been given, or what is left is what a call on all the bytes leaves. -/
theorem Took.cases {ks : List Bytes} {md : ParserMode} (h : v.Took got last w) (hv : v.Ready ks md)
    {e : ErrCode} (hret : Loop.Returns body (v.feed got) (e, u)) :
    (got = [] ∧ last = none ∧ w = v) ∨ (last = some e ∧ w = u) := by
  cases last with
  | none =>
    cases h with
    | nil => exact .inl ⟨rfl, rfl, rfl⟩
  | some err =>
    have henter : (v.feed got).enter = v.feed got := by
      unfold enter
      rw [show (v.feed got).state = v.state from rfl, hv.state]
      rfl
    obtain ⟨rfl, rfl⟩ := h.returns (henter.symm ▸ hret)
    exact .inr ⟨rfl, rfl⟩

end PacketParser

variable {c c' c0 d : Connection} {p p' : ConnectionPool} {s s' s0 : PollLoop} {ev : Event}
  {r : Revents} {a : Answers} {e e' : Entry} {part : Part} {jump : Bool} {i k n socket : ℕ}
  {rules : Rules} {srv : Servers} {req : Request} {got bs : Bytes} {err code : ErrCode}

/-! ### A connection in the loop -/

namespace Connection

/-- What a connection has taken of the answers to the command, and what its parser makes of it. -/
structure Taking (srv : Servers) (p : ConnectionPool) (req : Request) (i : ℕ) (c0 c : Connection) :
    Prop where
  ok : c.parser.Ok
  took : ∃ v got, PacketParser.Ready v (req.keysFor i) req.parserMode ∧
    c.traffic.taken = srv.answers i c.traffic.socket 0 (earlier c0 c) ++ got ∧
    got <+: srv.answers i c.traffic.socket (earlier c0 c).length (req.commandsFor p i) ∧
    v.Took got c.traffic.processed c.parser.view
  goesOn : c.alive = true → c.traffic.processed ≠ some .ok →
    c.traffic.processed = none ∨ c.traffic.processed = some .incompleteBufferErr

theorem Taking.congr (h : Taking srv p req i c0 c) (hok : c'.parser.Ok)
    (halive : c'.alive = true → c.alive = true)
    (hsocket : c'.traffic.socket = c.traffic.socket) (htaken : c'.traffic.taken = c.traffic.taken)
    (hprocessed : c'.traffic.processed = c.traffic.processed)
    (hview : c'.parser.view = c.parser.view) : Taking srv p req i c0 c' where
  ok := hok
  took := by
    rw [hsocket, earlier_congr hsocket, htaken, hprocessed, hview]
    exact h.took
  goesOn hlive hne := hprocessed ▸ h.goesOn (halive hlive) (hprocessed ▸ hne)

theorem taking_new (hok : c.parser.Ok)
    (hready : c.parser.view.Ready (req.keysFor i) req.parserMode)
    (htraffic : c.traffic = { socket := socket }) (hne : socket ≠ c0.traffic.socket) :
    Taking srv p req i c0 c := by
  have hearlier : earlier c0 c = [] := earlier_of_ne (by rw [htraffic]; exact hne)
  refine ⟨hok, ⟨_, [], hready, ?_, List.nil_prefix, ?_⟩, fun _ _ => .inl (by rw [htraffic])⟩
  · rw [hearlier, htraffic]
    rfl
  · rw [htraffic]
    exact .nil

theorem Started.taking (h0 : Started srv p req i c) (hok : c.parser.Ok)
    (hready : c.parser.view.Ready (req.keysFor i) req.parserMode)
    (hnone : c.traffic.processed = none) : Taking srv p req i c c := by
  have hearlier : earlier c c = (readCommands c.traffic.written).1 := if_pos rfl
  refine ⟨hok, ⟨_, [], hready, ?_, List.nil_prefix, ?_⟩, fun _ _ => .inl hnone⟩
  · rw [hearlier, List.append_nil]
    exact h0.answered.taken_eq
  · rw [hnone]
    exact .nil

theorem Taking.markDead (h : Taking srv p req i c0 c) (now : ℤ) :
    Taking srv p req i c0 (c.markDead now) := by
  have htraffic := traffic_markDead now c
  have hparser := (sameWork_markDead now c).parser_eq
  refine h.congr (hparser ▸ h.ok) (fun halive => ?_) (by rw [htraffic]) (by rw [htraffic])
    (by rw [htraffic]) (by rw [hparser])
  by_contra hdead
  unfold Connection.markDead at halive
  rw [if_neg hdead] at halive
  exact hdead halive

end Connection

/-! ### The parts of a turn -/

namespace Entry

theorem Effect.taking (h : Effect r a e part jump e') (he : Tallied e.conn e.pollfd)
    (hr : Expected part r e.conn e.pollfd) (h0 : Connection.Started srv p req i c0)
    (hs : Connection.Sending c0 e.conn) (hv : Connection.Serving srv p req i c0 e.conn)
    (hrule : e.Timely part r a) (hfd : e.conn.socketFd ≠ 0)
    (hanswered : e'.conn.traffic.taken <+: srv.replies i e'.conn.traffic)
    (ht : Connection.Taking srv p req i c0 e.conn) :
    Connection.Taking srv p req i c0 e'.conn := by
  have hwaited : ∀ {d}, Connection.Waited e.conn d → Connection.Taking srv p req i c0 d :=
    fun hd => ht.congr (hd.replies.ok ht.ok) hd.socket.alive_eq.symm.trans
      (by rw [hd.socket.traffic_eq]) (by rw [hd.socket.traffic_eq]) (by rw [hd.socket.traffic_eq])
      (hd.replies.view_eq ht.ok)
  -- a new socket has a later number
  have hnew : ∀ {d}, Connection.Waited e.conn d → d.traffic.socket + 1 ≠ c0.traffic.socket := by
    intro d hd
    rw [hd.socket.traffic_eq]
    have := hs.socket_le
    omega
  cases h with
  | idle => exact ht
  | @rewound _ d _ _ _ hd h =>
    have hvd := hv.waited hd
    rcases h.socket with ⟨-, hre⟩ | ⟨hzero, -⟩
    · refine Connection.taking_new (h.ok hvd.ok) ?_ hre.traffic_eq (hnew hd)
      rw [h.view_eq hvd.ok]
      exact ⟨rfl, rfl, rfl, hvd.requestKeys, hvd.mode, rfl, rfl, rfl, rfl⟩
    · exact absurd (hd.socket.socketFd_eq.symm.trans hzero) hfd
  | @resumed d _ hloses hd h heq =>
    have halive := hr.signalled.alive hloses.some
    have hmisses : e.Misses .early a := by
      unfold Misses
      rw [if_pos rfl]
      exact ⟨hfd, (restarted_alive he.tracked.live halive hfd).1 (heq ▸ h.alive_eq)⟩
    -- nothing has been sent, so nothing has been taken
    obtain ⟨v, got, hready, htaken, -, htook⟩ := ht.took
    have hle := hv.answered
    rw [h0.replies_unsent hs (hrule.2 hloses hmisses), htaken] at hle
    obtain rfl : got = [] := List.append_right_eq_self.1
      (hle.eq_of_length_le (List.prefix_append _ _).length_le)
    obtain ⟨-, hview⟩ := htook.eq_of_nil
    rcases h.socket with ⟨-, hre⟩ | ⟨hzero, -⟩
    · refine Connection.taking_new (h.work.parser_eq ▸ (hwaited hd).ok) ?_ hre.traffic_eq (hnew hd)
      rw [h.work.parser_eq, hd.replies.view_eq ht.ok, hview]
      exact hready
    · exact absurd (hd.socket.socketFd_eq.symm.trans hzero) hfd
  | givenUp _ hd h =>
    have htraffic := h.closed.traffic_eq
    refine (hwaited hd).congr (h.work.parser_eq ▸ (hwaited hd).ok) (fun hlive => ?_)
      (by rw [htraffic]) (by rw [htraffic]) (by rw [htraffic]) (by rw [h.work.parser_eq])
    cases h.closed.alive_eq.symm.trans hlive
  | peeked _ _ _ hd => exact hwaited hd
  | sent => exact ht.congr ht.ok id rfl rfl rfl rfl
  | @received bs d d' err _ hgives hbs hd hp =>
    have halive := hr.signalled.alive (.inr (.inr hgives.1))
    obtain ⟨-, howed, -, got', rest, hreceiving⟩ :=
      received_answered h0 hs hv halive hd hbs hp hanswered
    obtain ⟨-, hcode⟩ := hv.toAsking.processed hd hp
    have hprocessed := hd.processed hp
    obtain ⟨hok, hrun⟩ := Connection.process_view (hd.ok ht.ok) hp
    rw [hd.view_eq ht.ok] at hrun
    obtain ⟨v, got, hready, htaken, -, htook⟩ := ht.took
    have hcall := htook.call (ht.goesOn halive howed) hbs hrun
    have htraffic := hprocessed.traffic_eq
    have hearlier : Connection.earlier c0 d' = Connection.earlier c0 e.conn :=
      Connection.earlier_congr (by rw [htraffic])
    -- whatever is done with the code, the parser and the record of the socket stay
    have htaking : ∀ c', c'.traffic = d'.traffic → c'.parser = d'.parser →
        (c'.alive = true → err = .ok ∨ err = .incompleteBufferErr) →
          Connection.Taking srv p req i c0 c' := by
      intro c' hc' hparser herr
      have hsocket : c'.traffic.socket = e.conn.traffic.socket := by rw [hc', htraffic]
      have hreceived := hreceiving c' hc' hparser herr
      have hall : c'.traffic.taken = srv.answers i c'.traffic.socket 0 (Connection.earlier c0 c') ++
          (got ++ bs) := by
        rw [hsocket, Connection.earlier_congr hsocket, hc', htraffic, ← List.append_assoc, ← htaken]
      refine ⟨hparser ▸ hok, ⟨v, got ++ bs, hready, hall, ?_, ?_⟩, fun hlive hne => ?_⟩
      · obtain rfl : got ++ bs = got' := List.append_cancel_left (hall.symm.trans hreceived.taken_eq)
        exact ⟨rest, hreceived.whole⟩
      · rw [hc', htraffic, hparser]
        exact hcall
      · rw [hc', htraffic] at hne ⊢
        rcases herr hlive with herr | herr
        · exact absurd (congrArg some herr) hne
        · exact .inr (congrArg some herr)
    have hparsed := parsed_cases err a { e with conn := d' }
    generalize parsed err a { e with conn := d' } = e'' at hparsed hanswered ⊢
    cases hparsed with
    | done herr => exact htaking d' rfl rfl fun _ => .inl herr
    | failed =>
      refine htaking _ (Connection.traffic_markDead _ _)
        (Connection.sameWork_markDead a.deadTime d').parser_eq fun hlive => ?_
      have hne : d'.socketFd ≠ 0 := hprocessed.socketFd_eq ▸ hfd
      cases (Connection.alive_markDead (hprocessed.liveFd he.tracked.live) hne a.deadTime).symm.trans
        hlive
    | more hok' hprog hserver =>
      exact htaking d' rfl rfl fun _ =>
        .inr ((hcode.resolve_left hok').resolve_right fun h => h.elim hprog hserver)

end Entry

/-! ### Runs of the loop -/

namespace PollLoop

def takingSlot (srv : Servers) (p : ConnectionPool) (req : Request) (s0 : PollLoop) :
    SlotInvariant where
  holds k c _ := ∀ i c0, s0.connAt k = some i → s0.pool.conns[i]? = some c0 →
    Connection.Taking srv p req i c0 c
  reported _ _ _ _ := True

structure TakingInv (srv : Servers) (p : ConnectionPool) (req : Request) (s0 s : PollLoop) :
    Prop where
  serving : ServingInv srv p req s0 s
  counted : s.Counted
  slots : (takingSlot srv p req s0).Inv s

theorem ServingInv.taken_turn (h : ServingInv srv p req s0 s) (he : s.entry k = some e)
    (hi : s0.connAt k = some i) (hanswered : ∀ i c, (s.setEntry k e').pool.conns[i]? = some c →
      c.traffic.taken <+: srv.replies i c.traffic) :
    e'.conn.traffic.taken <+: srv.replies i e'.conn.traffic := by
  have hset := slot_setEntry h.slots.nodup (slot_of_entry he) e' k
  rw [if_pos rfl] at hset
  obtain ⟨j, hj, hconn, -⟩ := slot_eq_some hset
  have hi' : (s.setEntry k e').connAt k = some i := by
    show s.pool.activeConns[k]? = some i
    rw [h.counted.aligned.frame.activeConns]
    exact hi
  obtain rfl := Option.some.inj (hi'.symm.trans hj)
  exact hanswered i _ hconn

theorem TakingInv.step (h : TakingInv srv p req s0 s) (hstep : Step s ev s')
    (hrule : srv.timelyRuns.step s ev s') : TakingInv srv p req s0 s' := by
  obtain ⟨hanswering, htimely⟩ := hrule
  obtain ⟨hserving, hcounted⟩ := h.serving.step hstep htimely hanswering
  refine ⟨hserving, hcounted, h.slots.step_of hstep (fun _ _ _ _ _ _ => trivial) ?_
    hserving.not_broken⟩
  intro k part revents r a e jump e' hev hturn hr he hrun hs' hholds _
  refine ⟨fun i c0 hi hc0 => ?_, fun _ _ _ => trivial⟩
  have hslot := slot_of_entry he
  obtain ⟨htallied, i', c0', hi', hc0', hstarted, hsending, hserved⟩ :=
    h.serving.slots.slots k _ _ hslot
  obtain rfl := Option.some.inj (hi.symm.trans hi')
  obtain rfl := Option.some.inj (hc0.symm.trans hc0')
  have hexpected := h.serving.slots.reported k part revents hturn k r _ _ le_rfl hr hslot
  rw [if_pos rfl] at hexpected
  have hfd := h.serving.socketFd_ne _ (mem_of_entry he)
  have htaken := h.serving.taken_turn he hi fun i c hc => hanswering.2.2 i c (hs' ▸ hc)
  exact (Entry.run_cases htallied.tracked.live hrun).taking htallied hexpected hstarted hsending
    hserved (htimely k part revents r a e hev hturn hr he) hfd htaken (hholds i c0 hi hc0)

theorem takingInv_startPoll (hp : Reachable rules p) (hsettled : p.Settled srv)
    (hreq : srv.timelyRuns.request p req) :
    TakingInv srv p req (req.dispatch p).startPoll (req.dispatch p).startPoll := by
  have hserving := servingInv_startPoll hp hsettled hreq
  refine ⟨hserving, ⟨hserving.counted.count, ?_⟩, ?_⟩
  · rintro (hend | hend) <;> cases hend
  refine SlotInvariant.inv_startPoll (req.dispatch_active hp.clean).1 fun k i c hi hc j c0 hj hc0 => ?_
  obtain rfl := Option.some.inj (hi.symm.trans hj)
  obtain rfl := Option.some.inj (hc.symm.trans hc0)
  obtain ⟨c0, hc0, hstarted, -, hserved⟩ := hserving.conn (List.mem_of_getElem? hi) hc
  obtain rfl := Option.some.inj (hc.symm.trans hc0)
  obtain ⟨base, hbase, -, hdis, hactive⟩ := req.dispatched hp hc
  have hparser := hdis.parser_eq (hactive.1 (List.mem_of_getElem? hi))
  have hready : c.parser.view.Ready (req.keysFor i) req.parserMode := by
    have hview : c.parser.view =
        { base.parser.view with requestKeys := req.keysFor i, mode := req.parserMode } := by
      rw [hparser]
      rfl
    rw [hview]
    exact { (hsettled i base hbase).ready with requestKeys := rfl, mode := rfl }
  exact hstarted.taking hserved.ok hready
    (req.unprocessed_dispatch hp.unprocessed c (List.mem_of_getElem? hc))

theorem TakingInv.steps (h : TakingInv srv p req s0 s) (hsteps : Steps srv.timelyRuns.step s s') :
    TakingInv srv p req s0 s' := by
  induction hsteps with
  | refl => exact h
  | tail _ hstep ih =>
    obtain ⟨ev, hstep, hrule⟩ := hstep
    exact ih.step hstep hrule

theorem TakingInv.conn (h : TakingInv srv p req s0 s) (hi : i ∈ s0.pool.activeConns)
    (hc : s.pool.conns[i]? = some c) : ∃ c0, s0.pool.conns[i]? = some c0 ∧
      Connection.Started srv p req i c0 ∧ Connection.Sending c0 c ∧
        Connection.Serving srv p req i c0 c ∧ Connection.Taking srv p req i c0 c := by
  obtain ⟨c0, hc0, hstarted, hsending, hserving⟩ := h.serving.conn hi hc
  obtain ⟨k, hk⟩ := List.mem_iff_getElem?.1 hi
  obtain ⟨fd, hslot⟩ := h.serving.counted.aligned.slot hk hc
  exact ⟨c0, hc0, hstarted, hsending, hserving, h.slots.slots k c fd hslot i c0 hk hc0⟩

end PollLoop

end Libmc
