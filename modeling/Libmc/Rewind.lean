import Libmc.PollConsumed

/-!
# An attempt that is given up

What comes of the replies depends on the bytes that are received after a request starts again, and
on nothing before: `rewind` takes back what an attempt has done to the parser, except for a note that
no state reads, and chunks of replies that are received afterwards give the codes and the results
that they give on the connection as its command has left it (`receiveAll_rewind`).
-/

namespace Libmc

variable {c c' c0 d : Connection} {p p' : ConnectionPool} {rules : Rules} {i n : ℕ} {b : Bytes}

namespace PacketParser

/-! ### What is noted about the keys is not read -/

theorem enter_raised (v : Flat) : v.raised.enter = v.enter.raised := by
  unfold enter
  rw [show v.raised.state = v.state from rfl]
  split_ifs <;> rfl

theorem body_raised (v : Flat) :
    body v.raised = Sum.map raised (Prod.map id raised) (body v) := by
  have hblind := (Built.stateAction v.state).blind v
  rcases hend : v.canEndParse with _ | _
  · rw [body_eq hend, body_eq (show v.raised.canEndParse = false from hend),
      show v.raised.state = v.state from rfl, hblind]
    rcases stateAction v.state v with ⟨_ | _, w⟩ <;> rfl
  · rw [body_of_canEndParse hend, body_of_canEndParse (show v.raised.canEndParse = true from hend)]
    rfl

theorem run_raised (n : ℕ) (v : Flat) :
    Loop.run body n v.raised.enter = (Loop.run body n v.enter).map (Prod.map id raised) := by
  rw [enter_raised]
  exact Loop.run_map (I := fun _ => True) (fun _ _ _ _ => trivial) (fun v _ => body_raised v) trivial

end PacketParser

/-! ### Connections that give the same results -/

/-- The lists of results, with the bytes of their tokens. -/
structure Results where
  retrievalResults : List (RetrievalResult Bytes)
  messageResults : List MessageResult
  lineResults : List (LineResult Bytes)
  unsignedResults : List UnsignedResult
  deriving DecidableEq, Repr

namespace Connection

/-- What the methods for the results return. -/
def results (c : Connection) : Results where
  retrievalResults := c.parser.view.retrievalResults
  messageResults := c.parser.view.messageResults
  lineResults := c.parser.view.lineResults
  unsignedResults := c.parser.view.unsignedResults

/-- A chunk is received, in as many calls of `recv` as it takes, and at most `k`. -/
def recvWhole : ℕ → Bytes → Connection → Connection
  | 0, _, c => c
  | k + 1, b, c =>
    let (nRecv, c) := c.recv false (some b)
    let rest := b.drop (nRecv.elim 0 List.length)
    if rest = [] then c else recvWhole k rest c

def receive (n : ℕ) (b : Bytes) (c : Connection) : Option (ErrCode × Connection) :=
  (c.recvWhole (b.length + 1) b).process n

/-- The code and the results after each chunk, up to a call that does not return. -/
def receiveAll (n : ℕ) : List Bytes → Connection → List (Option (ErrCode × Results))
  | [], _ => []
  | b :: bs, c =>
    match c.receive n b with
    | none => [none]
    | some (err, d) => some (err, d.results) :: receiveAll n bs d

/-- Two connections whose parsers differ in nothing that is read. -/
structure Alike (c d : Connection) : Prop where
  ok : c.parser.Ok
  ok' : d.parser.Ok
  view_eq : d.parser.view.raised = c.parser.view.raised

theorem Alike.results_eq (h : Alike c d) : d.results = c.results := by
  obtain ⟨-, -, h⟩ := h
  unfold PacketParser.raised at h
  injection h with _ _ _ _ _ hretrieval hmessage hline hunsigned
  unfold results
  rw [hretrieval, hmessage, hline, hunsigned]

/-- The bytes that `recv` takes are there for the parser, and it takes some. -/
theorem recv_view (h : c.parser.Ok) (b : Bytes) :
    ∃ k d, 0 < k ∧ c.recv false (some b) = (some (b.take k), d) ∧ d.parser.Ok ∧
      d.parser.view = c.parser.view.feed (b.take k) := by
  obtain ⟨hwaits, hreceives⟩ := recv_cases false (some b) c
  have htake : (c.recv false (some b)).1 = some (b.take c.prepareRecv.1) := by
    unfold recv
    simp only [Option.map_some]
    split_ifs <;> rfl
  refine ⟨c.prepareRecv.1, (c.recv false (some b)).2, (prepareRecv_spec h).2.2.1,
    Prod.ext htake rfl, ?_⟩
  by_cases hb : b.take c.prepareRecv.1 = []
  · have hwaited := hwaits (.inr (.inr (htake.trans (congrArg some hb))))
    refine ⟨hwaited.replies.ok h, (hwaited.replies.view_eq h).trans ?_⟩
    rw [hb, PacketParser.feed, List.append_nil]
  · have hreceived := hreceives _ rfl htake hb
    exact ⟨hreceived.ok h, hreceived.view_eq h⟩

theorem recvWhole_view {k : ℕ} (h : c.parser.Ok) (hk : b.length < k) :
    (c.recvWhole k b).parser.Ok ∧ (c.recvWhole k b).parser.view = c.parser.view.feed b := by
  induction k generalizing b c with
  | zero => omega
  | succ k ih =>
    obtain ⟨j, d, hj, hrecv, hok, hview⟩ := recv_view h b
    have hdrop : b.drop (b.take j).length = b.drop j := by
      rw [List.length_take]
      rcases le_total j b.length with hle | hle
      · rw [min_eq_left hle]
      · rw [min_eq_right hle, List.drop_length, List.drop_of_length_le hle]
    unfold recvWhole
    simp only [hrecv, Option.elim_some, hdrop]
    have hsplit := List.take_append_drop j b
    split_ifs with hrest
    · rw [hrest, List.append_nil] at hsplit
      rw [hsplit] at hview
      exact ⟨hok, hview⟩
    · have hlength : (b.drop j).length < k := by
        have hne := List.length_pos_iff.2 hrest
        rw [List.length_drop] at hne ⊢
        omega
      obtain ⟨hok', hview'⟩ := ih hok hlength
      refine ⟨hok', hview'.trans ?_⟩
      rw [hview]
      exact (PacketParser.flatMachine_resumable.feed_append _ _ _).trans
        (congrArg c.parser.view.feed hsplit)

theorem Alike.recvWhole (h : Alike c d) (b : Bytes) :
    Alike (c.recvWhole (b.length + 1) b) (d.recvWhole (b.length + 1) b) := by
  obtain ⟨hok, hview⟩ := recvWhole_view h.ok (Nat.lt_succ_self b.length)
  obtain ⟨hok', hview'⟩ := recvWhole_view h.ok' (Nat.lt_succ_self b.length)
  refine ⟨hok, hok', ?_⟩
  rw [hview, hview']
  exact congrArg (PacketParser.feed · b) h.view_eq

theorem process_map (h : c.parser.Ok) (n : ℕ) :
    (c.process n).map (fun r => (r.1, r.2.parser.view)) =
      Loop.run PacketParser.body n c.parser.view.enter := by
  rw [← PacketParser.view_enter, PacketParser.run_view h.enter]
  unfold process
  rw [Option.map_map]
  rfl

/-- A call returns on both, with one code, or on neither. -/
theorem Alike.process (h : Alike c d) (n : ℕ) :
    (c.process n = none ∧ d.process n = none) ∨
      ∃ err c' d', c.process n = some (err, c') ∧ d.process n = some (err, d') ∧ Alike c' d' := by
  have hrun := PacketParser.run_raised n c.parser.view
  rw [← h.view_eq, PacketParser.run_raised, ← process_map h.ok, ← process_map h.ok'] at hrun
  rcases hc : c.process n with _ | ⟨err, c'⟩ <;> rcases hd : d.process n with _ | ⟨err', d'⟩ <;>
    rw [hc, hd] at hrun
  · exact .inl ⟨rfl, rfl⟩
  · cases hrun
  · cases hrun
  · obtain ⟨rfl, hview⟩ := Prod.mk.inj (Option.some.inj hrun)
    exact .inr ⟨_, c', d', rfl, rfl, (process_view h.ok hc).1, (process_view h.ok' hd).1, hview⟩

theorem Alike.receiveAll_eq (h : Alike c d) (n : ℕ) (bs : List Bytes) :
    d.receiveAll n bs = c.receiveAll n bs := by
  induction bs generalizing c d with
  | nil => rfl
  | cons b bs ih =>
    unfold receiveAll receive
    rcases (h.recvWhole b).process n with ⟨hnone, hnone'⟩ | ⟨err, c', d', hsome, hsome', halike⟩
    · rw [hnone, hnone']
    · rw [hsome, hsome']
      simp only [halike.results_eq, ih halike]

/-! ### Attempts -/

inductive Attempt (c0 : Connection) : Connection → Prop
  | start : Attempt c0 c0
  | recv {c : Connection} (h : Attempt c0 c) (isPeek : Bool) (bytes : Option Bytes) :
      Attempt c0 (c.recv isPeek bytes).2
  | process {c d : Connection} {n : ℕ} {err : ErrCode} (h : Attempt c0 c)
      (hp : c.process n = some (err, d)) : Attempt c0 d

/-- A connection that waits for the replies to its request. -/
structure Waiting (keys : List Bytes) (md : ParserMode) (c : Connection) : Prop where
  ok : c.parser.Ok
  ready : c.parser.view.Ready keys md

theorem Waiting.congr {keys : List Bytes} {md : ParserMode} (h : Waiting keys md c)
    (heq : d.parser = c.parser) : Waiting keys md d := ⟨heq ▸ h.ok, heq ▸ h.ready⟩

theorem Attempt.request (h : Attempt c0 c) (hok : c0.parser.Ok) :
    c.parser.Ok ∧ PacketParser.SameRequest c0.parser.view c.parser.view := by
  induction h with
  | start => exact ⟨hok, .refl _⟩
  | @recv c _ isPeek bytes ih =>
    obtain ⟨hok, hsame⟩ := ih
    obtain ⟨hwaits, hreceives⟩ := recv_cases isPeek bytes c
    by_cases hwait : isPeek = true ∨ (c.recv isPeek bytes).1 = none ∨
        (c.recv isPeek bytes).1 = some []
    · have hwaited := hwaits hwait
      exact ⟨hwaited.replies.ok hok, (hwaited.replies.view_eq hok).symm ▸ hsame⟩
    · rw [not_or, not_or] at hwait
      obtain ⟨bs, hbs⟩ := Option.ne_none_iff_exists'.1 hwait.2.1
      have hreceived := hreceives bs (by simpa using hwait.1) hbs
        fun hnil => hwait.2.2 (hbs.trans (congrArg some hnil))
      rw [hreceived.view_eq hok]
      exact ⟨hreceived.ok hok, hsame.requestKeys, hsame.mode⟩
  | process _ hp ih =>
    obtain ⟨hok, hrun⟩ := process_view ih.1 hp
    exact ⟨hok, ih.2.trans (PacketParser.call_tame hrun).1⟩

/-- **Starting again takes back all that is read.** -/
theorem Attempt.alike (h : Attempt c0 c) {keys : List Bytes} {md : ParserMode}
    (hc : Waiting keys md c0) : Alike c0 c.rewind := by
  obtain ⟨hok, hkeys, hmode⟩ := h.request hc.ok
  obtain ⟨hok', hview⟩ := parser_rewound hok
  refine ⟨hc.ok, hok', ?_⟩
  rw [hview]
  have hready := hc.ready
  generalize c0.parser.view = v at hready hkeys hmode
  generalize c.parser.view = w at hkeys hmode
  obtain ⟨hreader, hstate, hidx, -, -, hretrieval, hmessage, hline, hunsigned⟩ := hready
  unfold PacketParser.raised PacketParser.rewind
  rw [PacketParser.mk.injEq]
  exact ⟨hkeys, hreader.symm, hstate.symm, hmode, hidx.symm, hretrieval.symm, hmessage.symm,
    hline.symm, hunsigned.symm, rfl⟩

end Connection

/-! ### Between commands -/

namespace Entry

theorem Effect.ok {r : Revents} {a : Answers} {e e' : Entry} {part : Part} {jump : Bool}
    (h : Effect r a e part jump e') (he : e.conn.parser.Ok) : e'.conn.parser.Ok := by
  cases h with
  | idle => exact he
  | rewound _ _ hd h => exact h.ok (hd.replies.ok he)
  | resumed _ hd h => exact h.work.parser_eq ▸ hd.replies.ok he
  | givenUp _ hd h => exact h.work.parser_eq ▸ hd.replies.ok he
  | peeked _ _ _ hd => exact hd.replies.ok he
  | sent => exact he
  | @received bs d d' err _ _ _ hd hp =>
    have hok := (Connection.process_view (hd.ok he) hp).1
    refine conn_parsed (Q := fun c => c.parser.Ok) hok ?_
    rw [(Connection.sameWork_markDead _ _).parser_eq]
    exact hok

end Entry

theorem lasting_ok : Lasting fun c => c.LiveFd ∧ c.parser.Ok where
  live _ h := h.1
  markDead c now h := ⟨h.1.markDead now, (Connection.sameWork_markDead now c).parser_eq ▸ h.2⟩
  effect h he := ⟨h.live he.1, h.ok he.2⟩

/-- A connection as a command leaves it waits for the replies, or for a command. -/
theorem Request.waiting_dispatch (hclean : p.Clean)
    (hp : ∀ c ∈ p.conns, c.Waiting [] .undefined) (req : Request)
    (hc : (req.dispatch p).conns[i]? = some c) :
    (req.commandsFor p i = [] → c.Waiting [] .undefined) ∧
      ∃ keys md, c.Waiting keys md := by
  have hlt : i < p.conns.length := by
    rw [← req.dispatch_length p]
    exact (List.getElem?_eq_some_iff.1 hc).1
  have hbase : p.conns[i]? = some p.conns[i] := List.getElem?_eq_getElem hlt
  have hwaiting := hp _ (List.mem_of_getElem? hbase)
  obtain ⟨d, hd, hdis, -⟩ := req.dispatches hclean hbase
  obtain rfl := Option.some.inj (hc.symm.trans hd)
  have hidle : req.commandsFor p i = [] → c.Waiting [] .undefined := fun hnil =>
    hwaiting.congr (hdis.idle hnil).work.parser_eq
  refine ⟨hidle, ?_⟩
  by_cases hnil : req.commandsFor p i = []
  · exact ⟨_, _, hidle hnil⟩
  · refine ⟨req.keysFor i, req.parserMode, ?_, ?_⟩ <;> rw [hdis.parser_eq hnil]
    · exact ⟨hwaiting.ok.wf, hwaiting.ok.results, hwaiting.ok.lines⟩
    · exact { hwaiting.ready with requestKeys := rfl, mode := rfl }

/-- **Between commands** every parser is as good as new. -/
theorem Reachable.waiting (h : Reachable rules p) : ∀ c ∈ p.conns, c.Waiting [] .undefined := by
  induction h with
  | init n =>
    intro c hc
    rw [List.eq_of_mem_replicate hc]
    exact ⟨⟨BufferReader.wf_default, fun _ hmem => absurd hmem List.not_mem_nil,
      fun _ hmem => absurd hmem List.not_mem_nil⟩, ⟨rfl, rfl, rfl, rfl, rfl, rfl, rfl, rfl, rfl⟩⟩
  | config _ retryTimeout maxRetries ih =>
    intro c hc
    obtain ⟨d, hd, rfl⟩ := List.mem_map.1 hc
    exact (ih d hd).congr rfl
  | @command p p' code hp req _ hwait times ih =>
    have hframe := hwait.frame.trans (req.finish_frame times p')
    have hdispatch : ∀ c ∈ (req.dispatch p).conns, c.LiveFd ∧ c.parser.Ok := by
      intro c hc
      obtain ⟨i, hi⟩ := List.mem_iff_getElem?.1 hc
      obtain ⟨-, keys, md, hwaiting⟩ := req.waiting_dispatch hp.clean ih hi
      exact ⟨req.live_dispatch hp.live c hc, hwaiting.ok⟩
    have hok := lasting_ok.finish req times (lasting_ok.waitPoll hwait hdispatch)
    intro c hc
    rcases ConnectionPool.reset_cases hc with ⟨i, hi, hc⟩ | ⟨i, -, d, hd, rfl⟩
    · rw [hframe.activeConns] at hi
      rw [hframe.conns i hi] at hc
      refine (req.waiting_dispatch hp.clean ih hc).1 ?_
      by_contra hne
      obtain ⟨base, hbase⟩ : ∃ base, p.conns[i]? = some base :=
        ⟨_, List.getElem?_eq_getElem (by
          rw [← req.dispatch_length p]
          exact (List.getElem?_eq_some_iff.1 hc).1)⟩
      obtain ⟨-, -, -, hactive⟩ := req.dispatches hp.clean hbase
      exact hi (hactive.2 hne)
    · obtain ⟨hwf, hunread⟩ := BufferReader.wf_reset (hok d (List.mem_of_getElem? hd)).2.wf
      exact ⟨⟨hwf, fun _ hmem => absurd hmem List.not_mem_nil,
        fun _ hmem => absurd hmem List.not_mem_nil⟩,
        ⟨hunread, rfl, rfl, rfl, rfl, rfl, rfl, rfl, rfl⟩⟩

/-! ### The law -/

/-- **An attempt that is given up leaves no trace.** After any calls of `recv` and `process` on a
connection as a dispatch has left it, `rewind` and then any chunks of replies give the codes and the
results that the same chunks give without the attempt. -/
theorem receiveAll_rewind (hp : Reachable rules p) (req : Request)
    (hc0 : (req.dispatch p).conns[i]? = some c0) (hc : c0.Attempt c) (n : ℕ) (bs : List Bytes) :
    c.rewind.receiveAll n bs = c0.receiveAll n bs := by
  obtain ⟨-, keys, md, hwaiting⟩ := req.waiting_dispatch hp.clean hp.waiting hc0
  exact (hc.alike hwaiting).receiveAll_eq n bs

/-- A part of a value has been received when the attempt is given up; the next block is to hold the
rest of it. -/
theorem receiveAll_rewind_value : ∃ c0 c, (getOne.dispatch (.init 1)).conns[0]? = some c0 ∧
    c0.Attempt c ∧ c.results ≠ c0.results ∧
      c.rewind.receiveAll 9 [ascii "VALUE k 0 1\r\nv", ascii "\r\nEND\r\n"] =
        c0.receiveAll 9 [ascii "VALUE k 0 1\r\nv", ascii "\r\nEND\r\n"] := by
  obtain ⟨c0, hc0⟩ : ∃ c0, (getOne.dispatch (.init 1)).conns[0]? = some c0 := ⟨_, rfl⟩
  have hrun : ((getOne.dispatch (.init 1)).conns[0]?.bind fun c0 =>
      ((c0.recv false (some (ascii "VALUE k 0 5\r\nva"))).2.process 9).map fun r =>
        decide (r.2.results ≠ c0.results)) = some true := by decide +kernel
  rw [hc0, Option.bind_some, Option.map_eq_some_iff] at hrun
  obtain ⟨⟨err, c⟩, hc, htrue⟩ := hrun
  have hattempt : c0.Attempt c := .process (.recv .start _ _) hc
  exact ⟨c0, c, hc0, hattempt, of_decide_eq_true htrue,
    receiveAll_rewind (.init 1 : Reachable {} _) getOne hc0 hattempt 9 _⟩

end Libmc
