import Libmc.Replied

/-!
# What `Client::version`, `Client::stats` and `Client::flushAll` return

A result is made for every connection, and it is empty for those that are not active. A line of a
reply becomes a line result when its first word is there; until the line is whole its pointer is
`NULL`, and its length, from which one is taken off for the `\r`, is `2 ^ 64 - 1`
(`waitPoll_broadcast`).
-/

namespace Libmc

variable {c : Connection} {p p' : ConnectionPool} {i n len : ℕ} {srv : Servers} {op : BroadcastOp}
  {answers : ℕ → Reconnect} {l : ReplyLine} {text got bs : Bytes} {lines : List Bytes} {code : ErrCode}

/-- What is made of the first `len` bytes of a line, after a word of `word` bytes. -/
def lineRead (word len : ℕ) (text : Bytes) : List (LineResult Bytes) :=
  if len < word then []
  else if len < word + text.length + 2 then [{ line := [] }]
  else [{ line := text ++ [cr], lineLen := text.length + 1 }]

/-- What is made of the first `len` bytes of a reply to `stats`. -/
def statsRead : ℕ → List Bytes → List (LineResult Bytes)
  | _, [] => []
  | len, line :: lines => lineRead 5 len line ++ statsRead (len - (5 + line.length + 2)) lines

theorem lineRead_whole (word : ℕ) (text : Bytes) (n : ℕ) :
    lineRead word (word + text.length + 2 + n) text =
      [{ line := text ++ [cr], lineLen := text.length + 1 }] := by
  unfold lineRead
  rw [if_neg (by omega), if_neg (by omega)]

theorem statsRead_zero (lines : List Bytes) : statsRead 0 lines = [] := by
  induction lines with
  | nil => rfl
  | cons line lines ih =>
    rw [statsRead, Nat.zero_sub, ih]
    rfl

namespace PacketParser

variable {v w : Flat} {last : Option ErrCode} {word : Bytes}

/-- A line of a reply, of which the first word is known to push a result and to go on in a state
that reads the line. -/
structure Heads (word : Bytes) (st next : ParserState) : Prop where
  start : ∀ {v : Flat} {t : Bytes}, v.bufferReader = word ++ t →
    startState v = (.ok (), setState st (pushLine { v with bufferReader := t }))
  read : ∀ v : Flat, stateAction st v =
    (do processLineResult; ParseM.assign (setState next) : ParseM Bytes Bytes Unit) v
  goesOn : st.isEndState = false

theorem heads_version : Heads (ascii "VERSION ") .verStart .end_ :=
  ⟨fun h => startState_version (w := [82, 83, 73, 79, 78, 32]) h rfl, fun _ => rfl, rfl⟩

theorem heads_stat : Heads (ascii "STAT ") .statStart .start :=
  ⟨fun h => startState_stat (w := [84, 32]) h (by decide) rfl, fun _ => rfl, rfl⟩

theorem Heads.cut {st next : ParserState} (h : Heads word st next) (hm : v.mode = .endState)
    (hst : v.state = .start) (htext : lf ∉ text) (hP : v.bufferReader <+: word ++ text ++ crlf)
    (hne : v.bufferReader ≠ word ++ text ++ crlf) :
    ∃ e u, Loop.Returns body v (e, u) ∧ u.lineResults = v.lineResults ++
      lineRead word.length v.bufferReader.length text ∧ u.messageResults = v.messageResults := by
  have hend : v.canEndParse = false := canEndParse_start hm hst
  have hlen := prefix_length_lt hP hne
  rw [List.length_append, List.length_append, show crlf.length = 2 from rfl] at hlen
  rw [List.append_assoc] at hP
  rcases prefix_append_cases hP with ⟨hword, hcut⟩ | ⟨Q, hQ, hrest⟩
  · -- the word is not there
    have hlt := prefix_length_lt hword hcut
    obtain ⟨b, hb⟩ := hword
    have hbnil : b ≠ [] := fun hnil => hcut (by rw [← hb, hnil, List.append_nil])
    have hshort : startState v = (incomplete, v) := by
      refine startState_short hbnil ?_
      rw [h.start (v := v.feed b) (t := []) (by rw [List.append_nil, ← hb]; rfl)]
      rfl
    refine ⟨_, _, Loop.returns_of_inr (body_stop hend hst hshort), ?_, rfl⟩
    rw [lineRead, if_pos hlt, List.append_nil]
  · have hlenQ : v.bufferReader.length = word.length + Q.length := by
      rw [hQ, List.length_append]
    let u : Flat := setState st (pushLine { v with bufferReader := Q })
    have hstep : body v = .inl u := body_ok hend hst (h.start hQ)
    have hend₁ : u.canEndParse = false := by
      show (if v.mode = .endState then st.isEndState else _) = false
      rw [if_pos hm, h.goesOn]
    have hnone : lf ∉ Q := by
      intro hmem
      have hle : Q.length ≤ (text ++ [cr]).length := by
        rw [List.length_append, List.length_singleton]
        omega
      have hpre : Q <+: text ++ [cr] := by
        refine List.prefix_of_prefix_length_le hrest ⟨[lf], ?_⟩ hle
        rw [List.append_assoc]
        rfl
      rcases List.mem_append.1 (hpre.subset hmem) with hmem | hmem
      · exact htext hmem
      · exact absurd hmem (by decide)
    have hline : stateAction st u = (incomplete, modifyLine (fun _ => { line := [], lineLen := 0 }) u) := by
      rw [h.read]
      exact ParseM.bind_error (processLineResult_none hnone)
    refine ⟨_, _, (Loop.returns_of_inl hstep).2 (Loop.returns_of_inr (body_stop hend₁ rfl hline)), ?_,
      rfl⟩
    rw [lineRead, if_neg (by omega), if_pos (by omega)]
    show (v.lineResults ++ [_]).modifyLast _ = _
    rw [List.modifyLast_concat]

theorem Heads.whole {st next : ParserState} (h : Heads word st next) (hm : v.mode = .endState)
    (hst : v.state = .start) (htext : lf ∉ text) {t : Bytes}
    (hr : v.bufferReader = word ++ text ++ crlf ++ t) :
    Loop.Reaches body v (setState next { v with
      bufferReader := t
      lineResults := v.lineResults ++ [{ line := text ++ [cr], lineLen := text.length + 1 }] }) := by
  have hend : v.canEndParse = false := canEndParse_start hm hst
  let u : Flat := setState st (pushLine { v with bufferReader := text ++ [cr] ++ lf :: t })
  have hstep : body v = .inl u := by
    refine body_ok hend hst (h.start ?_)
    rw [hr]
    simp [crlf]
  have hend₁ : u.canEndParse = false := by
    show (if v.mode = .endState then st.isEndState else _) = false
    rw [if_pos hm, h.goesOn]
  have hnone : lf ∉ text ++ [cr] := by
    rw [List.mem_append, not_or]
    exact ⟨htext, by decide⟩
  have hline : stateAction st u = (.ok (), setState next (modifyLine (fun inner =>
      { inner with line := text ++ [cr], lineLen := (text ++ [cr]).length })
        { u with bufferReader := t })) := by
    rw [h.read]
    exact ParseM.bind_ok (processLineResult_at (v := u) rfl hnone)
  have hresults : u.lineResults.modifyLast (fun inner =>
      { inner with line := text ++ [cr], lineLen := (text ++ [cr]).length }) =
        v.lineResults ++ [{ line := text ++ [cr], lineLen := text.length + 1 }] := by
    show (v.lineResults ++ [_]).modifyLast _ = _
    rw [List.modifyLast_concat, List.length_append]
    rfl
  refine .head hstep (.single ?_)
  rw [body_ok hend₁ rfl hline, ← hresults]
  rfl

theorem returns_version (hm : v.mode = .endState) (hst : v.state = .start) (htext : lf ∉ text)
    (hP : v.bufferReader <+: ascii "VERSION " ++ text ++ crlf) :
    ∃ e u, Loop.Returns body v (e, u) ∧ u.lineResults = v.lineResults ++
      lineRead 8 v.bufferReader.length text ∧ u.messageResults = v.messageResults := by
  by_cases hall : v.bufferReader = ascii "VERSION " ++ text ++ crlf
  · have hreach := heads_version.whole (t := []) hm hst htext (by rw [List.append_nil, hall])
    refine ⟨.ok, _, hreach.returns_iff.2 (Loop.returns_of_inr (body_of_canEndParse ?_)), ?_, rfl⟩
    · show (if v.mode = .endState then true else _) = true
      rw [if_pos hm]
    · have hlen : v.bufferReader.length = 8 + text.length + 2 + 0 := by
        rw [hall]
        simp [ascii, crlf]
        omega
      rw [hlen, lineRead_whole]
      rfl
  · exact heads_version.cut hm hst htext hP hall

theorem returns_endLine (hm : v.mode = .endState) (hst : v.state = .start)
    (hP : v.bufferReader <+: ascii "END\r\n") :
    ∃ e u, Loop.Returns body v (e, u) ∧ u.lineResults = v.lineResults ∧
      u.messageResults = v.messageResults := by
  have hend : v.canEndParse = false := canEndParse_start hm hst
  have hword : ∀ {v : Flat}, v.bufferReader = ascii "END\r\n" →
      startState v = (.ok (), setState .end_ { v with bufferReader := [] }) := fun h =>
    startState_end (w := [68, 13, 10]) (t := []) h rfl
  obtain ⟨b, hb⟩ := hP
  by_cases hbnil : b = []
  · rw [hbnil, List.append_nil] at hb
    have hstop : (setState .end_ ({ v with bufferReader := [] } : Flat)).canEndParse = true := by
      show (if v.mode = .endState then true else _) = true
      rw [if_pos hm]
    exact ⟨.ok, _, (Loop.returns_of_inl (body_ok hend hst (hword hb))).2
      (Loop.returns_of_inr (body_of_canEndParse hstop)), rfl, rfl⟩
  · have hshort : startState v = (incomplete, v) :=
      startState_short hbnil (by rw [hword (v := v.feed b) hb]; rfl)
    exact ⟨_, _, Loop.returns_of_inr (body_stop hend hst hshort), rfl, rfl⟩

/-- A part of a reply to `stats`, by induction on its lines. -/
theorem returns_stats (hlines : ∀ line ∈ lines, lf ∉ line) (hm : v.mode = .endState)
    (hst : v.state = .start) (hP : v.bufferReader <+: statLines lines ++ ascii "END\r\n") :
    ∃ e u, Loop.Returns body v (e, u) ∧ u.lineResults = v.lineResults ++
      statsRead v.bufferReader.length lines ∧ u.messageResults = v.messageResults := by
  induction lines generalizing v with
  | nil =>
    obtain ⟨e, u, hret, hu, hms⟩ := returns_endLine hm hst hP
    exact ⟨e, u, hret, hu.trans (List.append_nil _).symm, hms⟩
  | cons line lines ih =>
    obtain ⟨hline, hrest⟩ := List.forall_mem_cons.1 hlines
    have hbytes : statLines (line :: lines) ++ ascii "END\r\n" =
        (ascii "STAT " ++ line ++ crlf) ++ (statLines lines ++ ascii "END\r\n") := by
      unfold statLines
      rw [List.flatMap_cons, List.append_assoc]
    have hlen : (ascii "STAT " ++ line ++ crlf).length = 5 + line.length + 2 := by
      simp [ascii, crlf]
      omega
    rw [hbytes] at hP
    rcases prefix_append_cases hP with ⟨hP, hne⟩ | ⟨Q, hQ, hQpre⟩
    · obtain ⟨e, u, hret, hu, hms⟩ := heads_stat.cut hm hst hline hP hne
      have hlt := prefix_length_lt hP hne
      refine ⟨e, u, hret, ?_, hms⟩
      rw [hu, statsRead, show v.bufferReader.length - (5 + line.length + 2) = 0 by omega,
        statsRead_zero, List.append_nil]
      rfl
    · have hreach := heads_stat.whole hm hst hline hQ
      obtain ⟨e, u, hret, hu, hms⟩ := ih hrest (v := setState .start { v with
        bufferReader := Q
        lineResults := v.lineResults ++ [{ line := line ++ [cr], lineLen := line.length + 1 }] })
        hm rfl hQpre
      refine ⟨e, u, hreach.returns_iff.2 hret, ?_, hms⟩
      have hlenQ : v.bufferReader.length = 5 + line.length + 2 + Q.length := by
        rw [hQ, List.length_append, hlen]
      rw [hu, hlenQ, statsRead, lineRead_whole, Nat.add_sub_cancel_left]
      exact List.append_assoc _ _ _

theorem returns_flushed (hm : v.mode = .endState) (hst : v.state = .start)
    (hnone : v.messageResults = []) (hP : v.bufferReader <+: ascii "OK\r\n") :
    ∃ e u, Loop.Returns body v (e, u) ∧ u.lineResults = v.lineResults ∧
      u.messageResults.map (·.type_) = if v.bufferReader = ascii "OK\r\n" then [.ok] else [] := by
  have hend : v.canEndParse = false := canEndParse_start hm hst
  have hword : ∀ {v : Flat}, v.bufferReader = ascii "OK\r\n" → startState v =
      (.ok (), setState .end_ { v with
        bufferReader := []
        messageResults := v.messageResults ++ [⟨.ok, none⟩] }) := fun h =>
    startState_ok (w := [75, 13, 10]) (t := []) h rfl
  by_cases hall : v.bufferReader = ascii "OK\r\n"
  · have hstop : (setState .end_ ({ v with
        bufferReader := []
        messageResults := v.messageResults ++ [⟨.ok, none⟩] } : Flat)).canEndParse = true := by
      show (if v.mode = .endState then true else _) = true
      rw [if_pos hm]
    refine ⟨.ok, _, (Loop.returns_of_inl (body_ok hend hst (hword hall))).2
      (Loop.returns_of_inr (body_of_canEndParse hstop)), rfl, ?_⟩
    show (v.messageResults ++ [(⟨.ok, none⟩ : MessageResult)]).map (·.type_) = _
    rw [if_pos hall, hnone]
    rfl
  · obtain ⟨b, hb⟩ := hP
    have hbnil : b ≠ [] := fun hnil => hall (by rw [← hb, hnil, List.append_nil])
    have hshort : startState v = (incomplete, v) :=
      startState_short hbnil (by rw [hword (v := v.feed b) hb]; rfl)
    refine ⟨_, _, Loop.returns_of_inr (body_stop hend hst hshort), rfl, ?_⟩
    rw [if_neg hall, hnone]
    rfl

end PacketParser

/-! ### The results of a command -/

/-- `broadcast_result_t`, without the name of the host; a line that is `none` is `NULL`. -/
structure BroadcastResultInner where
  lines : List (Option Bytes × ℕ) := []
  msgType : MessageResultType := .libmcInvalid
  deriving DecidableEq, Repr

namespace PacketParser

/-- `LineResult::inner`; the length is a `size_t`. -/
def lineInner (q : Blocks) (r1 : LineResult TokenData) : Option Bytes × ℕ :=
  (parseTokenData q.bufferReader.dataBlockList r1.line r1.lineLen, (r1.lineLen + (2 ^ 64 - 1)) % 2 ^ 64)

/-- `lineInner` of a result over bytes, if the length is right. -/
def lineInnerFlat (r1 : LineResult Bytes) : Option Bytes × ℕ :=
  (if r1.lineLen = 0 then none else some r1.line, (r1.lineLen + (2 ^ 64 - 1)) % 2 ^ 64)

/-- Line results can be read off the view, if the lengths are right. -/
theorem lineInner_eq {q : Blocks} (h : q.Ok)
    (hlen : ∀ r1 ∈ q.view.lineResults, r1.line.length = r1.lineLen) :
    q.lineResults.map q.lineInner = q.view.lineResults.map lineInnerFlat := by
  have hview : q.view.lineResults = q.lineResults.map (·.map q.token) := rfl
  rw [hview] at hlen ⊢
  rw [List.map_map]
  refine List.map_congr_left fun r1 hr1 => ?_
  have hline : (tokenBytes q.bufferReader.dataBlockList r1.line).length = r1.lineLen :=
    hlen _ (List.mem_map_of_mem hr1)
  unfold lineInner
  rw [parseTokenData_eq (h.lines r1 hr1) hline]
  rfl

theorem lineRead_length (word len : ℕ) (text : Bytes) :
    ∀ r1 ∈ lineRead word len text, r1.line.length = r1.lineLen := by
  unfold lineRead
  split_ifs
  · exact List.forall_mem_nil _
  · exact List.forall_mem_singleton.2 rfl
  · refine List.forall_mem_singleton.2 ?_
    exact List.length_append

theorem statsRead_length (len : ℕ) (lines : List Bytes) :
    ∀ r1 ∈ statsRead len lines, r1.line.length = r1.lineLen := by
  induction lines generalizing len with
  | nil => exact List.forall_mem_nil _
  | cons line lines ih => exact List.forall_mem_append.2 ⟨lineRead_length _ _ _, ih _⟩

end PacketParser

namespace Connection

/-- What `ConnectionPool::collectBroadcastResult` makes of a connection. -/
def broadcastResult (isFlushAll : Bool) (c : Connection) : BroadcastResultInner :=
  if isFlushAll then
    { msgType := match c.parser.messageResults with
        | [r1] => r1.type_
        | _ => .libmcInvalid }
  else { lines := c.parser.lineResults.map c.parser.lineInner }

theorem broadcastResult_nil (hlines : c.parser.view.lineResults = [])
    (hmessages : c.parser.view.messageResults = []) (isFlushAll : Bool) :
    c.broadcastResult isFlushAll = {} := by
  have hl : c.parser.lineResults = [] := List.map_eq_nil_iff.1 hlines
  have hms : c.parser.messageResults = [] := hmessages
  unfold broadcastResult
  rw [hl, hms]
  cases isFlushAll <;> rfl

theorem broadcastResult_lines {rs : List (LineResult Bytes)} (hok : c.parser.Ok)
    (hlines : c.parser.view.lineResults = rs) (hlen : ∀ r1 ∈ rs, r1.line.length = r1.lineLen) :
    c.broadcastResult false = { lines := rs.map PacketParser.lineInnerFlat } := by
  unfold broadcastResult
  rw [if_neg Bool.false_ne_true, PacketParser.lineInner_eq hok (hlines ▸ hlen), hlines]

/-- What a connection hands out of a reply of which `len` bytes have been received. -/
structure Broadcast (bs : Bytes) (len : ℕ) (c : Connection) : Prop where
  version : ∀ text, lf ∉ text → bs = ascii "VERSION " ++ text ++ crlf →
    c.broadcastResult false = { lines := (lineRead 8 len text).map PacketParser.lineInnerFlat }
  stats : ∀ lines, (∀ line ∈ lines, lf ∉ line) → bs = statLines lines ++ ascii "END\r\n" →
    c.broadcastResult false = { lines := (statsRead len lines).map PacketParser.lineInnerFlat }
  flushed : bs = ascii "OK\r\n" →
    c.broadcastResult true = { msgType := if len = bs.length then .ok else .libmcInvalid }
  failed : ∀ l : ReplyLine, l.Single → l.messageType = none → bs = l.bytes →
    ∀ isFlushAll, c.broadcastResult isFlushAll = {}

end Connection

/-- `ConnectionPool::collectBroadcastResult`. -/
def ConnectionPool.collectBroadcastResult (isFlushAll : Bool) (p : ConnectionPool) :
    List BroadcastResultInner :=
  p.conns.map (·.broadcastResult isFlushAll)

theorem Connection.broadcast {v : PacketParser.Flat} (hok : c.parser.Ok)
    (hv : v.Ready [] .endState) (h : v.Took got c.traffic.processed c.parser.view)
    (hgot : got <+: bs) : c.Broadcast bs got.length := by
  have hfeed := hv.feed_bufferReader got
  -- nothing has been given, or the calls leave what one call leaves
  have hcall : ∀ {e u rs ms}, Loop.Returns PacketParser.body (v.feed got) (e, u) →
      u.lineResults = rs → u.messageResults.map (·.type_) = ms → (got = [] → rs = [] ∧ ms = []) →
        c.parser.view.lineResults = rs ∧ c.parser.view.messageResults.map (·.type_) = ms := by
    intro e u rs ms hret hrs hms hnil
    rcases h.cases hv hret with ⟨hgot, -, hw⟩ | ⟨-, hw⟩
    · obtain ⟨rfl, rfl⟩ := hnil hgot
      rw [hw, hv.lineResults, hv.messageResults]
      exact ⟨rfl, rfl⟩
    · rw [hw]
      exact ⟨hrs, hms⟩
  refine ⟨fun text htext hbs => ?_, fun lines hlines hbs => ?_, fun hbs => ?_,
    fun l hl hnone hbs isFlushAll => ?_⟩
  · obtain ⟨e, u, hret, hu, hms⟩ := PacketParser.returns_version (v := v.feed got) hv.mode hv.state
      htext (by rw [hfeed, ← hbs]; exact hgot)
    rw [hfeed, show (v.feed got).lineResults = [] from hv.lineResults, List.nil_append] at hu
    have hlines := hcall hret hu (congrArg (List.map (·.type_)) (hms.trans hv.messageResults)) (by
      rintro rfl
      exact ⟨rfl, rfl⟩)
    exact broadcastResult_lines hok hlines.1 (PacketParser.lineRead_length _ _ _)
  · obtain ⟨e, u, hret, hu, hms⟩ := PacketParser.returns_stats (v := v.feed got) hlines hv.mode
      hv.state (by rw [hfeed, ← hbs]; exact hgot)
    rw [hfeed, show (v.feed got).lineResults = [] from hv.lineResults, List.nil_append] at hu
    have hresults := hcall hret hu (congrArg (List.map (·.type_)) (hms.trans hv.messageResults)) (by
      rintro rfl
      exact ⟨statsRead_zero lines, rfl⟩)
    exact broadcastResult_lines hok hresults.1 (PacketParser.statsRead_length _ _)
  · subst hbs
    obtain ⟨e, u, hret, hu, hms⟩ := PacketParser.returns_flushed (v := v.feed got) hv.mode hv.state
      hv.messageResults (by rw [hfeed]; exact hgot)
    rw [hfeed] at hms
    obtain ⟨-, hresults⟩ := hcall hret (hu.trans hv.lineResults) hms (by
      rintro rfl
      exact ⟨rfl, rfl⟩)
    have hresults : c.parser.messageResults.map (·.type_) =
        if got = ascii "OK\r\n" then [.ok] else [] := hresults
    have hiff : got = ascii "OK\r\n" ↔ got.length = (ascii "OK\r\n").length :=
      ⟨congrArg List.length, hgot.eq_of_length⟩
    unfold broadcastResult
    rw [if_pos rfl]
    by_cases hall : got = ascii "OK\r\n"
    · rw [if_pos hall] at hresults
      obtain ⟨r1, hr1, htype⟩ := List.map_eq_singleton_iff.1 hresults
      rw [hr1, if_pos (hiff.1 hall), ← htype]
    · rw [if_neg hall, List.map_eq_nil_iff] at hresults
      rw [hresults, if_neg (mt hiff.2 hall)]
  · obtain ⟨e, u, hret, -, hms, hu⟩ := hv.returns_failed hl hnone (hbs ▸ hgot)
    obtain ⟨hlines, hmessages⟩ := hcall hret hu (congrArg (List.map (·.type_)) hms) fun _ => ⟨rfl, rfl⟩
    exact broadcastResult_nil hlines (List.map_eq_nil_iff.1 hmessages) isFlushAll

/-- **What a broadcast returns.** Nothing for a connection that is not active, and for the others what
is made of the first bytes of their replies, and with `RET_OK` of all of them. -/
theorem waitPoll_broadcast (hop : op.1 ≠ .quit) (hp : Reachable srv.failingRuns p)
    (hreq : srv.failingRuns.request p (.broadcast op answers))
    (hwait : ((Request.broadcast op answers).dispatch p).WaitPoll srv.failingRuns.step code p')
    (hc : p'.conns[i]? = some c) :
    (i ∉ p'.activeConns → ∀ isFlushAll, c.broadcastResult isFlushAll = {}) ∧
      (i ∈ p'.activeConns → ∃ len,
        let bs := srv.replyTo ((Request.broadcast op answers).dispatch p) p' i (.bare op)
        len ≤ bs.length ∧ (code = .ok → len = bs.length) ∧ c.Broadcast bs len) := by
  have hframe := hwait.frame
  refine ⟨fun hi isFlushAll => ?_, fun hi => ?_⟩
  · rw [hframe.activeConns] at hi
    rw [hframe.conns i hi] at hc
    obtain ⟨base, hbase, hlive, hdis, hactive⟩ := Request.dispatched hp _ hc
    have hnil : (Request.broadcast op answers).commandsFor p i = [] := by
      by_contra hne
      exact hi (hactive.2 hne)
    have hready := ((hp.settled_failing i base hbase).idled hlive (hdis.idle hnil)).ready
    exact Connection.broadcastResult_nil hready.lineResults hready.messageResults isFlushAll
  · obtain ⟨hi', -⟩ := waitPoll_active hp hreq.1.1 hwait hi
    obtain ⟨got, hresponded⟩ := waitPoll_taken hp hreq hwait hi' hc
    have hcommands : (Request.broadcast op answers).commandsFor p i = [.bare op] := by
      have hne := Request.active_commands hp hreq.1.1 hi'
      by_cases halive : p.conns[i]?.any fun c => (c.tryReconnect false (answers i)).alive
      · exact if_pos halive
      · exact absurd (if_neg halive) hne
    have hreply : (Command.bare op).expectsReply = true := decide_eq_true hop
    have hpart := hresponded.part
    have hwhole := hresponded.whole
    rw [hcommands, Servers.answers_singleton hreply, ← ConnectionPool.socketOf_eq hc] at hpart hwhole
    obtain ⟨v, hready, htook⟩ := hresponded.took
    exact ⟨got.length, hpart.length_le, fun hcode => congrArg List.length (hwhole hcode).1,
      Connection.broadcast hresponded.ok hready htook hpart⟩

/-- Servers that have a version. -/
def Servers.versioned : Servers where
  reply _ _ _ cmd :=
    match cmd with
    | .bare .version => ascii "VERSION 1.6\r\n"
    | _ => ReplyLine.error.bytes
  isReply _ _ _ cmd _ := by
    split
    · exact @IsReply.version (ascii "1.6") (by decide)
    · exact .failed (l := .error) trivial rfl

/-- `version` for one server. -/
def versionOne : Request := .broadcast ⟨.version, by decide⟩ fun _ => ⟨0, some 5⟩

/-- `poll` times out in the line: its pointer is `NULL`, and its length is the greatest. -/
theorem waitPoll_broadcast_one : ∃ (p' : ConnectionPool) (c : Connection), p'.conns[0]? = some c ∧
    c.broadcastResult false = { lines := [(none, 2 ^ 64 - 1)] } ∧
    (0 ∉ p'.activeConns → ∀ isFlushAll, c.broadcastResult isFlushAll = {}) ∧
      (0 ∈ p'.activeConns → ∃ len,
        let bs := Servers.versioned.replyTo (versionOne.dispatch (.init 1)) p' 0 (.bare .version)
        len ≤ bs.length ∧ (ErrCode.pollTimeoutErr = .ok → len = bs.length) ∧
          c.Broadcast bs len) := by
  have hexec : ((PollLoop.execsIf Servers.versioned.timelyRuns.step
      (versionOne.dispatch (.init 1)).startPoll
      [.report [{ out := true }], .part {}, .part {}, .part { room := some 100 }, .part {},
        .nextRound, .report [{ in_ := true }], .part {}, .part {}, .part {},
        .part { bytes := some (ascii "VERSION 1."), rounds := 9 }, .nextRound]).bind fun t =>
        t.exec (.fail .pollTimeoutErr fun _ => 0)).map (fun s => (s.progress, s.retCode,
          s.pool.conns[0]?.map (·.broadcastResult false))) =
        some (.broken, .pollTimeoutErr, some { lines := [(none, 2 ^ 64 - 1)] }) := by decide +kernel
  obtain ⟨s, hs, hpair⟩ := Option.map_eq_some_iff.1 hexec
  obtain ⟨t, ht, hfail⟩ := Option.bind_eq_some_iff.1 hs
  obtain ⟨hbroken, hpair⟩ := Prod.mk.inj hpair
  obtain ⟨hcode, hconn⟩ := Prod.mk.inj hpair
  obtain ⟨c, hc, hresult⟩ := Option.map_eq_some_iff.1 hconn
  have htimely : PollLoop.Steps Servers.versioned.failingRuns.step
      (versionOne.dispatch (.init 1)).startPoll t :=
    (PollLoop.steps_of_execsIf ht).mono fun _ _ _ h => .inr h
  have hsteps := htimely.tail ⟨_, PollLoop.step_of_exec _ hfail, .inl ⟨_, _, rfl⟩⟩
  have hreq : Servers.versioned.failingRuns.request (.init 1) versionOne :=
    ⟨⟨trivial, by decide⟩, by decide⟩
  exact ⟨s.pool, c, hc, hresult, waitPoll_broadcast (by decide) (.init 1) hreq
    (hcode ▸ .run (by decide) hsteps (.inr hbroken)) hc⟩

end Libmc
