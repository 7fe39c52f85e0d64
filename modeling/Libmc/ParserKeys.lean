import Libmc.ParserReplies

/-!
# Looking up the request keys

`processMessageResult` and `FSM_INCR_DECR_START` look up `m_requestKeys[m_requestKeyIdx]`. In
`MODE_COUNTING` the loop ends when the index meets the number of keys, so every look-up is in range.
In `MODE_END_STATE` nothing compares them, and there are no keys: a message line or a number in the
reply to a retrieval is looked up past the end. The look-ups of a call are in range exactly when the
unread bytes do not lead there (`requestKeys_inRange_iff`). What a call does to the keys is read off
its steps by a `Ladder`, which names what holds before an action and what holds after it.
-/

namespace Libmc

namespace PacketParser

variable {v v' q : Flat} {t w : Bytes} {k : ℕ} {pl : Place}

/-! ## What a round does about the keys -/

theorem canEndParse_of_inl (h : body v = .inl v') : v.canEndParse = false := by
  rcases hend : v.canEndParse with _ | _
  · rfl
  · rw [body_of_canEndParse hend] at h
    cases h

/-- An assignment that has nothing to do with the keys and the messages. -/
structure Apart (g : Flat → Flat) : Prop where
  requestKeyIdx : ∀ v, (g v).requestKeyIdx = v.requestKeyIdx
  requestKeys : ∀ v, (g v).requestKeys = v.requestKeys
  mode : ∀ v, (g v).mode = v.mode
  outOfRange : ∀ v, (g v).outOfRange = v.outOfRange
  messageResults : ∀ v, (g v).messageResults = v.messageResults

/-- What the states may come to from a property of the keys and the messages. At most one message is
pushed, one key looked up or one passed. -/
structure Ladder (I J : Flat → Prop) : Prop where
  after : ∀ v, I v → J v
  apart : ∀ g, Apart g → ∀ v, I v → I (g v)
  message : ∀ tp v, tp ≠ .ok → I v → J (processMessageResult tp v)
  ok : ∀ v, I v → J (setState .end_ (processMessageResult .ok v))
  lookUp : ∀ v, I v → J (setState .incrDecrRemaining
    { modifyUnsigned (fun inner => { inner with key := some v.requestKey }) v with
      outOfRange := v.outOfRange || v.pastKeys })
  pass : ∀ v, I v → J (setState .start { v with requestKeyIdx := v.requestKeyIdx + 1 })

namespace Ladder

variable {I J : Flat → Prop} (h : Ladder I J)

include h

theorem bytes (v : Flat) (t : Bytes) (hv : I v) : I { v with bufferReader := t } :=
  h.apart (fun v => { v with bufferReader := t })
    ⟨fun _ => rfl, fun _ => rfl, fun _ => rfl, fun _ => rfl, fun _ => rfl⟩ v hv

theorem assign {g : Flat → Flat} (hidx : ∀ v, (g v).requestKeyIdx = v.requestKeyIdx)
    (hkeys : ∀ v, (g v).requestKeys = v.requestKeys) (hmode : ∀ v, (g v).mode = v.mode)
    (hflag : ∀ v, (g v).outOfRange = v.outOfRange)
    (hmessages : ∀ v, (g v).messageResults = v.messageResults) : Keeps I (ParseM.assign g) :=
  h.apart g ⟨hidx, hkeys, hmode, hflag, hmessages⟩

theorem setState (st : ParserState) : Keeps I (ParseM.assign (setState st)) :=
  h.assign (fun _ => rfl) (fun _ => rfl) (fun _ => rfl) (fun _ => rfl) fun _ => rfl

theorem modifyKv (g : RetrievalResult Bytes → RetrievalResult Bytes) :
    Keeps I (ParseM.assign (modifyKv g)) :=
  h.assign (fun _ => rfl) (fun _ => rfl) (fun _ => rfl) (fun _ => rfl) fun _ => rfl

theorem skip (n : ℕ) {f : ParseM Bytes Bytes Unit} (hf : Keeps I f) :
    Keeps I (do skipBytes n; f) := (keeps_skipBytes h.bytes n).bind fun _ => hf

theorem push {g : Flat → Flat} (hg : Keeps I (ParseM.assign g)) (st : ParserState) :
    Keeps I (do ParseM.assign g; ParseM.assign (PacketParser.setState st)) :=
  hg.bind fun _ => h.setState st

theorem errorLine (e : ErrCode) : Keeps I (errorLine e) :=
  (keeps_readUntil h.bytes lf).bind fun _ => h.skip 1 <|
    Keeps.bind (h.assign (fun _ => rfl) (fun _ => rfl) (fun _ => rfl) (fun _ => rfl) fun _ => rfl)
      fun _ => (h.setState .error).bind fun _ => keeps_stop e

theorem processLineResult : Keeps I processLineResult :=
  Keeps.bind (h.assign (fun _ => rfl) (fun _ => rfl) (fun _ => rfl) (fun _ => rfl) fun _ => rfl)
    fun _ => (keeps_readUntil h.bytes lf).bind fun _ => Keeps.bind
      (h.assign (fun _ => rfl) (fun _ => rfl) (fun _ => rfl) (fun _ => rfl) fun _ => rfl)
      fun _ => keeps_skipBytes h.bytes 1

theorem messageLine (n : ℕ) {tp : MessageResultType} (htp : tp ≠ .ok) :
    LeadsTo I J (PacketParser.message n tp) :=
  (keeps_skipBytes h.bytes n).bind_leadsTo h.after fun _ =>
    leadsTo_assign fun v hv => h.message tp v htp hv

theorem startO : LeadsTo I J startO := by
  have heq : PacketParser.startO = (do
      skipBytes 4
      ParseM.assign fun v : Flat => PacketParser.setState .end_ (processMessageResult .ok v)) := by
    funext v
    have hbind : ∀ {α β : Type} (m : ParseM Bytes Bytes α) (f : α → ParseM Bytes Bytes β) v,
        (m >>= f) v = ParseM.bind m f v := fun _ _ _ => rfl
    unfold PacketParser.startO PacketParser.message
    simp only [hbind, ParseM.bind]
    rcases skipBytes 4 v with ⟨_ | _, w⟩ <;> rfl
  rw [heq]
  exact (keeps_skipBytes h.bytes 4).bind_leadsTo h.after fun _ => leadsTo_assign h.ok

theorem startState : LeadsTo I J startState := by
  have hretrieval : Keeps I (ParseM.assign pushRetrieval) :=
    h.assign (fun _ => rfl) (fun _ => rfl) (fun _ => rfl) (fun _ => rfl) fun _ => rfl
  have hline : Keeps I (ParseM.assign pushLine) :=
    h.assign (fun _ => rfl) (fun _ => rfl) (fun _ => rfl) (fun _ => rfl) fun _ => rfl
  have hunsigned : Keeps I (ParseM.assign pushUnsigned) :=
    h.assign (fun _ => rfl) (fun _ => rfl) (fun _ => rfl) (fun _ => rfl) fun _ => rfl
  have hv : Keeps I startV := (keeps_peek 1).bind fun _ =>
    .ite (h.skip 6 (h.push hretrieval _)) <|
    .ite (h.skip 8 (h.push hline _)) (keeps_pure ())
  have he : LeadsTo I J startE :=
    (keeps_peek 1).bind_leadsTo h.after fun _ => .ite ((h.errorLine _).leadsTo h.after) <|
      .ite ((h.skip 5 (h.setState _)).leadsTo h.after) <|
      .ite (h.messageLine 8 (by decide)) ((keeps_pure ()).leadsTo h.after)
  have hs : LeadsTo I J startS :=
    (keeps_peek 2).bind_leadsTo h.after fun _ => (keeps_peek 1).bind_leadsTo h.after fun _ =>
      .ite (.ite (h.messageLine 8 (by decide))
        ((h.skip 5 (h.push hline _)).leadsTo h.after))
        ((h.errorLine _).leadsTo h.after)
  have hn : LeadsTo I J startN :=
    (keeps_peek 4).bind_leadsTo h.after fun _ => .ite (h.messageLine 11 (by decide)) <|
      .ite (h.messageLine 12 (by decide)) ((keeps_pure ()).leadsTo h.after)
  exact (keeps_peek 0).bind_leadsTo h.after fun _ => .ite (hv.leadsTo h.after) <| .ite he <|
    .ite h.startO <| .ite hs <| .ite (h.messageLine 9 (by decide)) <| .ite hn <|
    .ite (h.messageLine 9 (by decide)) <| .ite ((h.errorLine _).leadsTo h.after) <|
    .ite ((h.push hunsigned _).leadsTo h.after) ((keeps_stop _).leadsTo h.after)

theorem number (g : ℕ → RetrievalResult Bytes → RetrievalResult Bytes) (st : ParserState) :
    Keeps I (do
      let n ← readUnsigned; ParseM.assign (PacketParser.modifyKv (g n)); skipBytes 1
      ParseM.assign (PacketParser.setState st)) :=
  (keeps_readUnsigned h.bytes).bind fun _ => (h.modifyKv _).bind fun _ =>
    (keeps_skipBytes h.bytes 1).bind fun _ => h.setState _

theorem getStart : Keeps I getStart :=
  (h.modifyKv _).bind fun _ => (keeps_readUntil h.bytes space).bind fun _ =>
    (h.modifyKv _).bind fun _ => (keeps_skipBytes h.bytes 1).bind fun _ => h.setState _

theorem getBytes : Keeps I getBytes :=
  Keeps.bind ((keeps_peek 0).bind fun _ => .ite (h.modifyKv _) <|
    (h.modifyKv _).bind fun _ => (keeps_readUnsigned h.bytes).bind fun _ =>
      (h.modifyKv _).bind fun _ => keeps_skipBytes h.bytes 1) fun _ => h.setState _

theorem getValueRemaining : Keeps I getValueRemaining := by
  refine Keeps.bind (fun v hv => ?_) fun _ =>
    (keeps_skipBytes h.bytes 2).bind fun _ => h.setState _
  rw [readDataBlock_eq]
  split_ifs
  · refine (h.modifyKv _).bind (fun _ => Keeps.bind (fun w hw => ?_) fun _ =>
      (keeps_readBytes h.bytes _).bind fun _ => h.modifyKv _) v hv
    rw [ParseM.assign_apply, wishForBlock_flat]
    exact hw
  · exact hv

theorem incrDecrStart : LeadsTo I J incrDecrStart := by
  have hvalue : ∀ n : ℕ, Keeps I
      (ParseM.assign (modifyUnsigned fun inner => { inner with value := n })) := fun n =>
    h.assign (fun _ => rfl) (fun _ => rfl) (fun _ => rfl) (fun _ => rfl) fun _ => rfl
  exact (hvalue 0).bind_leadsTo h.after fun _ =>
    (keeps_readUnsigned h.bytes).bind_leadsTo h.after fun n =>
    (hvalue n).bind_leadsTo h.after fun _ =>
    (keeps_skipBytes h.bytes 1).bind_leadsTo h.after fun _ =>
    fun v hv => ⟨h.lookUp v hv, nofun⟩

theorem incrDecrRemaining : LeadsTo I J incrDecrRemaining :=
  (keeps_skipUntil h.bytes lf).bind_leadsTo h.after fun _ =>
    (keeps_skipBytes h.bytes 1).bind_leadsTo h.after fun _ =>
    fun v hv => ⟨h.pass v hv, nofun⟩

/-- **What a state comes to.** -/
theorem stateAction (st : ParserState) : LeadsTo I J (stateAction st) := by
  cases st with
  | start => exact h.startState
  | getStart => exact h.getStart.leadsTo h.after
  | getKey => exact (h.number _ _).leadsTo h.after
  | getFlags => exact (h.number _ _).leadsTo h.after
  | getBytes => exact h.getBytes.leadsTo h.after
  | getCas => exact (h.skip 1 ((h.modifyKv _).bind fun _ => h.setState _)).leadsTo h.after
  | getValueRemaining => exact h.getValueRemaining.leadsTo h.after
  | incrDecrStart => exact h.incrDecrStart
  | incrDecrRemaining => exact h.incrDecrRemaining
  | verStart => exact (h.processLineResult.bind fun _ => h.setState _).leadsTo h.after
  | statStart => exact (h.processLineResult.bind fun _ => h.setState _).leadsTo h.after
  | end_ => exact (keeps_pure ()).leadsTo h.after
  | error => exact (keeps_pure ()).leadsTo h.after

theorem body (hb : body v = .inl v') (hv : I v) : J v' := by
  have hend := canEndParse_of_inl hb
  have hs := (h.stateAction v.state v hv).1
  rw [body_eq hend] at hb
  rcases hv : PacketParser.stateAction v.state v with ⟨e | _, w⟩ <;> rw [hv] at hs hb
  · cases hb
  · exact Sum.inl.inj hb ▸ hs

theorem body_inr {r : ErrCode × Flat} (hb : PacketParser.body v = .inr r) (hv : I v) : I r.2 := by
  rcases hend : v.canEndParse with _ | _
  · have hs := (h.stateAction v.state v hv).2
    rw [body_eq hend] at hb
    rcases hv : PacketParser.stateAction v.state v with ⟨e | _, w⟩ <;> rw [hv] at hs hb
    · exact Sum.inr.inj hb ▸ hs e rfl
    · cases hb
  · rw [body_of_canEndParse hend] at hb
    exact Sum.inr.inj hb ▸ hv

end Ladder

/-- The index, the keys and the look-ups so far. -/
structure KeysAt (i : ℕ) (ks : List Bytes) (md : ParserMode) (b : Bool) (v : Flat) : Prop where
  idx : v.requestKeyIdx = i
  keys : v.requestKeys = ks
  mode : v.mode = md
  flag : v.outOfRange = b

/-- At most one key is passed, and at most one is looked up: the one that was next. -/
structure KeysAfter (i : ℕ) (ks : List Bytes) (md : ParserMode) (b : Bool) (v : Flat) : Prop where
  idx : v.requestKeyIdx = i ∨ v.requestKeyIdx = i + 1
  keys : v.requestKeys = ks
  mode : v.mode = md
  flag : v.outOfRange = b ∨ v.outOfRange = (b || decide (ks.length ≤ i))

theorem KeysAt.after {i : ℕ} {ks : List Bytes} {md : ParserMode} {b : Bool}
    (h : KeysAt i ks md b v) : KeysAfter i ks md b v :=
  ⟨.inl h.idx, h.keys, h.mode, .inl h.flag⟩

theorem ladder_keys (i : ℕ) (ks : List Bytes) (md : ParserMode) (b : Bool) :
    Ladder (KeysAt i ks md b) (KeysAfter i ks md b) where
  after _ h := h.after
  apart g hg v h := ⟨(hg.requestKeyIdx v).trans h.idx, (hg.requestKeys v).trans h.keys,
    (hg.mode v).trans h.mode, (hg.outOfRange v).trans h.flag⟩
  message tp v htp h := by
    refine ⟨.inr ?_, ?_, ?_, .inr ?_⟩
    · rw [processMessageResult_requestKeyIdx, if_neg htp, h.idx]
    · rw [processMessageResult_requestKeys, h.keys]
    · rw [processMessageResult_mode, h.mode]
    · unfold processMessageResult
      rw [if_neg htp]
      show (v.outOfRange || decide (v.requestKeys.length ≤ v.requestKeyIdx)) = _
      rw [h.flag, h.keys, h.idx]
  ok _ h := ⟨.inl h.idx, h.keys, h.mode, .inl h.flag⟩
  lookUp v h := by
    refine ⟨.inl h.idx, h.keys, h.mode, .inr ?_⟩
    show (v.outOfRange || decide (v.requestKeys.length ≤ v.requestKeyIdx)) = _
    rw [h.flag, h.keys, h.idx]
  pass _ h := ⟨.inr (congrArg (· + 1) h.idx), h.keys, h.mode, .inl h.flag⟩

theorem body_keys (h : body v = .inl v') :
    KeysAfter v.requestKeyIdx v.requestKeys v.mode v.outOfRange v' :=
  (ladder_keys _ _ _ _).body h ⟨rfl, rfl, rfl, rfl⟩

theorem body_inr_keys {r : ErrCode × Flat} (h : body v = .inr r) :
    KeysAt v.requestKeyIdx v.requestKeys v.mode v.outOfRange r.2 :=
  (ladder_keys _ _ _ _).body_inr h ⟨rfl, rfl, rfl, rfl⟩

/-- A look-up past the keys is not forgotten. -/
theorem outOfRange_of_reaches (h : Loop.Reaches body v v') (hv : v.outOfRange = true) :
    v'.outOfRange = true := by
  refine h.invariant (I := fun v => v.outOfRange = true) (fun v v' hv hb => ?_) hv
  rcases (body_keys hb).flag with hf | hf <;> rw [hf, hv]
  rfl

/-- The end of the keys ends the call: the mode compares the index with them, and the index has not
left them. -/
def Counts {ρ τ : Type} (p : PacketParser ρ τ) : Prop :=
  p.mode ≠ .endState ∧ p.requestKeyIdx ≤ p.requestKeys.length

/-- In `MODE_COUNTING` a round looks up a key that is there. -/
theorem Counts.round (h : v.Counts) (hb : body v = .inl v') :
    v'.Counts ∧ v'.outOfRange = v.outOfRange := by
  obtain ⟨hm, hle⟩ := h
  have hk := body_keys hb
  have hlt : v.requestKeyIdx < v.requestKeys.length := by
    have hend := canEndParse_of_inl hb
    unfold canEndParse at hend
    rw [if_neg hm] at hend
    exact lt_of_le_of_ne hle (of_decide_eq_false hend)
  refine ⟨⟨hk.mode ▸ hm, ?_⟩, ?_⟩
  · rw [hk.keys]
    rcases hk.idx with h | h <;> omega
  · rcases hk.flag with h | h
    · exact h
    · rw [h, decide_eq_false (by omega), Bool.or_false]

theorem Counts.reaches (h : v.Counts) (hreach : Loop.Reaches body v v') :
    v'.Counts ∧ v'.outOfRange = v.outOfRange :=
  hreach.invariant (I := fun u => u.Counts ∧ u.outOfRange = v.outOfRange)
    (fun _ _ hu hb => ⟨(hu.1.round hb).1, (hu.1.round hb).2.trans hu.2⟩) ⟨h, rfl⟩

/-! ## Where the unread bytes lead -/

/-- The unread bytes lead past the keys: through fields that answer all of them, to a field for which
one more is looked up. -/
def LooksPast (v : Flat) : Prop :=
  ∃ w u t k pl k' pl', v.bufferReader = w ++ (u ++ t) ∧ Pieces v.place w k pl ∧ Piece pl u k' pl' ∧
    LooksUp pl k' pl' ∧ v.requestKeys.length ≤ v.requestKeyIdx + k

/-- Reading a field does not hide what is behind it. -/
theorem LooksPast.of_reads (hp : Piece v.place w k pl) (hr : v.bufferReader = w ++ t)
    (h : Reads1 v t k pl v') (hl : v'.LooksPast) : v.LooksPast := by
  obtain ⟨w', u, t', k', pl', k'', pl'', hr', hps, hpiece, hlooks, hle⟩ := hl
  rw [h.place] at hps
  rw [h.keys, h.idx] at hle
  refine ⟨w ++ w', u, t', k + k', pl', k'', pl'', ?_, .cons hp hps, hpiece, hlooks, by omega⟩
  rw [hr, ← h.bytes, hr', List.append_assoc]

/-- **The grammar leads past the keys: a look-up out of range is on the way.** -/
theorem LooksPast.outOfRange (h : v.LooksPast) (hres : v.HasResult) (hcount : ¬ v.Counts) :
    ∃ v', Loop.Reaches body v v' ∧ v'.outOfRange = true := by
  obtain ⟨w, u, t, k, pl, k', pl', hr, hps, hpiece, hlooks, hle⟩ := h
  have hmiss : ∀ j, v.mode ≠ .endState → v.KeysMissing j := fun _ hne hc =>
    hcount ⟨hne, hc.1⟩
  obtain ⟨v₁, h₁⟩ := reads_pieces hps rfl hres (hmiss k) hr
  have hend := h₁.canEndParse hpiece.not_end (hmiss k)
  obtain ⟨v₂, h₂⟩ := reads_piece hpiece h₁.place hend h₁.result h₁.bytes
  refine ⟨v₂, h₁.reaches.trans h₂.reaches, ?_⟩
  have hpast : v₁.pastKeys = true := by
    unfold pastKeys
    rw [h₁.keys, h₁.idx]
    exact decide_eq_true hle
  rw [h₂.looked, looked, if_pos hlooks, hpast, Bool.or_true]

/-- **It leads nowhere past them: every look-up is in range**, by induction on the number of unread
bytes. -/
theorem inRange_of_not_looksPast (hres : v.HasResult) (hf : v.outOfRange = false)
    (hl : ¬ v.LooksPast) (hreach : Loop.Reaches body v q) : q.outOfRange = false := by
  induction hn : v.bufferReader.length using Nat.strong_induction_on generalizing v with
  | _ n ih =>
    have hstays : ∀ {r}, body v = .inr r → q.outOfRange = false := fun hb =>
      hreach.eq_of_inr hb ▸ hf
    have hstuck : body v = .inl v → q.outOfRange = false := fun hb => hreach.eq_of_stuck hb ▸ hf
    rcases hend : v.canEndParse with _ | _
    swap
    · exact hstays (body_of_canEndParse hend)
    by_cases herr : v.state = .error
    · exact hstuck (body_ok hend herr rfl)
    by_cases hst : v.state = .end_
    · exact hstuck (body_ok hend hst rfl)
    rcases advance hend herr hst with (⟨r, hb⟩ | ⟨-, r, hb, hb'⟩) | hstray | ⟨w, t, k, pl, hr, hp⟩
    · exact hstays hb
    · -- a digit whose number has not arrived
      rcases hreach.of_inl hb with rfl | hreach'
      · exact hf
      · rw [hreach'.eq_of_inr hb']
        exact hf
    · exact hstuck (body_stuck hend (.inl hstray))
    · obtain ⟨v₁, h₁⟩ := reads_piece hp rfl hend hres hr
      have hflag₁ : v₁.outOfRange = false := by
        rw [h₁.looked, looked, hf]
        split_ifs with hlooks
        · refine decide_eq_false fun hle => hl ?_
          exact ⟨[], w, t, 0, v.place, k, pl, hr, .nil, hp, hlooks, hle⟩
        · rfl
      rcases hreach.total h₁.reaches with h | h
      · rcases hq : q.outOfRange with _ | _
        · rfl
        · exact absurd (outOfRange_of_reaches h hq) (by rw [hflag₁]; decide)
      · have hpos := hp.pos
        have hlt : v₁.bufferReader.length < n := by
          rw [← hn, h₁.bytes, hr, List.length_append]
          omega
        exact ih _ hlt h₁.result hflag₁ (fun h' => hl (h'.of_reads hp hr h₁.toReads1)) h rfl

theorem reaches_inRange_iff (hres : v.HasResult) (hf : v.outOfRange = false) :
    (∀ q, Loop.Reaches body v q → q.outOfRange = false) ↔
      v.Counts ∨ ¬ v.LooksPast := by
  constructor
  · intro h
    by_contra hc
    obtain ⟨hcount, hl⟩ := not_or.1 hc
    obtain ⟨v', hreach, hv'⟩ := (not_not.1 hl).outOfRange hres hcount
    rw [h v' hreach] at hv'
    cases hv'
  · rintro (hcount | hl) q hreach
    · exact (hcount.reaches hreach).2.trans hf
    · exact inRange_of_not_looksPast hres hf hl hreach

/-! ## The parser in use -/

section

variable {ρ τ : Type} [ByteReader ρ τ]

/-- The parser at the beginning of a call, with no look-up noted. -/
def watched (p : PacketParser ρ τ) : PacketParser ρ τ := { p.enter with outOfRange := false }

/-- Every `m_requestKeys[m_requestKeyIdx]` of a call of `process_packets` is in range: none is noted
in a state that the loop passes through, nor when it returns. -/
def InRange (p : PacketParser ρ τ) : Prop :=
  (∀ q, Loop.Reaches body p.watched q → q.outOfRange = false) ∧
    ∀ r, Loop.Returns body p.watched r → r.2.outOfRange = false

end

theorem inRange_flat_iff :
    v.InRange ↔ ∀ q, Loop.Reaches body v.watched q → q.outOfRange = false := by
  refine ⟨fun h => h.1, fun h => ⟨h, fun r hr => ?_⟩⟩
  obtain ⟨q, hreach, hq⟩ := hr.last
  rw [(body_inr_keys hq).flag]
  exact h q hreach

theorem Ok.watched {p : Blocks} (h : p.Ok) : p.watched.Ok :=
  ⟨h.enter.wf, h.enter.results, h.enter.lines⟩

/-- The parser over blocks makes the look-ups of the parser over bytes. -/
theorem inRange_view {p : Blocks} (h : p.Ok) : p.InRange ↔ p.view.InRange := by
  have hview : p.view.watched = p.watched.view := by
    unfold watched
    rw [← view_enter]
    rfl
  have hreach : ∀ v, Loop.Reaches body p.watched.view v ↔
      ∃ q, Loop.Reaches body p.watched q ∧ q.Ok ∧ q.view = v := fun v =>
    Loop.Reaches.map_iff (I := Ok) (fun _ q hp hq => (body_view hp).2.1 q hq)
      (fun _ hp => (body_view hp).1) h.watched
  unfold InRange
  rw [hview]
  refine and_congr ⟨?_, ?_⟩ ⟨?_, ?_⟩
  · intro hq v hv
    obtain ⟨q, hr, -, rfl⟩ := (hreach v).1 hv
    exact hq q hr
  · intro hv q hr
    have hok : q.Ok := hr.invariant (I := Ok) (fun _ q hp hq => (body_view hp).2.1 q hq) h.watched
    exact hv q.view ((hreach _).2 ⟨q, hr, hok, rfl⟩)
  · rintro hr ⟨e, v⟩ ⟨n, hn⟩
    rw [run_view h.watched] at hn
    obtain ⟨⟨e', q⟩, hq, heq⟩ := Option.map_eq_some_iff.1 hn
    obtain ⟨rfl, rfl⟩ := Prod.mk.inj heq
    exact hr _ ⟨n, hq⟩
  · rintro hr ⟨e, q⟩ ⟨n, hn⟩
    refine hr (e, q.view) ⟨n, ?_⟩
    rw [run_view h.watched, hn]
    rfl

theorem enter_keys {ρ τ : Type} (p : PacketParser ρ τ) : p.enter.mode = p.mode ∧
    p.enter.requestKeys = p.requestKeys ∧ p.enter.requestKeyIdx = p.requestKeyIdx := by
  unfold enter
  split_ifs <;> exact ⟨rfl, rfl, rfl⟩

theorem counts_enter {ρ τ : Type} {p : PacketParser ρ τ} : p.enter.Counts ↔ p.Counts := by
  obtain ⟨hmode, hkeys, hidx⟩ := enter_keys p
  unfold Counts
  rw [hmode, hkeys, hidx]

theorem Counts.feed {p : Blocks} (h : p.Counts) (cap : ℕ) (bs : Bytes) :
    ((machine cap).feed p bs).Counts := h

/-- The index that a dispatch has set to 0 stays within the keys from call to call. -/
theorem Counts.returns {p q : Blocks} {e : ErrCode} (h : p.Counts) (hok : p.Ok)
    (hr : p.Returns (e, q)) : q.Counts := by
  obtain ⟨u, hreach, hu⟩ := Loop.Returns.last (hr.view hok).2
  have hcounts : u.Counts := (Counts.reaches (counts_enter.2 (show p.view.Counts from h)) hreach).1
  have hk := body_inr_keys hu
  have hq : q.view.Counts := ⟨hk.mode ▸ hcounts.1, hk.idx ▸ hk.keys ▸ hcounts.2⟩
  exact hq

/-- **When the keys are looked up in range.** In every state that earlier calls can leave: if the end
of the keys ends the call, and otherwise exactly if the unread bytes do not lead past them. -/
theorem requestKeys_inRange_iff {cap : ℕ} {p : Blocks} (h : Reachable cap p) :
    p.InRange ↔ p.Counts ∨ ¬ p.view.enter.LooksPast := by
  obtain ⟨hok, hres⟩ := h.inv
  have hres' : p.view.watched.HasResult := enter_hasResult hres
  have hcounts : p.view.watched.Counts ↔ p.Counts := counts_enter (p := p.view)
  rw [inRange_view hok, inRange_flat_iff, reaches_inRange_iff hres' rfl, hcounts]
  rfl

/-- The second of two replies, after a call that has looked up the first key. -/
theorem requestKeys_inRange_iff_second : ∃ p : Blocks,
    ((machine 8192).feed (fresh [ascii "a", ascii "b"] .counting)
      (ascii "NOT_STORED\r\n")).Returns (.incompleteBufferErr, p) ∧
    p.messageResults = [⟨.notStored, some (ascii "a")⟩] ∧
    ((machine 8192).feed p (ascii "EXISTS\r\n")).InRange := by
  obtain ⟨p, hp, hmessages, hmode, hkeys, hidx⟩ : ∃ p : Blocks,
      ((machine 8192).feed (fresh [ascii "a", ascii "b"] .counting)
        (ascii "NOT_STORED\r\n")).Returns (.incompleteBufferErr, p) ∧
      p.messageResults = [⟨.notStored, some (ascii "a")⟩] ∧ p.mode = .counting ∧
      p.requestKeys = [ascii "a", ascii "b"] ∧ p.requestKeyIdx = 1 :=
    ⟨_, ⟨3, rfl⟩, rfl, rfl, rfl, rfl⟩
  have hcounts : p.Counts := by
    unfold Counts
    rw [hmode, hidx, hkeys]
    decide
  have hreach := Reachable.process (.write (.fresh [ascii "a", ascii "b"] .counting) _) hp
  exact ⟨p, hp, hmessages, (requestKeys_inRange_iff (.write hreach _)).2 (.inl (hcounts.feed _ _))⟩

/-- A reply of the wrong kind: nothing was asked for by key, and `STORED` is answered. -/
theorem requestKeys_stored :
    Reachable 8192 ((machine 8192).feed (fresh [] .endState) (ascii "STORED\r\n")) ∧
      ¬ ((machine 8192).feed (fresh [] .endState) (ascii "STORED\r\n")).InRange := by
  refine ⟨.write (.fresh [] .endState) _, fun h => ?_⟩
  obtain ⟨q, hq, hflag⟩ : ∃ q, body ((machine 8192).feed (fresh [] .endState)
      (ascii "STORED\r\n")).watched = .inl q ∧ q.outOfRange = true := ⟨_, rfl, rfl⟩
  rw [h.1 q (.single hq)] at hflag
  cases hflag

end PacketParser

end Libmc
