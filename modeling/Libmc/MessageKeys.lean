import Libmc.ParserKeys
import Libmc.PollDone
import Libmc.Rewind

/-!
# Messages are for keys

In `MODE_COUNTING` each message is for the key that comes next, so that the keys of the messages are
among the request keys, in order. The exception is a line `OK`, which has no key, but then the call
does not return. A connection in the loop of a command has messages for no more than the keys that
the command has left it (`messages_waitPoll`).
-/

namespace Libmc

namespace PacketParser

variable {v v' w : Flat} {ks : List Bytes} {ms : List MessageResult} {err : ErrCode} {n : ℕ}

/-! ### A call of the parser -/

/-- The index, the keys and the messages so far. -/
structure MessagesAt (i : ℕ) (ks : List Bytes) (ms : List MessageResult) (v : Flat) : Prop where
  idx : v.requestKeyIdx = i
  keys : v.requestKeys = ks
  mode : v.mode = .counting
  messages : v.messageResults = ms

/-- At most one message is pushed, for the key that was next, unless it is `OK`. -/
structure MessagesAfter (i : ℕ) (ks : List Bytes) (ms : List MessageResult) (v : Flat) : Prop where
  keys : v.requestKeys = ks
  mode : v.mode = .counting
  messages : (v.requestKeyIdx = i ∨ v.requestKeyIdx = i + 1) ∧ v.messageResults = ms ∨
    v.requestKeyIdx = i + 1 ∧ (∃ tp, v.messageResults = ms ++ [⟨tp, some (ks[i]?.getD [])⟩]) ∨
    v.requestKeyIdx = i ∧ v.state = .end_

theorem ladder_messages (i : ℕ) (ks : List Bytes) (ms : List MessageResult) :
    Ladder (MessagesAt i ks ms) (MessagesAfter i ks ms) where
  after _ h := ⟨h.keys, h.mode, .inl ⟨.inl h.idx, h.messages⟩⟩
  apart g hg v h := ⟨(hg.requestKeyIdx v).trans h.idx, (hg.requestKeys v).trans h.keys,
    (hg.mode v).trans h.mode, (hg.messageResults v).trans h.messages⟩
  message tp v htp h := by
    refine ⟨?_, ?_, .inr (.inl ⟨?_, tp, ?_⟩)⟩
    · rw [processMessageResult_requestKeys, h.keys]
    · rw [processMessageResult_mode, h.mode]
    · rw [processMessageResult_requestKeyIdx, if_neg htp, h.idx]
    · rw [processMessageResult_messageResults v htp, requestKey, h.messages, h.keys, h.idx]
  ok _ h := ⟨h.keys, h.mode, .inr (.inr ⟨h.idx, rfl⟩)⟩
  lookUp _ h := ⟨h.keys, h.mode, .inl ⟨.inl h.idx, h.messages⟩⟩
  pass _ h := ⟨h.keys, h.mode, .inl ⟨.inr (congrArg (· + 1) h.idx), h.messages⟩⟩

/-- Between calls: the messages are for keys that have been passed. -/
structure Answering (ks : List Bytes) (v : Flat) : Prop where
  keys : v.requestKeys = ks
  mode : v.mode = .counting
  idx_le : v.requestKeyIdx ≤ ks.length
  messages : (v.messageResults.map (·.key)).Sublist ((ks.take v.requestKeyIdx).map some)

/-- In a call: so they are, or the call does not return. -/
structure Tallying (ks : List Bytes) (v : Flat) : Prop where
  keys : v.requestKeys = ks
  mode : v.mode = .counting
  idx_le : v.requestKeyIdx ≤ ks.length
  messages : (v.messageResults.map (·.key)).Sublist ((ks.take v.requestKeyIdx).map some) ∨
    v.state = .end_ ∧ v.requestKeyIdx ≠ ks.length

theorem Tallying.canEndParse (h : v.Tallying ks) :
    v.canEndParse = decide (v.requestKeyIdx = ks.length) := by
  rw [canEndParse_counting h.mode, h.keys]

theorem Tallying.body (h : v.Tallying ks) (hb : body v = .inl v') : v'.Tallying ks := by
  have hend := canEndParse_of_inl hb
  have hne : v.requestKeyIdx ≠ ks.length := of_decide_eq_false (h.canEndParse.symm.trans hend)
  have hlt := lt_of_le_of_ne h.idx_le hne
  rcases h.messages with hsub | ⟨hst, -⟩
  swap
  · -- the state does nothing
    rw [body_ok hend hst rfl] at hb
    exact Sum.inl.inj hb ▸ h
  obtain ⟨hkeys, hmode, hcases⟩ :=
    (ladder_messages v.requestKeyIdx ks v.messageResults).body hb ⟨rfl, h.keys, h.mode, rfl⟩
  have htake : ks.take (v.requestKeyIdx + 1) =
      ks.take v.requestKeyIdx ++ [ks[v.requestKeyIdx]?.getD []] := by
    rw [List.take_add_one, List.getElem?_eq_getElem hlt]
    rfl
  rcases hcases with ⟨hidx | hidx, hms⟩ | ⟨hidx, tp, hms⟩ | ⟨hidx, hst⟩
  · exact ⟨hkeys, hmode, hidx.trans_le h.idx_le, .inl (by rw [hms, hidx]; exact hsub)⟩
  · refine ⟨hkeys, hmode, hidx.trans_le hlt, .inl ?_⟩
    rw [hms, hidx, htake, List.map_append]
    exact hsub.trans (List.sublist_append_left _ _)
  · refine ⟨hkeys, hmode, hidx.trans_le hlt, .inl ?_⟩
    rw [hms, hidx, htake, List.map_append, List.map_append]
    exact hsub.append (List.Sublist.refl _)
  · exact ⟨hkeys, hmode, hidx.trans_le h.idx_le, .inr ⟨hst, hidx ▸ hne⟩⟩

theorem Tallying.body_inr (h : v.Tallying ks) {r : ErrCode × Flat}
    (hb : PacketParser.body v = .inr r) : Answering ks r.2 := by
  have hsub : (v.messageResults.map (·.key)).Sublist ((ks.take v.requestKeyIdx).map some) := by
    refine h.messages.resolve_right fun hhangs => ?_
    have hend := h.canEndParse.trans (decide_eq_false hhangs.2)
    rw [body_ok hend hhangs.1 rfl] at hb
    cases hb
  obtain ⟨hidx, hkeys, hmode, hms⟩ :=
    (ladder_messages v.requestKeyIdx ks v.messageResults).body_inr hb ⟨rfl, h.keys, h.mode, rfl⟩
  exact ⟨hkeys, hmode, hidx.trans_le h.idx_le, by rw [hms, hidx]; exact hsub⟩

/-- **What a call does about the messages.** -/
theorem Answering.call (h : v.Answering ks) (hrun : Loop.run body n v.enter = some (err, w)) :
    w.Answering ks := by
  refine Loop.run_invariant (I := Tallying ks) (J := fun r => Answering ks r.2)
    (fun _ _ hv hb => hv.body hb) (fun _ _ hv hb => hv.body_inr hb) ?_ hrun
  unfold enter
  split_ifs
  · exact ⟨h.keys, h.mode, h.idx_le, .inl h.messages⟩
  · exact ⟨h.keys, h.mode, h.idx_le, .inl h.messages⟩

theorem Ready.answering {md : ParserMode} (h : v.Ready ks md) (hmode : md = .counting) :
    v.Answering ks := by
  refine ⟨h.requestKeys, h.mode.trans hmode, ?_, ?_⟩
  · rw [h.requestKeyIdx]
    exact Nat.zero_le _
  · rw [h.messageResults]
    exact List.nil_sublist _

end PacketParser

/-! ### The loop of a command -/

variable {c : Connection} {p p' : ConnectionPool} {r : Revents} {a : Answers} {e e' : Entry}
  {part : Part} {jump : Bool} {i : ℕ} {rule : PollLoop → Event → PollLoop → Prop} {rules : Rules}
  {req : Request}

/-- A connection whose messages are for its keys. -/
structure Connection.Answering (ks : List Bytes) (c : Connection) : Prop where
  ok : c.parser.Ok
  view : c.parser.view.Answering ks

theorem Entry.Effect.answering {ks : List Bytes} (h : Effect r a e part jump e')
    (he : e.conn.Answering ks) : e'.conn.Answering ks := by
  have hwaited : ∀ {d}, Connection.Waited e.conn d → d.Answering ks := fun hd =>
    ⟨hd.replies.ok he.ok, hd.replies.view_eq he.ok ▸ he.view⟩
  cases h with
  | idle => exact he
  | rewound _ _ hd h =>
    obtain ⟨hok, hkeys, hmode, -, -⟩ := hwaited hd
    refine ⟨h.ok hok, ?_⟩
    rw [h.view_eq hok]
    exact ⟨hkeys, hmode, Nat.zero_le _, List.nil_sublist _⟩
  | resumed _ hd h => exact ⟨h.work.parser_eq ▸ (hwaited hd).ok, h.work.parser_eq ▸ (hwaited hd).view⟩
  | givenUp _ hd h => exact ⟨h.work.parser_eq ▸ (hwaited hd).ok, h.work.parser_eq ▸ (hwaited hd).view⟩
  | peeked _ _ _ hd => exact hwaited hd
  | sent => exact ⟨he.ok, he.view⟩
  | @received bs d d' err _ _ _ hd hp =>
    obtain ⟨hok, hrun⟩ := Connection.process_view (hd.ok he.ok) hp
    rw [hd.view_eq he.ok] at hrun
    have hfed : (e.conn.parser.view.feed bs).Answering ks :=
      ⟨he.view.keys, he.view.mode, he.view.idx_le, he.view.messages⟩
    have hd' : d'.Answering ks := ⟨hok, hfed.call hrun⟩
    have hparser := (Connection.sameWork_markDead a.deadTime d').parser_eq
    exact conn_parsed hd' ⟨hparser ▸ hd'.ok, hparser ▸ hd'.view⟩

def answeringSlot (p : ConnectionPool) (req : Request) : SlotInvariant where
  holds k c _ := c.LiveFd ∧
    ∀ i, (req.dispatch p).activeConns[k]? = some i → c.Answering (req.keysFor i)
  reported _ _ _ _ := True

theorem local_answeringSlot (p : ConnectionPool) (req : Request) :
    (answeringSlot p req).Local fun _ _ _ _ => True where
  report _ _ _ _ _ _ := trivial
  part k part r a e jump e' := by
    rintro ⟨hlive, hanswering⟩ - - hrun
    have heffect := Entry.run_cases hlive hrun
    exact ⟨⟨heffect.live hlive, fun i hi => heffect.answering (hanswering i hi)⟩,
      fun _ _ _ => trivial⟩

theorem inv_answeringSlot (hp : Reachable rules p) (hmode : req.parserMode = .counting) :
    (answeringSlot p req).Inv (req.dispatch p).startPoll := by
  refine SlotInvariant.inv_startPoll (req.dispatch_active hp.clean).1 fun k i c hi hc => ?_
  refine ⟨req.live_dispatch hp.live c (List.mem_of_getElem? hc), fun j hj => ?_⟩
  obtain rfl := Option.some.inj (hi.symm.trans hj)
  obtain ⟨base, -, -, hdis, hactive⟩ := req.dispatched hp hc
  obtain ⟨-, keys, md, hwaiting⟩ := req.waiting_dispatch hp.clean hp.waiting hc
  have hparser := hdis.parser_eq (hactive.1 (List.mem_of_getElem? hi))
  have hready := hwaiting.ready
  obtain rfl : keys = req.keysFor i := by
    rw [← hready.requestKeys, PacketParser.view, hparser]
  obtain rfl : md = req.parserMode := by
    rw [← hready.mode, PacketParser.view, hparser]
  exact ⟨hwaiting.ok, hready.answering hmode⟩

/-- **Messages are for keys.** If `waitPoll` returns `RET_OK`, the keys of the messages of a
connection are among those that wait for replies there, in order. -/
theorem messages_waitPoll (hp : Reachable rules p) (hmode : req.parserMode = .counting)
    (halive : ∀ i ∈ (req.dispatch p).activeConns, ∀ c, (req.dispatch p).conns[i]? = some c →
      c.alive = true) (hwait : (req.dispatch p).WaitPoll rule .ok p')
    (hi : i ∈ (req.dispatch p).activeConns) (hc : p'.conns[i]? = some c) :
    (c.parser.messageResults.map (·.key)).Sublist ((req.keysFor i).map some) := by
  obtain ⟨s, hs, hfinished, rfl, -⟩ := hwait.finished halive
  have hinv := (inv_answeringSlot hp hmode).steps (local_answeringSlot p req)
    (fun _ _ _ _ _ _ _ _ _ _ _ _ _ _ => trivial) hs (by rw [hfinished]; nofun)
  obtain ⟨k, hk⟩ := List.mem_iff_getElem?.1 hi
  obtain ⟨fd, hslot⟩ := ((PollLoop.aligned_startPoll (req.dispatch p)).steps hs).slot hk hc
  have hanswering := (hinv.slots k c fd hslot).2 i hk
  exact hanswering.view.messages.trans ((List.take_sublist _ _).map some)

end Libmc
