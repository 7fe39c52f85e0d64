import Libmc.GoClient
import Libmc.Replied

/-!
# What `Client::incr` and `Client::decr` return

A number that is received whole is the result, modulo `2 ^ 64`; `NOT_FOUND` is handed out as `NULL`,
and an error line leaves no result. A result is pushed as soon as the first digit is there, with the
value 0, so a reply that is cut off among its digits is handed out as 0 (`waitPoll_number`).
-/

namespace Libmc

variable {c : Connection} {p p' : ConnectionPool} {i m n : ℕ} {srv : Servers} {op : IncrDecrOp}
  {delta : UInt64} {key : Bytes × Routed} {k : Bytes} {l : ReplyLine} {got : Bytes} {code : ErrCode}

/-- What is made of the first bytes of a number. -/
def numberRead (key : Bytes) (m len : ℕ) : List UnsignedResult :=
  if len = 0 then []
  else if len ≤ (Decimal.numeral m).length then [{}]
  else [⟨some key, m % 2 ^ 64⟩]

theorem numberRead_cases (key : Bytes) (m len : ℕ) :
    numberRead key m len = [] ∨ ∃ r, numberRead key m len = [r] := by
  unfold numberRead
  split_ifs
  · exact .inl rfl
  · exact .inr ⟨_, rfl⟩
  · exact .inr ⟨_, rfl⟩

namespace PacketParser

variable {v w : Flat} {last : Option ErrCode}

theorem returns_digits (hend : v.canEndParse = false) (hst : v.state = .start)
    (hnone : v.unsignedResults = []) (hne : v.bufferReader ≠ [])
    (hdigits : ∀ x ∈ v.bufferReader, isDigit x) :
    ∃ u, Loop.Returns body v (.incompleteBufferErr, u) ∧ u.unsignedResults = [{}] ∧
      u.messageResults = v.messageResults := by
  obtain ⟨c, t, hr⟩ := List.exists_cons_of_ne_nil hne
  have hc : isDigit c := hdigits c (by rw [hr]; exact List.mem_cons_self)
  have hfirst := body_ok hend hst (startState_digit hr hc)
  have hend₁ : (setState .incrDecrStart (pushUnsigned v)).canEndParse = false :=
    canEndParse_after hend rfl rfl rfl rfl
  have hsecond : incrDecrStart (setState .incrDecrStart (pushUnsigned v)) = (incomplete,
      modifyUnsigned (fun inner => { inner with value := 0 })
        (setState .incrDecrStart (pushUnsigned v))) := by
    unfold incrDecrStart
    rw [ParseM.assign_bind]
    exact ParseM.bind_error (readUnsigned_none hdigits)
  refine ⟨_, (Loop.returns_of_inl hfirst).2 (Loop.returns_of_inr (body_stop hend₁ rfl hsecond)), ?_,
    rfl⟩
  show (v.unsignedResults ++ [({} : UnsignedResult)]).modifyLast _ = [{}]
  rw [hnone]
  rfl

theorem reaches_number {t : Bytes} (hend : v.canEndParse = false) (hst : v.state = .start)
    (hnone : v.unsignedResults = []) (hr : v.bufferReader = Decimal.numeral m ++ cr :: t) :
    ∃ u, Loop.Reaches body v u ∧ u.canEndParse = false ∧ u.state = .incrDecrRemaining ∧
      u.bufferReader = t ∧ u.unsignedResults = [⟨some v.requestKey, m % 2 ^ 64⟩] ∧
      u.messageResults = v.messageResults ∧ u.mode = v.mode ∧
      u.requestKeyIdx = v.requestKeyIdx ∧ u.requestKeys = v.requestKeys := by
  obtain ⟨c, ds, hds⟩ := List.exists_cons_of_ne_nil (Decimal.numeral_ne_nil m)
  have hc : isDigit c := isDigit_of_mem_numeral (n := m) (by rw [hds]; exact List.mem_cons_self)
  have hfirst := body_ok hend hst
    (startState_digit (c := c) (t := ds ++ cr :: t) (by rw [hr, hds]; rfl) hc)
  have hend₁ : (setState .incrDecrStart (pushUnsigned v)).canEndParse = false :=
    canEndParse_after hend rfl rfl rfl rfl
  have hsecond := body_ok hend₁ rfl (incrDecrStart_at
    (v := setState .incrDecrStart (pushUnsigned v)) hr (Decimal.numeral_ne_nil m)
    (fun _ => isDigit_of_mem_numeral) isDigit_cr)
  refine ⟨_, .head hfirst (.single hsecond), canEndParse_after hend₁ rfl rfl rfl rfl, rfl, rfl, ?_,
    rfl, rfl, rfl, rfl⟩
  have hvalue : foldDigits 0 (Decimal.numeral m) = m % 2 ^ 64 := by
    have hfold := foldDigits_mod 0 (Decimal.numeral m)
    rwa [show Decimal.valueFrom 0 (Decimal.numeral m) = m from Decimal.value_numeral m] at hfold
  show (v.unsignedResults ++ [({} : UnsignedResult)]).modifyLast
    (fun _ => ⟨some v.requestKey, foldDigits 0 (Decimal.numeral m)⟩) = _
  rw [hnone, hvalue]
  rfl

theorem returns_lineEnd (hend : v.canEndParse = false) (hst : v.state = .incrDecrRemaining)
    (hm : v.mode = .counting) (hnext : v.requestKeyIdx + 1 = v.requestKeys.length)
    (ht : v.bufferReader = [] ∨ v.bufferReader = [lf]) :
    ∃ e u, Loop.Returns body v (e, u) ∧ u.unsignedResults = v.unsignedResults ∧
      u.messageResults = v.messageResults := by
  rcases ht with ht | ht
  · have hline : incrDecrRemaining v = (incomplete, v) := by
      unfold incrDecrRemaining
      exact ParseM.bind_error (skipUntil_none (by rw [ht]; exact List.not_mem_nil))
    exact ⟨_, v, Loop.returns_of_inr (body_stop hend hst hline), rfl, rfl⟩
  · let u : Flat := setState .start
      { v with bufferReader := [], requestKeyIdx := v.requestKeyIdx + 1 }
    have hline : body v = .inl u :=
      body_ok hend hst (incrDecrRemaining_at (u := []) (t := []) ht List.not_mem_nil)
    have hdone : u.canEndParse = true := by
      rw [canEndParse_counting (v := u) hm]
      exact decide_eq_true hnext
    exact ⟨.ok, u, (Loop.returns_of_inl hline).2 (Loop.returns_of_inr (body_of_canEndParse hdone)),
      rfl, rfl⟩

theorem Ready.feed_one (hv : v.Ready [k] .counting) (got : Bytes) :
    (v.feed got).canEndParse = false ∧ (v.feed got).requestKey = k ∧
      (v.feed got).requestKeyIdx + 1 = (v.feed got).requestKeys.length := by
  have hidx : (v.feed got).requestKeyIdx = 0 := hv.requestKeyIdx
  have hkeys : (v.feed got).requestKeys = [k] := hv.requestKeys
  refine ⟨?_, ?_, by rw [hidx, hkeys]; rfl⟩
  · rw [canEndParse_counting (v := v.feed got) hv.mode, hidx, hkeys]
    rfl
  · unfold requestKey
    rw [hidx, hkeys]
    rfl

/-- **A part of a number.** -/
theorem Took.number (h : v.Took got last w) (hv : v.Ready [k] .counting)
    (hgot : got <+: Decimal.numeral m ++ crlf) :
    w.unsignedResults = numberRead k m got.length ∧ w.messageResults = [] := by
  have hfeed := hv.feed_bufferReader got
  obtain ⟨hend, hkey, hone⟩ := hv.feed_one got
  by_cases hnil : got = []
  · subst hnil
    obtain ⟨-, rfl⟩ := h.eq_of_nil
    exact ⟨hv.unsignedResults, hv.messageResults⟩
  -- something has been given, so the last call has left `w`
  have hcall : ∀ {e u}, Loop.Returns body (v.feed got) (e, u) → w = u := fun hret =>
    (h.cases hv hret).elim (fun hempty => absurd hempty.1 hnil) And.right
  have hpos := List.length_pos_of_ne_nil hnil
  by_cases hle : got.length ≤ (Decimal.numeral m).length
  · have hdigits : got <+: Decimal.numeral m :=
      List.prefix_of_prefix_length_le hgot (List.prefix_append _ _) hle
    obtain ⟨u, hret, hu, hms⟩ := returns_digits (v := v.feed got) hend hv.state hv.unsignedResults
      (by rwa [hfeed]) (by rw [hfeed]; exact fun x hx => isDigit_of_mem_numeral (hdigits.subset hx))
    obtain rfl := hcall hret
    refine ⟨?_, hms.trans hv.messageResults⟩
    rw [hu, numberRead, if_neg hpos.ne', if_pos hle]
  · obtain ⟨t, rfl, ht⟩ : ∃ t, got = Decimal.numeral m ++ cr :: t ∧ (t = [] ∨ t = [lf]) := by
      rcases prefix_append_cases hgot with ⟨hdigits, -⟩ | ⟨Q, rfl, hQ⟩
      · exact absurd hdigits.length_le hle
      · rcases Q with _ | ⟨c, t⟩
        · rw [List.append_nil] at hle
          exact absurd le_rfl hle
        · obtain ⟨rfl, ht⟩ := List.cons_prefix_cons.1 hQ
          refine ⟨t, rfl, ?_⟩
          rcases t with _ | ⟨d, t⟩
          · exact .inl rfl
          · obtain ⟨rfl, hnone⟩ := List.cons_prefix_cons.1 ht
            obtain rfl : t = [] := List.prefix_nil.1 hnone
            exact .inr rfl
    obtain ⟨u, hreach, hend₁, hst₁, hrest, hu, hms, hmode, hidx, hkeys⟩ :=
      reaches_number (v := v.feed _) hend hv.state hv.unsignedResults hfeed
    have hnext : u.requestKeyIdx + 1 = u.requestKeys.length := by
      rw [hidx, hkeys]
      exact hone
    obtain ⟨e, u', hret, hunsigned, hmessages⟩ :=
      returns_lineEnd hend₁ hst₁ (hmode.trans hv.mode) hnext (hrest.symm ▸ ht)
    obtain rfl := hcall (hreach.returns_iff.2 hret)
    refine ⟨?_, hmessages.trans (hms.trans hv.messageResults)⟩
    rw [hunsigned, hu, hkey, numberRead, if_neg hpos.ne', if_neg hle]

theorem returns_line (hend : v.canEndParse = false) (hst : v.state = .start)
    (hm : v.mode = .counting) (hnext : v.requestKeyIdx + 1 = v.requestKeys.length) (hl : l.Single)
    (hr : v.bufferReader = l.bytes) :
    ∃ e u, Loop.Returns body v (e, u) ∧ u.unsignedResults = v.unsignedResults ∧
      u.messageResults = v.messageResults ++
        (if l.messageType.isSome then [l.result v.requestKey] else []) ∧
      (e = .ok → l.messageType.isSome) := by
  have hline : startState v = lineAction l { v with bufferReader := [] } :=
    startState_line hl (by rw [List.append_nil, hr])
  unfold lineAction at hline
  rcases htype : l.messageType with _ | tp <;> rw [htype] at hline
  · refine ⟨_, _, Loop.returns_of_inr (body_stop hend hst hline), rfl, (List.append_nil _).symm, ?_⟩
    intro hok
    cases l <;> cases hok
  · have htp : tp ≠ .ok := by
      rintro rfl
      cases l <;> cases htype
    have hdone : (processMessageResult tp ({ v with bufferReader := [] } : Flat)).canEndParse =
        true := by
      rw [canEndParse_counting (by rw [processMessageResult_mode]; exact hm)]
      refine decide_eq_true ?_
      rw [processMessageResult_requestKeyIdx, if_neg htp, processMessageResult_requestKeys]
      exact hnext
    refine ⟨_, _, (Loop.returns_of_inl (body_ok hend hst hline)).2
      (Loop.returns_of_inr (body_of_canEndParse hdone)), ?_, ?_, fun _ => rfl⟩
    · unfold processMessageResult
      rw [if_neg htp]
    · rw [processMessageResult_messageResults _ htp, ReplyLine.result, htype]
      rfl

/-- **A part of a line** in place of a number: a message leaves a message, an error line nothing. -/
theorem Took.line (h : v.Took got last w) (hv : v.Ready [k] .counting) (hl : l.Single)
    (hgot : got <+: l.bytes) : w.unsignedResults = [] ∧
      w.messageResults = (if got = l.bytes ∧ l.messageType.isSome then [l.result k] else []) ∧
      (last = some .ok → l.messageType.isSome) := by
  have hfeed := hv.feed_bufferReader got
  obtain ⟨hend, hkey, hnext⟩ := hv.feed_one got
  obtain ⟨e, u, hret, hunsigned, hmessages, hok⟩ : ∃ e u, Loop.Returns body (v.feed got) (e, u) ∧
      u.unsignedResults = v.unsignedResults ∧ u.messageResults = v.messageResults ++
        (if got = l.bytes ∧ l.messageType.isSome then [l.result k] else []) ∧
      (e = .ok → l.messageType.isSome) := by
    by_cases hall : got = l.bytes
    · simp only [hall, true_and]
      rw [← hkey, hall]
      exact returns_line (v := v.feed l.bytes) (hall ▸ hend) hv.state hv.mode hnext hl (hall ▸ hfeed)
    · obtain ⟨b, hb⟩ := hgot
      have hbnil : b ≠ [] := fun hnil => hall (by rw [← hb, hnil, List.append_nil])
      have hcut : startState (v.feed got) = (incomplete, v.feed got) :=
        startState_prefix hl (hfeed.symm ▸ hb) hbnil
      refine ⟨_, _, Loop.returns_of_inr (body_stop hend hv.state hcut), rfl, ?_, nofun⟩
      rw [if_neg fun h => hall h.1]
      exact (List.append_nil _).symm
  rw [hv.messageResults, List.nil_append] at hmessages
  rcases h.cases hv hret with ⟨rfl, rfl, rfl⟩ | ⟨rfl, rfl⟩
  · refine ⟨hv.unsignedResults, ?_, nofun⟩
    rw [hv.messageResults, if_neg fun h => ReplyLine.bytes_ne_nil l h.1.symm]
  · exact ⟨hunsigned.trans hv.unsignedResults, hmessages, fun h => hok (Option.some.inj h)⟩

end PacketParser

/-! ### The results of a command -/

/-- What `ConnectionPool::collectUnsignedResult` takes from the only active connection; `none` is
`NULL`. -/
def PacketParser.unsignedResult {ρ τ : Type} (q : PacketParser ρ τ) : List (Option UnsignedResult) :=
  if q.unsignedResults.length = 1 then q.unsignedResults.map some
  else if q.messageResults.length = 1 then [none]
  else []

namespace PacketParser

theorem unsignedResult_number {q : Blocks} {len : ℕ}
    (hunsigned : q.view.unsignedResults = numberRead k m len) (hmessages : q.view.messageResults = []) :
    q.unsignedResult = (numberRead k m len).map some := by
  have hu : q.unsignedResults = numberRead k m len := hunsigned
  have hms : q.messageResults = [] := hmessages
  unfold unsignedResult
  rw [hu, hms]
  rcases numberRead_cases k m len with heq | ⟨r, heq⟩
  · rw [heq]
    rfl
  · rw [heq]
    rfl

theorem unsignedResult_line {q : Blocks} {P : Prop} [Decidable P]
    (hunsigned : q.view.unsignedResults = [])
    (hmessages : q.view.messageResults = if P then [l.result k] else []) :
    q.unsignedResult = if P then [none] else [] := by
  have hu : q.unsignedResults = [] := hunsigned
  have hms : q.messageResults = if P then [l.result k] else [] := hmessages
  unfold unsignedResult
  rw [hu, hms]
  by_cases hP : P
  · rw [if_pos hP, if_pos hP]
    rfl
  · rw [if_neg hP, if_neg hP]
    rfl

end PacketParser

/-- `ConnectionPool::collectUnsignedResult`. -/
def ConnectionPool.collectUnsignedResult (p : ConnectionPool) : List (Option UnsignedResult) :=
  match p.activeConns with
  | [i] => (p.conns[i]?.map (·.parser.unsignedResult)).getD []
  | _ => []

/-- The connection of the key, if it is valid and has one. -/
def numberConn (key : Bytes × Routed) : Option ℕ := if isValidKey key.1 then key.2.conn else none

theorem Request.active_incrDecr (hp : p.Clean) (op : IncrDecrOp) (delta : UInt64) (noreply : Bool)
    (key : Bytes × Routed) : ((Request.incrDecr op delta noreply key).dispatch p).activeConns =
      (numberConn key).toList := by
  show (p.dispatchIncrDecr op delta noreply key).activeConns = _
  have hgetConn : (p.getConn key.2).activeConns = [] :=
    (ConnectionPool.sameActive_foldl _ _ _ p).activeConns.trans hp.activeConns
  unfold ConnectionPool.dispatchIncrDecr numberConn
  rcases isValidKey key.1 with _ | _
  · exact hp.activeConns
  · rcases key.2.conn with _ | i
    · exact hgetConn
    · exact congrArg (· ++ [i]) hgetConn

theorem Request.commandsFor_incrDecr (p : ConnectionPool) (op : IncrDecrOp) (delta : UInt64)
    (hi : numberConn key = some i) : (Request.incrDecr op delta false key).commandsFor p i =
      [.incrDecr op key.1 delta.toInt64.toInt false] ∧
        (Request.incrDecr op delta false key).keysFor i = [key.1] := by
  have hitems : Request.itemsFor id i [key] = [key.1] := by
    unfold numberConn at hi
    split_ifs at hi with hvalid
    have hcond : (isValidKey (id key.1) && key.2.conn = some i) = true := by
      rw [hi, show isValidKey (id key.1) = true from hvalid]
      simp
    unfold Request.itemsFor
    rw [List.filter_singleton, hcond]
    rfl
  refine ⟨?_, ?_⟩
  · show (Request.itemsFor id i [key]).map _ = _
    rw [hitems]
    rfl
  · show (if false then [] else Request.itemsFor id i [key]) = _
    rw [hitems]
    rfl

theorem Connection.Responded.number {c : Connection} {n : ℕ} {got bs : Bytes}
    (h : Responded srv p (.incrDecr op delta false key) i code c n got)
    (hi : numberConn key = some i)
    (hbs : srv.reply i c.traffic.socket n (.incrDecr op key.1 delta.toInt64.toInt false) = bs) :
    got.length ≤ bs.length ∧ (code = .ok → got.length = bs.length) ∧
      (∀ m, bs = Decimal.numeral m ++ crlf →
        c.parser.unsignedResult = (numberRead key.1 m got.length).map some) ∧
      ∀ l : ReplyLine, l.Single → bs = l.bytes → (code = .ok → l.messageType.isSome) ∧
        c.parser.unsignedResult =
          if got.length = bs.length ∧ l.messageType.isSome then [none] else [] := by
  obtain ⟨hcommands, hkeys⟩ := Request.commandsFor_incrDecr p op delta hi
  have hpart := h.part
  have hwhole := h.whole
  rw [hcommands, Servers.answers_singleton rfl, hbs] at hpart hwhole
  obtain ⟨v, hready, htook⟩ := h.took
  rw [hkeys] at hready
  refine ⟨hpart.length_le, fun hcode => ?_, fun m hm => ?_, fun l hl hline => ?_⟩
  · rw [(hwhole hcode).1]
  · rw [hm] at hpart
    obtain ⟨hunsigned, hmessages⟩ := htook.number hready hpart
    exact PacketParser.unsignedResult_number hunsigned hmessages
  · rw [hline] at hpart hwhole
    obtain ⟨hunsigned, hmessages, hmessage⟩ := htook.line hready hl hpart
    refine ⟨fun hcode => hmessage ((hwhole hcode).2 (by
      show 0 < ((Request.incrDecr op delta false key).keysFor i).length
      rw [hkeys]
      exact Nat.one_pos)), ?_⟩
    refine (PacketParser.unsignedResult_line hunsigned hmessages).trans (if_congr ?_ rfl rfl)
    rw [hline]
    exact and_congr_left' ⟨congrArg List.length, hpart.eq_of_length⟩

theorem ConnectionPool.collectUnsignedResult_of {c : Connection} (hactive : p.activeConns = [i])
    (hc : p.conns[i]? = some c) : p.collectUnsignedResult = c.parser.unsignedResult := by
  unfold collectUnsignedResult
  rw [hactive]
  dsimp only
  rw [hc]
  rfl

/-- A number that is read whole is the number. -/
theorem numberRead_whole (key : Bytes) (m : ℕ) :
    numberRead key m (Decimal.numeral m ++ crlf).length = [⟨some key, m % 2 ^ 64⟩] := by
  unfold numberRead
  rw [List.length_append, show crlf.length = 2 from rfl, if_neg (by omega), if_neg (by omega)]

end Libmc
