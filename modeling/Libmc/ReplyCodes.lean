import Libmc.Numbers

/-!
# The code of the replies

A parser that has been given all that is answered to the commands of a connection asks for no more:
the code is `RET_OK`, or that of an error line if there is one (`Ready.concludes_answers`). So for as
long as it asks for more, more is to come (`Took.owed`), and a call on what comes next returns
(`Took.call_returns`).
-/

namespace Libmc

variable {cmd : Command} {cmds : List Command} {bs : Bytes} {i socket n : ℕ} {srv : Servers}
  {req : Request} {p : ConnectionPool} {l : ReplyLine} {ls : List ReplyLine}

/-! ### Error lines -/

/-- A line that says that a server has failed. -/
def ErrorLine (bs : Bytes) : Prop := ∃ l : ReplyLine, l.Single ∧ l.messageType = none ∧ bs = l.bytes

/-- One of the commands is answered by an error line; they are the `n`-th on a socket and those
after it. -/
def Servers.Fails (srv : Servers) (i socket : ℕ) : ℕ → List Command → Prop
  | _, [] => False
  | n, cmd :: cmds => cmd.expectsReply = true ∧ ErrorLine (srv.reply i socket n cmd) ∨
      Fails srv i socket (n + 1) cmds

theorem Servers.not_fails (h : ∀ cmd ∈ cmds, cmd.expectsReply = false) (n : ℕ) :
    ¬ srv.Fails i socket n cmds := by
  induction cmds generalizing n with
  | nil => exact id
  | cons cmd cmds ih =>
    rintro (⟨hcmd, -⟩ | hrest)
    · cases (h cmd List.mem_cons_self).symm.trans hcmd
    · exact ih (fun c hc => h c (List.mem_cons_of_mem cmd hc)) (n + 1) hrest

theorem Servers.fails_singleton (h : cmd.expectsReply = true) :
    srv.Fails i socket n [cmd] ↔ ErrorLine (srv.reply i socket n cmd) :=
  ⟨fun hfails => hfails.elim And.right False.elim, fun herr => .inl ⟨h, herr⟩⟩

namespace PacketParser

variable {v u w : Flat} {ks : List Bytes} {key got rest R : Bytes} {last : Option ErrCode}
  {e : ErrCode} {md : ParserMode} {failed : Prop}

/-- The parser tells a message from an error line. -/
theorem errorLine_iff (hl : l.Single) : ErrorLine l.bytes ↔ l.messageType = none := by
  refine ⟨?_, fun hnone => ⟨l, hl, hnone, rfl⟩⟩
  rintro ⟨l', hl', hnone, heq⟩
  have hline := startState_line (v := { bufferReader := l.bytes }) (t := []) hl
    (List.append_nil _).symm
  rw [startState_line (t := []) hl' (by rw [List.append_nil, heq])] at hline
  unfold lineAction at hline
  rw [hnone] at hline
  rcases htype : l.messageType with _ | tp
  · rfl
  · rw [htype] at hline
    cases (Prod.mk.inj hline).1

theorem lines_fails (h : srv.Lines i socket n cmds ls)
    (hreply : ∀ cmd ∈ cmds, cmd.expectsReply = true) :
    srv.Fails i socket n cmds ↔ ∃ l ∈ ls, l.messageType = none := by
  induction h with
  | nil => exact iff_of_false id (by rintro ⟨l, hl, -⟩; cases hl)
  | @cons n cmd cmds l ls hl h _ ih =>
    obtain ⟨hcmd, hcmds⟩ := List.forall_mem_cons.1 hreply
    rw [Servers.Fails, ih hcmds, h, errorLine_iff hl, List.exists_mem_cons_iff]
    exact or_congr_left (and_iff_right hcmd)

/-! ### A call on all of a reply -/

/-- A call on all of a reply does not ask for more, and is content unless the reply has failed. -/
def Concludes (v : Flat) (R : Bytes) (failed : Prop) : Prop :=
  ∃ e u, Loop.Returns body (v.feed R) (e, u) ∧ e ≠ .incompleteBufferErr ∧ (e = .ok ↔ ¬ failed)

theorem Concludes.congr {failed' : Prop} (h : Concludes v R failed) (hiff : failed ↔ failed') :
    Concludes v R failed' := by
  obtain ⟨e, u, hret, hmore, hok⟩ := h
  exact ⟨e, u, hret, hmore, hok.trans (not_congr hiff)⟩

theorem outcome_ok_iff (hlen : ls.length = n) :
    (outcome n ls).1 = .ok ↔ ∀ l ∈ ls, l.messageType ≠ none := by
  constructor
  · intro hok l hl
    have hall : answered n ls = ls :=
      (answered_prefix_of n ls).eq_of_length ((answered_of_ok hok).trans hlen.symm)
    exact messageType_of_answered (hall.symm ▸ hl)
  · intro hmessages
    have hall : answered n ls = ls := by
      unfold answered
      rw [List.take_of_length_le hlen.le, List.takeWhile_eq_self_iff]
      exact fun l hl => Option.isSome_iff_ne_none.2 (hmessages l hl)
    rw [outcome_full (by rw [hall, hlen])]

theorem Ready.concludes_lines (h : Ready v ks .counting) (hls : ∀ l ∈ ls, l.Single)
    (hlen : ls.length = ks.length) :
    Concludes v (linesBytes ls) (∃ l ∈ ls, l.messageType = none) := by
  have hmore : (outcome ks.length ls).1 ≠ .incompleteBufferErr := fun hinc => by
    have := (outcome_incomplete hinc).1
    omega
  have hidx : (v.feed (linesBytes ls)).requestKeyIdx = 0 := h.requestKeyIdx
  have hkeys : (v.feed (linesBytes ls)).requestKeys = ks := h.requestKeys
  obtain ⟨e, u, hret, hcode, -⟩ := returns_lines (v := v.feed (linesBytes ls)) hls h.mode h.state
    (by rw [hidx]; exact Nat.zero_le _) (by rw [hidx, hkeys, List.drop_zero])
    (fun hinc => absurd hinc hmore) (by rw [h.feed_bufferReader, List.append_nil])
  refine ⟨e, u, hret, hcode ▸ hmore, ?_⟩
  rw [hcode, outcome_ok_iff hlen]
  push Not
  exact Iff.rfl

theorem returns_errorLine (hend : (v.feed bs).canEndParse = false) (h : Ready v ks md)
    (herr : ErrorLine bs) : ∃ e u, Loop.Returns body (v.feed bs) (e, u) ∧
      e ≠ .incompleteBufferErr ∧ e ≠ .ok := by
  obtain ⟨l, hl, hnone, rfl⟩ := herr
  have hline : startState (v.feed l.bytes) = _ :=
    startState_line (t := []) hl (by rw [h.feed_bufferReader, List.append_nil])
  have hbody : body (v.feed l.bytes) =
      .inr (l.code, setState .error { v.feed l.bytes with bufferReader := [] }) := by
    rw [body_start hend h.state, hline, lineAction, hnone]
    rfl
  refine ⟨l.code, _, Loop.returns_of_inr hbody, ?_, ?_⟩ <;> cases l <;> exact fun h => ErrCode.noConfusion h

/-- A reply that the parser is content with is no error line. -/
theorem Ready.concludes_ok (h : Ready v ks md) (hend : (v.feed bs).canEndParse = false)
    (hret : Loop.Returns body (v.feed bs) (.ok, u)) : Concludes v bs (ErrorLine bs) := by
  refine ⟨.ok, u, hret, nofun, iff_of_true rfl fun herr => ?_⟩
  obtain ⟨e, u', hret', -, hne⟩ := returns_errorLine hend h herr
  exact hne (Prod.mk.inj (hret'.unique hret)).1

theorem Ready.concludes_error (h : Ready v ks md) (hend : (v.feed bs).canEndParse = false)
    (herr : ErrorLine bs) : Concludes v bs (ErrorLine bs) := by
  obtain ⟨e, u, hret, hmore, hne⟩ := returns_errorLine hend h herr
  exact ⟨e, u, hret, hmore, iff_of_false hne (not_not_intro herr)⟩

theorem Ready.concludes_pieces {k : ℕ} (h : Ready v ks .endState)
    (hp : Pieces (.start, 0) bs k (.end_, 0)) : Concludes v bs (ErrorLine bs) := by
  obtain ⟨w, hw⟩ := reads_pieces (t := []) hp (h.place_feed bs) (h.hasResult bs)
    (fun hm => absurd h.mode hm) (by rw [h.feed_bufferReader, List.append_nil])
  have hend : w.canEndParse = true := by
    unfold canEndParse
    rw [if_pos (hw.mode.trans h.mode), show w.state = _ from congrArg Prod.fst hw.place]
    rfl
  exact h.concludes_ok (canEndParse_start h.mode h.state)
    (hw.reaches.returns_iff.2 (Loop.returns_of_inr (body_of_canEndParse hend)))

theorem Ready.concludes_reply (h : Ready v ks .endState) (hreply : IsReply cmd bs)
    (hcmd : cmd.hasEnd = true) : Concludes v bs (ErrorLine bs) := by
  cases hreply with
  | message hl =>
    cases cmd with
    | retrieval => cases hl
    | bare => cases hl
    | _ => cases hcmd
  | failed hl hnone => exact h.concludes_error (canEndParse_start h.mode h.state) ⟨_, hl, hnone, rfl⟩
  | number n => cases hcmd
  | @items _ _ items hv =>
    obtain ⟨e, u, hret, hcode, -⟩ := returns_reply (v := v.feed (reply items)) hv h.mode h.state
      (by rw [h.feed_bufferReader])
    rw [if_pos (h.feed_bufferReader _)] at hcode
    obtain rfl := hcode
    exact h.concludes_ok (canEndParse_start h.mode h.state) hret
  | @version text htext =>
    have hline : lf ∉ text ++ [cr] := by
      rw [List.mem_append, not_or]
      exact ⟨htext, by decide⟩
    have hbytes : ascii "VERSION " ++ text ++ crlf =
        (86 :: 69 :: [82, 83, 73, 79, 78, 32]) ++ ((text ++ [cr] ++ [lf]) ++ []) := by
      simp [ascii, crlf]
    rw [hbytes]
    exact h.concludes_pieces (.cons (.version rfl) (.cons (.versionLine ⟨_, rfl, hline⟩) .nil))
  | stats hlines => exact h.concludes_pieces (pieces_statLines hlines)
  | flushed => exact h.concludes_pieces (.cons (.ok (w := [75, 13, 10]) rfl) .nil)

theorem Ready.concludes_number (h : Ready v [key] .counting) (m : ℕ) :
    Concludes v (Decimal.numeral m ++ crlf) (ErrorLine (Decimal.numeral m ++ crlf)) := by
  obtain ⟨hend, -, hnext⟩ := h.feed_one (Decimal.numeral m ++ crlf)
  obtain ⟨u, hreach, hend₁, hst₁, hrest, -, -, hmode, hidx, hkeys⟩ :=
    reaches_number (v := v.feed (Decimal.numeral m ++ crlf)) (t := [lf]) hend h.state
      h.unsignedResults (h.feed_bufferReader _)
  obtain ⟨w, hw⟩ := reads_piece (t := []) (.incrDecrLine ⟨[], rfl, List.not_mem_nil⟩)
    (place_eq hst₁ (sizeLeft_zero hst₁ (by decide))) hend₁ (.of_not (by rw [hst₁]; rfl)) hrest
  have hend₂ : w.canEndParse = true := by
    rw [canEndParse_counting (hw.mode.trans (hmode.trans h.mode)), hw.idx, hw.keys, hidx, hkeys]
    exact decide_eq_true hnext
  exact h.concludes_ok hend (hreach.returns_iff.2 (hw.reaches.returns_iff.2
    (Loop.returns_of_inr (body_of_canEndParse hend₂))))

theorem Ready.concludes_incrDecr {op : OpCode} {delta : ℤ} {noreply : Bool}
    (h : Ready v [key] .counting) (hreply : IsReply (.incrDecr op key delta noreply) bs) :
    Concludes v bs (ErrorLine bs) := by
  have hline : ∀ l : ReplyLine, l.Single → Concludes v l.bytes (ErrorLine l.bytes) := fun l hl => by
    have hone := h.concludes_lines (List.forall_mem_singleton.2 hl) (by rfl)
    rw [show linesBytes [l] = l.bytes from List.append_nil _] at hone
    refine hone.congr ?_
    rw [errorLine_iff hl]
    simp
  cases hreply with
  | message hl => exact hline _ (ReplyLine.single_of_messages hl)
  | failed hl _ => exact hline _ hl
  | number m => exact h.concludes_number m

/-- **A call on all that is answered to a request** asks for no more, and is content unless there is
an error line. -/
theorem Ready.concludes_answers (h : Ready v (req.keysFor i) req.parserMode)
    (hpos : 0 < req.counterFor i) (hne : req.commandsFor p i ≠ []) :
    Concludes v (srv.answers i socket n (req.commandsFor p i))
      (srv.Fails i socket n (req.commandsFor p i)) := by
  have hreply : ∀ cmd ∈ req.commandsFor p i, cmd.expectsReply = true := fun cmd hcmd =>
    (req.expectsReply_iff hcmd).2 hpos
  have hlines : req.HasMessages → Concludes v (srv.answers i socket n (req.commandsFor p i))
      (srv.Fails i socket n (req.commandsFor p i)) := fun hreq => by
    obtain ⟨hmode, -, hline, hlength⟩ := hreq.lines p i
    obtain ⟨ls, hls⟩ : ∃ ls, srv.Lines i socket n (req.commandsFor p i) ls :=
      Servers.exists_lines hreply hline n
    rw [hmode] at h
    rw [hls.answers_eq hreply]
    exact (h.concludes_lines hls.single (hls.length_eq.trans hlength.symm)).congr
      (lines_fails hls hreply).symm
  have hone : ∀ cmd, req.commandsFor p i = [cmd] →
      (IsReply cmd (srv.reply i socket n cmd) → Concludes v (srv.reply i socket n cmd)
        (ErrorLine (srv.reply i socket n cmd))) →
      Concludes v (srv.answers i socket n (req.commandsFor p i))
        (srv.Fails i socket n (req.commandsFor p i)) := fun cmd hcmds hcall => by
    have hcmd := hreply cmd (by rw [hcmds]; exact List.mem_singleton_self cmd)
    rw [hcmds, Servers.answers_singleton hcmd]
    exact (hcall (srv.isReply i socket n cmd hcmd)).congr (Servers.fails_singleton hcmd).symm
  cases req with
  | storage op exptime noreply items =>
    cases noreply with
    | true => exact absurd hpos (lt_irrefl 0)
    | false => exact hlines rfl
  | deletion noreply keys =>
    cases noreply with
    | true => exact absurd hpos (lt_irrefl 0)
    | false => exact hlines rfl
  | touch exptime noreply keys =>
    cases noreply with
    | true => exact absurd hpos (lt_irrefl 0)
    | false => exact hlines rfl
  | incrDecr op delta noreply key =>
    cases noreply with
    | true => exact absurd hpos (lt_irrefl 0)
    | false =>
      obtain ⟨k, hk⟩ : ∃ k, Request.itemsFor id i [key] = [k] := by
        have hle : (Request.itemsFor id i [key]).length ≤ 1 := by
          rw [Request.itemsFor, List.length_map]
          exact List.length_filter_le _ _
        exact List.length_eq_one_iff.1 (le_antisymm hle hpos)
      have hready : Ready v [k] .counting := by
        rw [← hk]
        exact h
      refine hone (.incrDecr op k delta.toInt64.toInt false) ?_ hready.concludes_incrDecr
      rw [Request.commandsFor, hk]
      rfl
  | retrieval op keys =>
    exact hone (.retrieval op (Request.itemsFor id i keys))
      (if_neg (List.ne_nil_of_length_pos hpos)) fun hcmd => Ready.concludes_reply h hcmd rfl
  | broadcast op answers =>
    obtain ⟨cmd, cmds, hcmds⟩ := List.exists_cons_of_ne_nil hne
    have hbare := hcmds
    change (if _ then _ else _) = _ at hbare
    split_ifs at hbare
    obtain ⟨rfl, rfl⟩ := List.cons.inj hbare
    exact hone (.bare op) hcmds fun hcmd => Ready.concludes_reply h hcmd rfl

/-! ### Calls on parts of a reply -/

theorem Ready.enter_feed (h : Ready v ks md) (b : Bytes) : (v.feed b).enter = v.feed b := by
  unfold enter
  rw [show (v.feed b).state = v.state from rfl, h.state]
  rfl

/-- A parser that asks for more is taken up where it stopped. -/
theorem Took.resumed (h : v.Took got last u)
    (hlast : last = none ∨ last = some .incompleteBufferErr) (b : Bytes) (r : ErrCode × Flat) :
    Loop.Returns body (u.feed b).enter r ↔ Loop.Returns body (v.feed (got ++ b)).enter r := by
  cases h with
  | nil => exact Iff.rfl
  | @fed pieces m e _ hne hpieces h =>
    obtain rfl : e = .incompleteBufferErr := by simpa using hlast
    exact flatMachine_resumable.feedPieces_resumed h b r

/-- **A call on what comes next returns.** -/
theorem Took.call_returns (h : v.Took got last u) (hv : v.Ready ks md)
    (hlast : last = none ∨ last = some .incompleteBufferErr) {b : Bytes} (hpart : got ++ b <+: R)
    (hR : Concludes v R failed) : ∃ m e w, Loop.run body m (u.feed b).enter = some (e, w) := by
  obtain ⟨e, w, hret, -⟩ := hR
  obtain ⟨rest, rfl⟩ := hpart
  have hwhole : Loop.Returns body ((u.feed b).feed rest).enter (e, w) := by
    rw [show (u.feed b).feed rest = u.feed (b ++ rest) from flatMachine_resumable.feed_append u b rest,
      h.resumed hlast, ← List.append_assoc, hv.enter_feed]
    exact hret
  obtain ⟨e', w', ⟨m, hm⟩, -⟩ := flatMachine_resumable.returns_part hwhole
  exact ⟨m, e', w', hm⟩

/-- **More is to come** for a parser that asks for more. -/
theorem Took.owed (h : v.Took got last u) (hv : v.Ready ks md)
    (hlast : last = none ∨ last = some .incompleteBufferErr) (hne : R ≠ [])
    (hR : Concludes v R failed) : got ≠ R := by
  rintro rfl
  obtain ⟨e, w, hret, hmore, -⟩ := hR
  rcases h.cases hv hret with ⟨hnil, -, -⟩ | ⟨hlast', -⟩
  · exact hne hnil
  · rcases hlast with hlast | hlast
    · cases hlast'.symm.trans hlast
    · exact hmore (Option.some.inj (hlast'.symm.trans hlast))

/-- **The code of the last call**, when it does not ask for more. -/
theorem Took.code (h : v.Took got (some e) u) (hv : v.Ready ks md) (hpart : got <+: R)
    (hmore : e ≠ .incompleteBufferErr) (hR : Concludes v R failed) : e = .ok ↔ ¬ failed := by
  obtain ⟨e', w, hret, -, hok⟩ := hR
  obtain ⟨rest, rfl⟩ := hpart
  have hwhole : Loop.Returns body ((v.feed got).feed rest).enter (e', w) := by
    rw [show (v.feed got).feed rest = v.feed (got ++ rest) from
      flatMachine_resumable.feed_append v got rest, hv.enter_feed]
    exact hret
  obtain ⟨e'', w'', hcall, hsame⟩ := flatMachine_resumable.returns_part hwhole
  obtain ⟨rfl, rfl⟩ := h.returns hcall
  rw [← hsame hmore]
  exact hok

end PacketParser

end Libmc
