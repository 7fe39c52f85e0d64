import Libmc.Client
import Libmc.ParserReplies

/-!
# Servers that answer completely and in order

A server answers every command that expects a reply with one of the replies of the protocol
(`IsReply`), in the order of the commands, and sends nothing else. What it sends on a socket is
determined by the bytes written to that socket (`Servers.replies`). A parser that is ready for the
replies to a request uses up exactly these (`Ready.expects_answers`).
-/

namespace Libmc

variable {cmd : Command} {cmds cmds' : List Command} {bs : Bytes} {i socket n : ℕ}

/-! ### Replies -/

namespace Command

/-- Whether a command is answered. -/
def expectsReply : Command → Bool
  | storage _ _ _ _ _ _ noreply => !noreply
  | retrieval _ _ => true
  | incrDecr _ _ _ noreply => !noreply
  | touch _ _ noreply => !noreply
  | delete _ noreply => !noreply
  | bare op => op ≠ .quit

/-- The messages that answer a command. -/
def messages : Command → List ReplyLine
  | storage _ _ _ _ _ _ _ => [.stored, .notStored, .exists_, .notFound]
  | incrDecr _ _ _ _ => [.notFound]
  | touch _ _ _ => [.touched, .notFound]
  | delete _ _ => [.deleted, .notFound]
  | _ => []

/-- Whether a command is answered by a line, whatever the line is. -/
def isLine : Command → Bool
  | storage _ _ _ _ _ _ _ => true
  | touch _ _ _ => true
  | delete _ _ => true
  | _ => false

/-- Whether the replies to a command have an end, so that they are not counted. -/
def hasEnd : Command → Bool
  | retrieval _ _ => true
  | bare _ => true
  | _ => false

end Command

/-- The lines of a reply to `stats`. -/
def statLines (lines : List Bytes) : Bytes :=
  lines.flatMap fun line => ascii "STAT " ++ line ++ crlf

inductive IsReply : Command → Bytes → Prop
  | message {cmd : Command} {l : ReplyLine} (h : l ∈ cmd.messages) : IsReply cmd l.bytes
  | failed {cmd : Command} {l : ReplyLine} (hl : l.Single) (h : l.messageType = none) :
      IsReply cmd l.bytes
  | number {op : OpCode} {key : Bytes} {delta : ℤ} {noreply : Bool} (n : ℕ) :
      IsReply (.incrDecr op key delta noreply) (Decimal.numeral n ++ crlf)
  | items {op : OpCode} {keys : List Bytes} {items : List Item} (h : ∀ i ∈ items, i.Valid) :
      IsReply (.retrieval op keys) (reply items)
  | version {text : Bytes} (h : lf ∉ text) :
      IsReply (.bare .version) (ascii "VERSION " ++ text ++ crlf)
  | stats {lines : List Bytes} (h : ∀ line ∈ lines, lf ∉ line) :
      IsReply (.bare .stats) (statLines lines ++ ascii "END\r\n")
  | flushed : IsReply (.bare .flushall) (ascii "OK\r\n")

theorem ReplyLine.bytes_ne_nil (l : ReplyLine) : l.bytes ≠ [] := by
  cases l with
  | clientError text => simp [bytes, crlf]
  | serverError text => simp [bytes, crlf]
  | _ => decide

theorem IsReply.ne_nil (h : IsReply cmd bs) : bs ≠ [] := by
  cases h with
  | message h => exact ReplyLine.bytes_ne_nil _
  | failed hl h => exact ReplyLine.bytes_ne_nil _
  | number n => simp [crlf]
  | items h => simp [reply, ascii]
  | version h => simp [crlf]
  | stats h => simp [ascii]
  | flushed => decide

theorem ReplyLine.single_of_messages {l : ReplyLine} (h : l ∈ cmd.messages) : l.Single := by
  cases cmd with
  | storage => fin_cases h <;> trivial
  | incrDecr => fin_cases h; trivial
  | touch => fin_cases h <;> trivial
  | delete => fin_cases h <;> trivial
  | _ => cases h

theorem IsReply.line (h : IsReply cmd bs) (hcmd : cmd.isLine = true) :
    ∃ l : ReplyLine, l.Single ∧ bs = l.bytes := by
  cases h with
  | message h => exact ⟨_, ReplyLine.single_of_messages h, rfl⟩
  | failed hl _ => exact ⟨_, hl, rfl⟩
  | _ => cases hcmd

/-- The servers: what is answered to the `n`-th command on a socket of a connection. -/
structure Servers where
  reply : ℕ → ℕ → ℕ → Command → Bytes
  isReply : ∀ i socket n cmd, cmd.expectsReply = true → IsReply cmd (reply i socket n cmd)

namespace Servers

variable {srv : Servers}

/-- The answers to commands, from the `n`-th on a socket on. -/
def answers (srv : Servers) (i socket : ℕ) : ℕ → List Command → Bytes
  | _, [] => []
  | n, cmd :: cmds =>
    (if cmd.expectsReply then srv.reply i socket n cmd else []) ++ answers srv i socket (n + 1) cmds

/-- What the server sends on the present socket of a connection, for what is written to it. -/
def replies (srv : Servers) (i : ℕ) (traffic : Traffic) : Bytes :=
  srv.answers i traffic.socket 0 (readCommands traffic.written).1

theorem answers_append (cmds cmds' : List Command) (n : ℕ) :
    srv.answers i socket n (cmds ++ cmds') =
      srv.answers i socket n cmds ++ srv.answers i socket (n + cmds.length) cmds' := by
  induction cmds generalizing n with
  | nil => rfl
  | cons cmd cmds ih =>
    rw [List.cons_append, answers, answers, ih, List.append_assoc, List.length_cons,
      Nat.add_right_comm, Nat.add_assoc n]

theorem answers_eq_nil (h : ∀ cmd ∈ cmds, cmd.expectsReply = false) :
    srv.answers i socket n cmds = [] := by
  induction cmds generalizing n with
  | nil => rfl
  | cons cmd cmds ih =>
    rw [answers, h cmd List.mem_cons_self, ih fun c hc => h c (List.mem_cons_of_mem cmd hc)]
    rfl

theorem answers_ne_nil (h : cmd ∈ cmds) (hreply : cmd.expectsReply = true) :
    srv.answers i socket n cmds ≠ [] := by
  induction cmds generalizing n with
  | nil => cases h
  | cons c cmds ih =>
    rw [answers]
    intro hnil
    obtain ⟨hhead, htail⟩ := List.append_eq_nil_iff.1 hnil
    rcases List.mem_cons.1 h with rfl | h
    · rw [if_pos hreply] at hhead
      exact (srv.isReply i socket n cmd hreply).ne_nil hhead
    · exact ih h htail

theorem answers_singleton (hreply : cmd.expectsReply = true) :
    srv.answers i socket n [cmd] = srv.reply i socket n cmd := by
  rw [answers, if_pos hreply, answers, List.append_nil]

theorem answers_lines (hreply : ∀ cmd ∈ cmds, cmd.expectsReply = true)
    (hline : ∀ cmd ∈ cmds, cmd.isLine = true) :
    ∃ ls : List ReplyLine, ls.length = cmds.length ∧ (∀ l ∈ ls, l.Single) ∧
      srv.answers i socket n cmds = PacketParser.linesBytes ls := by
  induction cmds generalizing n with
  | nil => exact ⟨[], rfl, nofun, rfl⟩
  | cons cmd cmds ih =>
    have hhead := hreply cmd List.mem_cons_self
    obtain ⟨l, hl, hbytes⟩ := (srv.isReply i socket n cmd hhead).line (hline cmd List.mem_cons_self)
    obtain ⟨ls, hlen, hls, heq⟩ := ih (n := n + 1)
      (fun c hc => hreply c (List.mem_cons_of_mem cmd hc))
      fun c hc => hline c (List.mem_cons_of_mem cmd hc)
    refine ⟨l :: ls, congrArg (· + 1) hlen, List.forall_mem_cons.2 ⟨hl, hls⟩, ?_⟩
    rw [answers, if_pos hhead, hbytes, heq]
    rfl

end Servers

/-! ### The parser uses up the replies -/

namespace PacketParser

variable {v : Flat} {ks : List Bytes} {md : ParserMode} {key : Bytes} {ls : List ReplyLine}

theorem Ready.hasResult (h : Ready v ks md) (R : Bytes) : (v.feed R).HasResult :=
  .of_not (by rw [show (v.feed R).state = v.state from rfl, h.state]; rfl)

theorem Ready.place_feed (h : Ready v ks md) (R : Bytes) : (v.feed R).place = (.start, 0) :=
  place_eq h.state (sizeLeft_zero h.state (by decide))

theorem Ready.expects_nil (h : Ready v ks md) : Expects v [] := by
  have hfeed : (v.feed []).bufferReader = [] := h.feed_bufferReader []
  rcases hend : (v.feed []).canEndParse with _ | _
  · refine h.expects (Loop.returns_of_inr (r := (.incompleteBufferErr, v.feed [])) ?_) nofun
    rw [body_start hend h.state, startState_nil hfeed]
    rfl
  · exact h.expects (Loop.returns_of_inr (body_of_canEndParse hend)) fun _ => hfeed

theorem Ready.expects_lines (h : Ready v ks .counting) (hls : ∀ l ∈ ls, l.Single)
    (hlen : ls.length = ks.length) : Expects v (linesBytes ls) := by
  have htr : Trailing ks.length ls [] := fun hinc => absurd (outcome_incomplete hinc).1 (by omega)
  obtain ⟨e, w, hret, hcode, -, hunread⟩ := returns_lines (v := v.feed (linesBytes ls)) hls h.mode
    h.state (by rw [show (v.feed _).requestKeyIdx = _ from h.requestKeyIdx]; exact Nat.zero_le _)
    (by
      rw [show (v.feed _).requestKeyIdx = _ from h.requestKeyIdx, List.drop_zero]
      exact h.requestKeys) htr
    (by rw [h.feed_bufferReader, List.append_nil])
  refine h.expects hret fun hok => ?_
  rw [hok] at hcode
  rcases (answered_length_le ks.length ls).lt_or_eq with hlt | heq
  · rcases hl : ls[(answered ks.length ls).length]? with _ | l
    · rw [outcome_short hlt hl] at hcode
      cases hcode
    · rw [outcome_error hlt hl] at hcode
      cases l <;> cases hcode
  · rw [hunread, outcome_full heq, ← hlen, List.drop_length]
    rfl

theorem Ready.expects_number (h : Ready v [key] .counting) (n : ℕ) :
    Expects v (Decimal.numeral n ++ crlf) := by
  have hnumber : NumberField (Decimal.numeral n ++ [cr]) (foldDigits 0 (Decimal.numeral n)) :=
    ⟨_, cr, rfl, Decimal.numeral_ne_nil n, fun _ => isDigit_of_mem_numeral, isDigit_cr, rfl⟩
  have hr : (v.feed (Decimal.numeral n ++ crlf)).bufferReader =
      (Decimal.numeral n ++ [cr]) ++ [lf] := by
    rw [h.feed_bufferReader, List.append_assoc]
    rfl
  have hend : (v.feed (Decimal.numeral n ++ crlf)).canEndParse = false := by
    rw [canEndParse_counting (v := v.feed _) h.mode]
    refine decide_eq_false ?_
    show v.requestKeyIdx ≠ v.requestKeys.length
    rw [h.requestKeyIdx, h.requestKeys]
    nofun
  obtain ⟨v₁, h₁⟩ := reads_piece (.number hnumber) (h.place_feed _) hend (h.hasResult _) hr
  have hend₁ : v₁.canEndParse = false :=
    canEndParse_after hend h₁.mode h₁.keys h₁.idx (by
      rw [show v₁.state = _ from congrArg Prod.fst h₁.place]
      rfl)
  obtain ⟨v₂, h₂⟩ := reads_piece (t := []) (.incrDecrLine ⟨[], rfl, List.not_mem_nil⟩) h₁.place
    hend₁ h₁.result h₁.bytes
  have hend₂ : v₂.canEndParse = true := by
    rw [canEndParse_counting ((h₂.mode.trans h₁.mode).trans h.mode)]
    refine decide_eq_true ?_
    rw [h₂.idx, h₁.idx, h₂.keys, h₁.keys]
    show v.requestKeyIdx + 0 + 1 = v.requestKeys.length
    rw [h.requestKeyIdx, h.requestKeys]
    rfl
  refine h.expects (h₁.reaches.returns_iff.2 (h₂.reaches.returns_iff.2
    (Loop.returns_of_inr (body_of_canEndParse hend₂)))) fun _ => h₂.bytes

theorem Ready.expects_failed (h : Ready v ks .endState) {l : ReplyLine} (hl : l.Single)
    (hnone : l.messageType = none) : Expects v l.bytes := by
  have hend : (v.feed l.bytes).canEndParse = false := canEndParse_start h.mode h.state
  have hline : startState (v.feed l.bytes) = _ :=
    startState_line (t := []) hl (by rw [h.feed_bufferReader, List.append_nil])
  have hbody : body (v.feed l.bytes) =
      .inr (l.code, setState .error { v.feed l.bytes with bufferReader := [] }) := by
    rw [body_start hend h.state, hline, lineAction, hnone]
    rfl
  refine h.expects (Loop.returns_of_inr hbody) fun hok => ?_
  cases l <;> cases hok

theorem Ready.expects_pieces {R : Bytes} {k : ℕ} (h : Ready v ks .endState)
    (hp : Pieces (.start, 0) R k (.end_, 0)) : Expects v R := by
  obtain ⟨w, hw⟩ := reads_pieces (t := []) hp (h.place_feed R) (h.hasResult R)
    (fun hm => absurd h.mode hm) (by rw [h.feed_bufferReader, List.append_nil])
  have hend : w.canEndParse = true := by
    unfold canEndParse
    rw [if_pos (hw.mode.trans h.mode), show w.state = _ from congrArg Prod.fst hw.place]
    rfl
  exact h.expects (hw.reaches.returns_iff.2 (Loop.returns_of_inr (body_of_canEndParse hend)))
    fun _ => hw.bytes

theorem Ready.expects_items {items : List Item} (h : Ready v ks .endState)
    (hv : ∀ i ∈ items, i.Valid) : Expects v (reply items) := by
  have hr := h.feed_bufferReader (reply items)
  obtain ⟨e, w, hret, -, hunread, -⟩ := returns_reply (v := v.feed (reply items)) hv h.mode h.state
    (by rw [hr])
  exact h.expects hret fun _ => hunread hr

theorem pieces_statLines {lines : List Bytes} (h : ∀ line ∈ lines, lf ∉ line) :
    Pieces (.start, 0) (statLines lines ++ ascii "END\r\n") 0 (.end_, 0) := by
  induction lines with
  | nil => exact .cons (.end_ (w := [68, 13, 10]) rfl) .nil
  | cons line lines ih =>
    have hline : lf ∉ line ++ [cr] := by
      rw [List.mem_append, not_or]
      exact ⟨h line List.mem_cons_self, by decide⟩
    have hbytes : statLines (line :: lines) ++ ascii "END\r\n" =
        (83 :: 84 :: 65 :: [84, 32]) ++ ((line ++ [cr] ++ [lf]) ++
          (statLines lines ++ ascii "END\r\n")) := by
      simp [statLines, ascii, crlf]
    rw [hbytes]
    exact .cons (.stat (by decide) rfl) (.cons (.statLine ⟨_, rfl, hline⟩)
      (ih fun l hl => h l (List.mem_cons_of_mem line hl)))

theorem Ready.expects_reply (h : Ready v ks .endState) (hreply : IsReply cmd bs)
    (hcmd : cmd.hasEnd = true) : Expects v bs := by
  cases hreply with
  | message hl =>
    cases cmd with
    | retrieval => cases hl
    | bare => cases hl
    | _ => cases hcmd
  | failed hl hnone => exact h.expects_failed hl hnone
  | number n => cases hcmd
  | items hv => exact h.expects_items hv
  | @version text htext =>
    have hline : lf ∉ text ++ [cr] := by
      rw [List.mem_append, not_or]
      exact ⟨htext, by decide⟩
    have hbytes : ascii "VERSION " ++ text ++ crlf =
        (86 :: 69 :: [82, 83, 73, 79, 78, 32]) ++ ((text ++ [cr] ++ [lf]) ++ []) := by
      simp [ascii, crlf]
    rw [hbytes]
    exact h.expects_pieces (.cons (.version rfl) (.cons (.versionLine ⟨_, rfl, hline⟩) .nil))
  | stats hlines => exact h.expects_pieces (pieces_statLines hlines)
  | flushed => exact h.expects_pieces (.cons (.ok (w := [75, 13, 10]) rfl) .nil)

end PacketParser

/-! ### The replies to a request -/

namespace Request

variable {p : ConnectionPool}

/-- The commands of a connection expect replies if its counter is positive. -/
theorem expectsReply_iff (req : Request) (h : cmd ∈ req.commandsFor p i) :
    cmd.expectsReply = true ↔ 0 < req.counterFor i := by
  have hkeys : ∀ {n : ℕ} (noreply : Bool), 0 < n →
      ((!noreply) = true ↔ 0 < if noreply then 0 else n) := fun noreply hn => by
    cases noreply with
    | true => simp
    | false => simpa using hn
  have hlength : ∀ {ι : Type} (noreply : Bool) (l : List ι) (f : ι → Bytes),
      (if noreply then [] else l.map f).length = if noreply then 0 else l.length := by
    intro ι noreply l f
    cases noreply <;> simp
  cases req with
  | storage op exptime noreply items =>
    obtain ⟨x, hx, rfl⟩ := List.mem_map.1 h
    refine (hkeys noreply (List.length_pos_of_mem hx)).trans ?_
    rw [← hlength noreply _ (·.key)]
    rfl
  | retrieval op keys =>
    change cmd ∈ if itemsFor id i keys = [] then [] else _ at h
    split_ifs at h with hnil
    · cases h
    · rw [List.mem_singleton.1 h]
      exact iff_of_true rfl (List.length_pos_of_ne_nil hnil)
  | deletion noreply keys =>
    obtain ⟨x, hx, rfl⟩ := List.mem_map.1 h
    refine (hkeys noreply (List.length_pos_of_mem hx)).trans ?_
    rw [← hlength noreply _ id, List.map_id]
    rfl
  | touch exptime noreply keys =>
    obtain ⟨x, hx, rfl⟩ := List.mem_map.1 h
    refine (hkeys noreply (List.length_pos_of_mem hx)).trans ?_
    rw [← hlength noreply _ id, List.map_id]
    rfl
  | incrDecr op delta noreply key =>
    obtain ⟨x, hx, rfl⟩ := List.mem_map.1 h
    refine (hkeys noreply (List.length_pos_of_mem hx)).trans ?_
    rw [← hlength noreply _ id, List.map_id]
    rfl
  | broadcast op answers =>
    change cmd ∈ if _ then _ else _ at h
    split_ifs at h
    · rw [List.mem_singleton.1 h]
      by_cases hquit : op.1 = .quit <;> simp [Command.expectsReply, counterFor, hquit]
    · cases h

end Request

namespace PacketParser

variable {v : Flat} {p : ConnectionPool} {ks : List Bytes} {srv : Servers}

theorem Ready.expects_line_answers (h : Ready v ks .counting) (hlen : ks.length = cmds.length)
    (hreply : ∀ cmd ∈ cmds, cmd.expectsReply = true) (hline : ∀ cmd ∈ cmds, cmd.isLine = true) :
    Expects v (srv.answers i socket n cmds) := by
  obtain ⟨ls, hls, hsingle, heq⟩ := Servers.answers_lines hreply hline
  rw [heq]
  exact h.expects_lines hsingle (hls.trans hlen.symm)

theorem Ready.expects_incrDecr {key : Bytes} {op : OpCode} {delta : ℤ} {noreply : Bool}
    (h : Ready v [key] .counting) (hreply : IsReply (.incrDecr op key delta noreply) bs) :
    Expects v bs := by
  have hline : ∀ l : ReplyLine, l.Single → Expects v l.bytes := fun l hl => by
    have hbytes : linesBytes [l] = l.bytes := List.append_nil _
    rw [← hbytes]
    exact h.expects_lines (List.forall_mem_singleton.2 hl) rfl
  cases hreply with
  | message hl => exact hline _ (ReplyLine.single_of_messages hl)
  | failed hl _ => exact hline _ hl
  | number n => exact h.expects_number n

/-- **The replies to a request are used up.** -/
theorem Ready.expects_answers (req : Request) (h : Ready v (req.keysFor i) req.parserMode) :
    Expects v (srv.answers i socket n (req.commandsFor p i)) := by
  by_cases hpos : 0 < req.counterFor i
  swap
  · rw [Servers.answers_eq_nil fun cmd hcmd => by
      simpa using mt (req.expectsReply_iff hcmd).1 hpos]
    exact h.expects_nil
  have hreply : ∀ cmd ∈ req.commandsFor p i, cmd.expectsReply = true := fun cmd hcmd =>
    (req.expectsReply_iff hcmd).2 hpos
  have hone : ∀ {cmd : Command}, cmd.expectsReply = true →
      IsReply cmd (srv.answers i socket n [cmd]) := fun {cmd} hcmd => by
    rw [Servers.answers_singleton hcmd]
    exact srv.isReply i socket n cmd hcmd
  cases req with
  | storage op exptime noreply items =>
    cases noreply with
    | true => exact absurd hpos (lt_irrefl 0)
    | false =>
      refine h.expects_line_answers (by simp [Request.keysFor, Request.commandsFor]) hreply ?_
      exact List.forall_mem_map.2 fun _ _ => rfl
  | deletion noreply keys =>
    cases noreply with
    | true => exact absurd hpos (lt_irrefl 0)
    | false =>
      refine h.expects_line_answers (by simp [Request.keysFor, Request.commandsFor]) hreply ?_
      exact List.forall_mem_map.2 fun _ _ => rfl
  | touch exptime noreply keys =>
    cases noreply with
    | true => exact absurd hpos (lt_irrefl 0)
    | false =>
      refine h.expects_line_answers (by simp [Request.keysFor, Request.commandsFor]) hreply ?_
      exact List.forall_mem_map.2 fun _ _ => rfl
  | incrDecr op delta noreply key =>
    cases noreply with
    | true => exact absurd hpos (lt_irrefl 0)
    | false =>
      obtain ⟨k, hk⟩ : ∃ k, Request.itemsFor id i [key] = [k] := by
        have hle : (Request.itemsFor id i [key]).length ≤ 1 := by
          rw [Request.itemsFor, List.length_map]
          exact List.length_filter_le _ _
        exact List.length_eq_one_iff.1 (le_antisymm hle hpos)
      have hcmds : Request.commandsFor p i (.incrDecr op delta false key) =
          [.incrDecr op k delta.toInt64.toInt false] := by
        rw [Request.commandsFor, hk]
        rfl
      have hready : Ready v [k] .counting := by
        rw [← hk]
        exact h
      rw [hcmds]
      exact hready.expects_incrDecr (hone rfl)
  | retrieval op keys =>
    have hcmds : Request.commandsFor p i (.retrieval op keys) =
        [.retrieval op (Request.itemsFor id i keys)] := if_neg (List.ne_nil_of_length_pos hpos)
    rw [hcmds]
    exact Ready.expects_reply h (hone rfl) rfl
  | broadcast op answers =>
    rcases hcmds : Request.commandsFor p i (.broadcast op answers) with _ | ⟨cmd, cmds⟩
    · exact h.expects_nil
    · rw [hcmds] at hreply
      change (if _ then _ else _) = _ at hcmds
      split_ifs at hcmds
      obtain ⟨rfl, rfl⟩ := List.cons.inj hcmds
      exact Ready.expects_reply h (hone (hreply _ List.mem_cons_self)) rfl

end PacketParser

end Libmc
