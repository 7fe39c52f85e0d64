import Libmc.PollCounted
import Libmc.Replies

/-!
# What is taken from a socket

Against servers that answer completely and in order, a connection that is alive between commands has
taken everything that its server has sent or will send for what is written to the socket
(`Settled`). A loop that starts with such connections keeps track of what is to come (`Receiving`),
in every run in which connections are lost only while their exchange is not over, and a request that
has been begun is not gone on with on another socket (`ServingInv.step`).
-/

namespace Libmc

variable {c c' c0 d : Connection} {p p' : ConnectionPool} {s s' s0 : PollLoop} {ev : Event}
  {r : Revents} {a : Answers} {e e' : Entry} {part : Part} {jump : Bool} {i k n socket : ℕ}
  {fd fd0 : PollFd} {rules : Rules} {srv : Servers} {req : Request} {cmds : List Command}
  {got rest : Bytes} {err : ErrCode}

/-! ### Between commands -/

/-- Only commands are written to a socket. -/
theorem readCommands_whole (hvalid : ∀ cmd ∈ cmds, cmd.Valid) :
    (readCommands (cmds.flatMap Command.bytes)).1 = cmds := by
  have hread := Command.frames.readAll_items hvalid (.inl rfl)
  rw [List.append_nil] at hread
  exact congrArg Prod.fst hread

theorem readCommands_written (done cmds : List Command) (hvalid : ∀ cmd ∈ done ++ cmds, cmd.Valid)
    {sent : Bytes} (hsent : sent <+: cmds.flatMap Command.bytes) :
    ∃ k, (readCommands (done.flatMap Command.bytes ++ sent)).1 = done ++ cmds.take k ∧
      (k < cmds.length ∨ sent = cmds.flatMap Command.bytes) := by
  obtain ⟨hdone, hcmds⟩ := List.forall_mem_append.1 hvalid
  obtain ⟨k, t, rfl, hcut, hk⟩ := Framing.exists_of_prefix hcmds hsent
  refine ⟨k, ?_, hk.imp_right fun h => ?_⟩
  · have htake : ∀ cmd ∈ done ++ cmds.take k, cmd.Valid :=
      List.forall_mem_append.2 ⟨hdone, fun cmd hcmd => hcmds cmd (List.mem_of_mem_take hcmd)⟩
    have hread := Command.frames.readAll_items htake hcut
    rw [List.flatMap_append, List.append_assoc] at hread
    exact congrArg Prod.fst hread
  · rw [h.2, List.take_of_length_le h.1, List.append_nil]

/-- Only commands are written to a socket, and all that its server sends has been taken. -/
structure Servers.Answered (srv : Servers) (i : ℕ) (traffic : Traffic) : Prop where
  valid : ∀ cmd ∈ (readCommands traffic.written).1, cmd.Valid
  written_eq : traffic.written = (readCommands traffic.written).1.flatMap Command.bytes
  taken_eq : traffic.taken = srv.replies i traffic

theorem Servers.answered_of (cmds : List Command) {traffic : Traffic}
    (hvalid : ∀ cmd ∈ cmds, cmd.Valid) (hwritten : traffic.written = cmds.flatMap Command.bytes)
    (htaken : traffic.taken = srv.answers i traffic.socket 0 cmds) : srv.Answered i traffic := by
  have hread := readCommands_whole hvalid
  refine ⟨?_, ?_, ?_⟩
  · rw [hwritten, hread]
    exact hvalid
  · rw [hwritten, hread]
  · unfold replies
    rw [hwritten, hread, htaken]

theorem Servers.answered_new : srv.Answered i { socket := socket } :=
  answered_of [] (List.forall_mem_nil _) rfl rfl

namespace Connection

theorem process_view (h : c.parser.Ok) (hp : c.process n = some (err, d)) :
    d.parser.Ok ∧
      Loop.run PacketParser.body n c.parser.view.enter = some (err, d.parser.view) := by
  obtain ⟨⟨err', q⟩, hq, heq⟩ := Option.map_eq_some_iff.1 hp
  obtain ⟨rfl, rfl⟩ := Prod.mk.inj heq
  refine ⟨h.enter.run hq, ?_⟩
  rw [← PacketParser.view_enter, PacketParser.run_view h.enter, hq]
  rfl

/-- A connection between commands: its parser is as good as new, and if it is alive, all that its
server answers has been taken. -/
structure Settled (srv : Servers) (i : ℕ) (c : Connection) : Prop where
  ok : c.parser.Ok
  ready : c.parser.view.Ready [] .undefined
  answered : c.alive = true → srv.Answered i c.traffic

theorem Settled.retried (h : Settled srv i c) (hc : Retried c c') (halive : c'.alive = true) :
    srv.Answered i c'.traffic := by
  rcases hc with hsame | ⟨-, hclosed | ⟨r, hnew⟩⟩
  · rw [hsame.traffic_eq]
    exact h.answered (hsame.alive_eq.symm.trans halive)
  · cases hclosed.alive_eq.symm.trans halive
  · rw [hnew.traffic_eq]
    exact Servers.answered_new

theorem Settled.idled (h : Settled srv i c) (hlive : c.LiveFd) (hc : Idled c c') :
    Settled srv i c' where
  ok := by
    rw [hc.work.parser_eq]
    exact h.ok
  ready := by
    rw [hc.work.parser_eq]
    exact h.ready
  answered := h.retried (hc.socket hlive)

/-- The commands that were written to the present socket before this command was dispatched. -/
def earlier (c0 c : Connection) : List Command :=
  if c.traffic.socket = c0.traffic.socket then (readCommands c0.traffic.written).1 else []

theorem earlier_congr (h : c'.traffic.socket = c.traffic.socket) :
    earlier c0 c' = earlier c0 c := by
  unfold earlier
  rw [h]

theorem earlier_of_ne (h : c.traffic.socket ≠ c0.traffic.socket) : earlier c0 c = [] := if_neg h

structure Started (srv : Servers) (p : ConnectionPool) (req : Request) (i : ℕ) (c0 : Connection) :
    Prop where
  answered : srv.Answered i c0.traffic
  unread_eq : c0.bufferWriter.unread = (req.commandsFor p i).flatMap Command.bytes
  commands_ne : req.commandsFor p i ≠ []

/-- What has been taken of the answers to a command, and what is to come. -/
structure Receiving (srv : Servers) (p : ConnectionPool) (req : Request) (i : ℕ) (c0 c : Connection)
    (got rest : Bytes) : Prop where
  taken_eq : c.traffic.taken = srv.answers i c.traffic.socket 0 (earlier c0 c) ++ got
  whole : got ++ rest =
    srv.answers i c.traffic.socket (earlier c0 c).length (req.commandsFor p i)
  fed : ∃ v, PacketParser.Ready v (req.keysFor i) req.parserMode ∧ v.Fed got c.parser.view
  finished : c.alive = true → c.traffic.processed = some .ok → rest = []
  expects : c.alive = true → c.traffic.processed ≠ some .ok → c.parser.view.Expects rest

/-- A connection in the loop still asks for what was requested. -/
structure Asking (req : Request) (i : ℕ) (c : Connection) : Prop where
  ok : c.parser.Ok
  requestKeys : c.parser.requestKeys = req.keysFor i
  mode : c.parser.mode = req.parserMode
  counter_eq : c.counter = req.counterFor i
  drained : c.bufferWriter.unread = [] → c.bufferWriter.msgIovlen = 0

/-- A connection in the loop whose server answers. -/
structure Serving (srv : Servers) (p : ConnectionPool) (req : Request) (i : ℕ) (c0 c : Connection) :
    Prop extends Asking req i c where
  answered : c.traffic.taken <+: srv.replies i c.traffic
  receiving : ∃ got rest, Receiving srv p req i c0 c got rest

theorem Receiving.congr (h : Receiving srv p req i c0 c got rest)
    (halive : c'.alive = true → c.alive = true)
    (hsocket : c'.traffic.socket = c.traffic.socket) (htaken : c'.traffic.taken = c.traffic.taken)
    (hprocessed : c'.traffic.processed = c.traffic.processed)
    (hview : c'.parser.view = c.parser.view) : Receiving srv p req i c0 c' got rest where
  taken_eq := by rw [htaken, hsocket, earlier_congr hsocket, h.taken_eq]
  whole := by rw [hsocket, earlier_congr hsocket, h.whole]
  fed := hview ▸ h.fed
  finished hlive hok := h.finished (halive hlive) (hprocessed ▸ hok)
  expects hlive hne := hview ▸ h.expects (halive hlive) (hprocessed ▸ hne)

theorem receiving_new (hready : c.parser.view.Ready (req.keysFor i) req.parserMode)
    (htraffic : c.traffic = { socket := socket }) (hne : socket ≠ c0.traffic.socket) :
    ∃ rest, Receiving srv p req i c0 c [] rest := by
  have hearlier : earlier c0 c = [] := earlier_of_ne (by rw [htraffic]; exact hne)
  refine ⟨_, ?_, rfl, ⟨_, hready, .nil⟩, fun _ hok => ?_, fun _ _ => hready.expects_answers req⟩
  · rw [hearlier, htraffic]
    rfl
  · rw [htraffic] at hok
    cases hok

theorem Started.written (h0 : Started srv p req i c0) (hs : Sending c0 c) :
    ∃ sent, c.traffic.written = (earlier c0 c).flatMap Command.bytes ++ sent ∧
      sent ++ c.bufferWriter.unread = (req.commandsFor p i).flatMap Command.bytes := by
  obtain ⟨sent, hwritten, hleft⟩ := hs.whole
  refine ⟨sent, ?_, by rw [hleft, h0.unread_eq]⟩
  rw [hwritten]
  unfold earlier
  split_ifs
  · rw [← h0.answered.written_eq]
  · rfl

theorem Started.unread_ne (h0 : Started srv p req i c0) : c0.bufferWriter.unread ≠ [] := by
  rw [h0.unread_eq]
  refine List.ne_nil_of_length_pos (Nat.lt_of_lt_of_le ?_
    (Command.frames.flatMap_length req.commandsFor_valid))
  exact List.length_pos_of_ne_nil h0.commands_ne

theorem Started.valid_all (h0 : Started srv p req i c0) (c : Connection) :
    ∀ cmd ∈ earlier c0 c ++ req.commandsFor p i, cmd.Valid := by
  refine List.forall_mem_append.2 ⟨fun cmd hcmd => ?_, req.commandsFor_valid⟩
  unfold earlier at hcmd
  split_ifs at hcmd
  · exact h0.answered.valid cmd hcmd
  · cases hcmd

/-- What a server sends in the loop: it answers the commands that have been sent whole. -/
theorem Started.replies (h0 : Started srv p req i c0) (hs : Sending c0 c) :
    ∃ k, srv.replies i c.traffic =
        srv.answers i c.traffic.socket 0 (earlier c0 c ++ (req.commandsFor p i).take k) ∧
      (k < (req.commandsFor p i).length ∨ c.bufferWriter.unread = []) := by
  obtain ⟨sent, hwritten, hleft⟩ := h0.written hs
  obtain ⟨k, hread, hk⟩ := readCommands_written _ _ (h0.valid_all c) ⟨_, hleft⟩
  refine ⟨k, ?_, hk.imp_right fun hsent => ?_⟩
  · unfold Servers.replies
    rw [hwritten, hread]
  · rw [hsent] at hleft
    exact List.append_right_eq_self.1 hleft

/-- A server sends nothing more as long as nothing of a request has been sent. -/
theorem Started.replies_unsent (h0 : Started srv p req i c0) (hs : Sending c0 c)
    (hunsent : c.bufferWriter.unread = c.bufferWriter.request) :
    srv.replies i c.traffic = srv.answers i c.traffic.socket 0 (earlier c0 c) := by
  obtain ⟨sent, hwritten, hleft⟩ := h0.written hs
  rw [hunsent, hs.request_eq, h0.unread_eq] at hleft
  obtain rfl : sent = [] := List.append_left_eq_self.1 hleft
  unfold Servers.replies
  rw [hwritten, List.append_nil, readCommands_whole (List.forall_mem_append.1 (h0.valid_all c)).1]

/-- What is taken in the loop is what was answered before and a part of what is answered now. -/
theorem Started.got_prefix (h0 : Started srv p req i c0) (hs : Sending c0 c)
    (h : srv.answers i c.traffic.socket 0 (earlier c0 c) ++ got <+: srv.replies i c.traffic) :
    ∃ k, got <+: srv.answers i c.traffic.socket (earlier c0 c).length
        ((req.commandsFor p i).take k) ∧
      (k < (req.commandsFor p i).length ∨ c.bufferWriter.unread = []) := by
  obtain ⟨k, hreplies, hk⟩ := h0.replies hs
  rw [hreplies, Servers.answers_append, Nat.zero_add] at h
  exact ⟨k, (List.prefix_append_right_inj _).1 h, hk⟩

/-- **Bytes are received.** They are a part of what is to come, so the exchange is not over, and if
the parser is content with them, they are the last part and the request has been sent. -/
theorem Receiving.received {bs : Bytes} (h : Receiving srv p req i c0 c got rest)
    (h0 : Started srv p req i c0) (hs : Sending c0 c) (halive : c.alive = true) (hok : c.parser.Ok)
    (hd : Received c bs d) (hbs : bs ≠ []) (hp : d.process n = some (err, c'))
    (htaken : c.traffic.taken ++ bs <+: srv.replies i c.traffic) :
    0 < req.counterFor i ∧ c.traffic.processed ≠ some .ok ∧
      (err = .ok → c.bufferWriter.unread = []) ∧
      ∃ rest', ∀ d', d'.traffic = c'.traffic → d'.parser = c'.parser →
        (d'.alive = true → err = .ok ∨ err = .incompleteBufferErr) →
          Receiving srv p req i c0 d' (got ++ bs) rest' := by
  have hprocessed := hd.processed hp
  rw [h.taken_eq, List.append_assoc] at htaken
  obtain ⟨k, hgot, hk⟩ := h0.got_prefix hs htaken
  have hsplit : (req.commandsFor p i).take k ++ (req.commandsFor p i).drop k =
      req.commandsFor p i := List.take_append_drop _ _
  have hwhole := h.whole
  rw [← hsplit, Servers.answers_append] at hwhole
  -- what is received is the next part of what is to come
  obtain ⟨rest', rfl⟩ : bs <+: rest := by
    rw [← List.prefix_append_right_inj got, hwhole]
    exact hgot.trans (List.prefix_append _ _)
  have hne : bs ++ rest' ≠ [] := fun hnil => hbs (List.append_eq_nil_iff.1 hnil).1
  have howed : c.traffic.processed ≠ some .ok := fun hend => hne (h.finished halive hend)
  have hpos : 0 < req.counterFor i := by
    by_contra hzero
    have hnil : srv.answers i c.traffic.socket (earlier c0 c).length (req.commandsFor p i) = [] :=
      Servers.answers_eq_nil fun cmd hcmd => by simpa using mt (req.expectsReply_iff hcmd).1 hzero
    exact hne (List.append_eq_nil_iff.1 (h.whole.trans hnil)).2
  obtain ⟨-, hrun⟩ := process_view (hd.ok hok) hp
  rw [hd.view_eq hok] at hrun
  obtain ⟨hmore, hlast⟩ := (h.expects halive howed).call hrun
  refine ⟨hpos, howed, fun herr => ?_, rest', fun d' hd' hparser herr => ?_⟩
  · -- a command that is not sent is not answered
    refine hk.resolve_left fun hlt => ?_
    rw [hlast herr, List.append_nil] at hwhole
    rw [hwhole] at hgot
    have hnil := List.append_right_eq_self.1
      (hgot.eq_of_length_le (List.prefix_append _ _).length_le)
    obtain ⟨cmd, hcmd⟩ := List.exists_mem_of_ne_nil _
      (List.ne_nil_of_length_pos (l := (req.commandsFor p i).drop k) (by
        rw [List.length_drop]
        omega))
    exact Servers.answers_ne_nil hcmd
      ((req.expectsReply_iff (List.mem_of_mem_drop hcmd)).2 hpos) hnil
  · have htraffic := hd'.trans hprocessed.traffic_eq
    have hearlier : earlier c0 d' = earlier c0 c := earlier_congr (by rw [htraffic])
    rw [← hparser] at hrun hmore
    refine ⟨?_, ?_, ?_, fun _ hend => ?_, fun hlive hend => ?_⟩
    · rw [hearlier, htraffic]
      show c.traffic.taken ++ bs = _
      rw [h.taken_eq, List.append_assoc]
    · rw [hearlier, htraffic, List.append_assoc]
      exact h.whole
    · obtain ⟨v, hready, hfed⟩ := h.fed
      exact ⟨v, hready, hfed.call hbs hrun⟩
    · rw [htraffic] at hend
      exact hlast (Option.some.inj hend)
    · rw [htraffic] at hend
      exact hmore ((herr hlive).resolve_left fun heq => hend (congrArg some heq))

theorem Asking.congr (h : Asking req i c) (hok : c'.parser.Ok)
    (hsame : PacketParser.SameRequest c.parser.view c'.parser.view)
    (hcounter : c'.counter = c.counter) (hwriter : c'.bufferWriter = c.bufferWriter) :
    Asking req i c' where
  ok := hok
  requestKeys := hsame.requestKeys.trans h.requestKeys
  mode := hsame.mode.trans h.mode
  counter_eq := hcounter.trans h.counter_eq
  drained := by
    rw [hwriter]
    exact h.drained

theorem Asking.sameWork (h : Asking req i c) (hwork : SameWork c d) : Asking req i d := by
  refine h.congr ?_ ?_ hwork.counter_eq hwork.bufferWriter_eq
  · rw [hwork.parser_eq]
    exact h.ok
  · rw [hwork.parser_eq]
    exact .refl _

theorem Asking.waited (h : Asking req i c) (hd : Waited c d) : Asking req i d := by
  refine h.congr (hd.replies.ok h.ok) ?_ hd.counter_eq hd.bufferWriter_eq
  rw [hd.replies.view_eq h.ok]
  exact .refl _

theorem Asking.processed {bs : Bytes} (h : Asking req i c) (hd : Received c bs d)
    (hp : d.process n = some (err, c')) :
    Asking req i c' ∧ (err = .ok ∨ PacketParser.Stops err) := by
  have hprocessed := hd.processed hp
  obtain ⟨hok, hrun⟩ := process_view (hd.ok h.ok) hp
  obtain ⟨hsame, hcode⟩ := PacketParser.call_tame hrun
  rw [hd.view_eq h.ok] at hsame
  exact ⟨h.congr hok ⟨hsame.requestKeys, hsame.mode⟩ hprocessed.counter_eq
    hprocessed.bufferWriter_eq, hcode⟩

theorem Serving.waited (h : Serving srv p req i c0 c) (hd : Waited c d) :
    Serving srv p req i c0 d := by
  have htraffic := hd.socket.traffic_eq
  refine ⟨h.toAsking.waited hd, ?_, ?_⟩
  · rw [htraffic]
    exact h.answered
  · obtain ⟨got, rest, hreceiving⟩ := h.receiving
    exact ⟨got, rest, hreceiving.congr hd.socket.alive_eq.symm.trans (by rw [htraffic])
      (by rw [htraffic]) (by rw [htraffic]) (hd.replies.view_eq h.ok)⟩

theorem serving_new (hok : c.parser.Ok)
    (hready : c.parser.view.Ready (req.keysFor i) req.parserMode)
    (hcounter : c.counter = req.counterFor i) (hleft : c.bufferWriter.unread ≠ [])
    (htraffic : c.traffic = { socket := socket }) (hne : socket ≠ c0.traffic.socket) :
    Serving srv p req i c0 c := by
  refine ⟨⟨hok, hready.requestKeys, hready.mode, hcounter, fun hnil => absurd hnil hleft⟩, ?_, ?_⟩
  · rw [htraffic]
    exact List.nil_prefix
  · exact ⟨[], receiving_new hready htraffic hne⟩

/-- A connection that is given up keeps the record of its socket. -/
theorem Serving.closed (h : Serving srv p req i c0 c) (hwork : SameWork c d)
    (hclosed : Closed c d) : Serving srv p req i c0 d := by
  have htraffic := hclosed.traffic_eq
  refine ⟨h.toAsking.sameWork hwork, ?_, ?_⟩
  · rw [htraffic]
    exact h.answered
  · obtain ⟨got, rest, hreceiving⟩ := h.receiving
    refine ⟨got, rest, hreceiving.congr (fun hlive => ?_) (by rw [htraffic]) (by rw [htraffic])
      (by rw [htraffic]) (by rw [hwork.parser_eq])⟩
    cases hclosed.alive_eq.symm.trans hlive

/-! ### The start of the loop -/

theorem Started.serving (h0 : Started srv p req i c) (hasking : Asking req i c)
    (hready : c.parser.view.Ready (req.keysFor i) req.parserMode)
    (hnone : c.traffic.processed = none) : Serving srv p req i c c := by
  have hearlier : earlier c c = (readCommands c.traffic.written).1 := if_pos rfl
  refine ⟨hasking, h0.answered.taken_eq ▸ List.prefix_rfl, [], _, ?_, rfl, ⟨_, hready, .nil⟩,
    fun _ hend => ?_, fun _ _ => hready.expects_answers req⟩
  · rw [hearlier, List.append_nil]
    exact h0.answered.taken_eq
  · rw [hnone] at hend
    cases hend

/-- **An active connection when its command has been dispatched.** -/
theorem Settled.started (h : Settled srv i c0) (hlive : c0.LiveFd)
    (hdis : Dispatched c0 (req.commandsFor p i) (req.keysFor i) req.parserMode (req.counterFor i) c)
    (hne : req.commandsFor p i ≠ []) (halive : c.alive = true)
    (hnone : c.traffic.processed = none) :
    Started srv p req i c ∧ Serving srv p req i c c := by
  have h0 : Started srv p req i c :=
    ⟨h.retried (hdis.socket hlive) halive, hdis.loaded.unread_eq, hne⟩
  have hparser := hdis.parser_eq hne
  have hview : c.parser.view =
      { c0.parser.view with requestKeys := req.keysFor i, mode := req.parserMode } := by
    rw [hparser]
    rfl
  have hready : c.parser.view.Ready (req.keysFor i) req.parserMode := by
    rw [hview]
    exact { h.ready with requestKeys := rfl, mode := rfl }
  refine ⟨h0, h0.serving ⟨?_, hready.requestKeys, hready.mode, hdis.counter_eq hne, ?_⟩ hready
    hnone⟩
  · rw [hparser]
    exact ⟨h.ok.wf, h.ok.results, h.ok.lines⟩
  · exact fun hnil => absurd hnil h0.unread_ne

/-- **A connection whose exchange is over.** All that its server sends has been taken. -/
theorem Serving.answered_end (h : Serving srv p req i c0 c) (h0 : Started srv p req i c0)
    (hs : Sending c0 c) (halive : c.alive = true) (hdone : ¬ c.Exchanging) :
    srv.Answered i c.traffic := by
  obtain ⟨got, rest, hreceiving⟩ := h.receiving
  have hsent : c.bufferWriter.msgIovlen = 0 := by
    by_contra hleft
    exact hdone (exchanging_of_left halive hleft)
  have hunread : c.bufferWriter.unread = [] := by
    unfold BufferWriter.unread BufferWriter.getReadPtr
    rw [hsent, List.take_zero, List.flatten_nil]
  have hwhole := hreceiving.whole
  have hrest : rest = [] := by
    by_cases hend : c.traffic.processed = some .ok
    · exact hreceiving.finished halive hend
    · -- no reply is owed
      have hzero : ¬ 0 < req.counterFor i := fun hpos =>
        hdone ⟨halive, .inr ⟨h.counter_eq ▸ hpos, hend⟩⟩
      rw [Servers.answers_eq_nil fun cmd hcmd => by
        simpa using mt (req.expectsReply_iff hcmd).1 hzero] at hwhole
      exact (List.append_eq_nil_iff.1 hwhole).2
  obtain ⟨sent, hwritten, hleft⟩ := h0.written hs
  rw [hunread, List.append_nil] at hleft
  refine Servers.answered_of (earlier c0 c ++ req.commandsFor p i) (h0.valid_all c) ?_ ?_
  · rw [hwritten, hleft, List.flatMap_append]
  · rw [Servers.answers_append, Nat.zero_add, ← hwhole, hrest, List.append_nil]
    exact hreceiving.taken_eq

/-! ### The end of a command -/

/-- What is left of a connection when its command is done. -/
def Done (srv : Servers) (i : ℕ) (c : Connection) : Prop :=
  c.parser.Ok ∧ (c.alive = true → srv.Answered i c.traffic)

theorem Done.markDead (h : c.Done srv i) (now : ℤ) : (c.markDead now).Done srv i := by
  have hparser := (sameWork_markDead now c).parser_eq
  refine ⟨hparser ▸ h.1, fun halive => ?_⟩
  rw [traffic_markDead]
  refine h.2 ?_
  by_contra hdead
  unfold Connection.markDead at halive
  rw [if_neg hdead] at halive
  exact hdead halive

theorem Done.reset (h : c.Done srv i) : c.reset.Settled srv i := by
  obtain ⟨hwf, hunread⟩ := BufferReader.wf_reset h.1.wf
  refine ⟨⟨hwf, fun _ hmem => absurd hmem List.not_mem_nil,
    fun _ hmem => absurd hmem List.not_mem_nil⟩, ⟨hunread, rfl, rfl, rfl, rfl, rfl, rfl, rfl, rfl⟩,
    fun halive => ?_⟩
  obtain ⟨hvalid, hwritten, htaken⟩ := h.2 halive
  exact ⟨hvalid, hwritten, htaken⟩

end Connection

/-! ### The parts of a turn -/

namespace Entry

/-- A connection is lost only while its exchange is not over, and a request that has been begun is
not gone on with on another socket. -/
def Timely (part : Part) (r : Revents) (a : Answers) (e : Entry) : Prop :=
  (e.Loses part r a → e.conn.Exchanging) ∧ e.Unsent part r a

theorem traffic_parsed (err : ErrCode) (a : Answers) (e : Entry) :
    (parsed err a e).conn.traffic = e.conn.traffic :=
  conn_parsed (Q := fun c => c.traffic = e.conn.traffic) rfl
    (Connection.traffic_markDead a.deadTime e.conn)

/-- What is received in the loop is a part of the replies. -/
theorem received_answered (h0 : Connection.Started srv p req i c0)
    (hs : Connection.Sending c0 e.conn) (hv : Connection.Serving srv p req i c0 e.conn)
    (halive : e.conn.alive = true) {bs : Bytes} {d' : Connection}
    (hd : Connection.Received e.conn bs d) (hbs : bs ≠ [])
    (hp : d.process n = some (err, d'))
    (hanswered : (parsed err a { e with conn := d' }).conn.traffic.taken <+:
      srv.replies i (parsed err a { e with conn := d' }).conn.traffic) :
    0 < e.conn.counter ∧ e.conn.traffic.processed ≠ some .ok ∧
      (err = .ok → e.conn.bufferWriter.unread = []) ∧
      ∃ got rest, ∀ c', c'.traffic = d'.traffic → c'.parser = d'.parser →
        (c'.alive = true → err = .ok ∨ err = .incompleteBufferErr) →
          Connection.Receiving srv p req i c0 c' got rest := by
  rw [traffic_parsed] at hanswered
  change d'.traffic.taken <+: srv.replies i d'.traffic at hanswered
  rw [(hd.processed hp).traffic_eq] at hanswered
  obtain ⟨got, rest, hreceiving⟩ := hv.receiving
  obtain ⟨hpos, howed, hsent, rest', hreceiving'⟩ :=
    hreceiving.received h0 hs halive hv.ok hd hbs hp hanswered
  exact ⟨hv.counter_eq ▸ hpos, howed, hsent, _, _, hreceiving'⟩

/-- **Nothing else goes wrong.** If a connection is not lost after its exchange is over, then a
reply is complete only when the request is sent, and an error is for a connection whose exchange is
not over. -/
theorem Effect.harmless (h : Effect r a e part jump e') (hr : Expected part r e.conn e.pollfd)
    (h0 : Connection.Started srv p req i c0) (hs : Connection.Sending c0 e.conn)
    (hv : Connection.Serving srv p req i c0 e.conn) (hrule : e.Timely part r a)
    (hfd : e.conn.socketFd ≠ 0)
    (hanswered : e'.conn.traffic.taken <+: srv.replies i e'.conn.traffic) :
    e.Harmless part r a := by
  refine ⟨hrule.1, fun err hpart hgives => ?_⟩
  have halive := hr.signalled.alive (.inr (.inr hgives.1))
  obtain ⟨bs, d, d', hd, hbs, hp, rfl⟩ := h.received_cases hpart hgives
  obtain ⟨hpos, howed, hsent, -⟩ :=
    received_answered h0 hs hv halive hd hbs hp hanswered
  have hex : e.conn.Exchanging := ⟨halive, .inr ⟨hpos, howed⟩⟩
  exact ⟨fun herr => ⟨hex, hv.drained (hsent herr)⟩, fun _ => ⟨hex, hfd⟩⟩

theorem Effect.serving (h : Effect r a e part jump e') (he : Tallied e.conn e.pollfd)
    (hr : Expected part r e.conn e.pollfd) (h0 : Connection.Started srv p req i c0)
    (hs : Connection.Sending c0 e.conn) (hv : Connection.Serving srv p req i c0 e.conn)
    (hrule : e.Timely part r a) (hfd : e.conn.socketFd ≠ 0)
    (hanswered : e'.conn.traffic.taken <+: srv.replies i e'.conn.traffic) :
    Connection.Serving srv p req i c0 e'.conn := by
  -- all of the request is left on a new socket
  have hleft := h0.unread_ne
  cases h with
  | idle => exact hv
  | @rewound _ d _ _ _ hd h =>
    have hvd := hv.waited hd
    have hview := h.view_eq hvd.ok
    have hwf : d.bufferWriter.Wf := by
      rw [hd.bufferWriter_eq]
      exact he.tracked.wf
    rcases h.socket with ⟨-, hnew⟩ | ⟨h0, -⟩
    · refine Connection.serving_new (h.ok hvd.ok) ?_ (h.counter_eq.trans hvd.counter_eq) ?_
        hnew.traffic_eq ?_
      · rw [hview]
        exact ⟨rfl, rfl, rfl, hvd.requestKeys, hvd.mode, rfl, rfl, rfl, rfl⟩
      · rw [h.bufferWriter_eq, hwf.rewind.2.1, hd.bufferWriter_eq, hs.request_eq]
        exact hleft
      · rw [hd.socket.traffic_eq]
        have := hs.socket_le
        omega
    · exact absurd (hd.socket.socketFd_eq.symm.trans h0) hfd
  | @resumed d _ hloses hd h heq =>
    have hvd := hv.waited hd
    have halive := hr.signalled.alive hloses.some
    have hmisses : e.Misses .early a := by
      unfold Misses
      rw [if_pos rfl]
      exact ⟨hfd, (restarted_alive he.tracked.live halive hfd).1 (heq ▸ h.alive_eq)⟩
    have hunsent := hrule.2 hloses hmisses
    -- nothing has been sent, so nothing has been answered
    obtain ⟨got, rest, hreceiving⟩ := hv.receiving
    have htaken := hv.answered
    rw [h0.replies_unsent hs hunsent, hreceiving.taken_eq] at htaken
    have hgot : got = [] := List.append_right_eq_self.1
      (htaken.eq_of_length_le (List.prefix_append _ _).length_le)
    rcases h.socket with ⟨-, hnew⟩ | ⟨h0, -⟩
    · refine Connection.serving_new (h.work.parser_eq ▸ hvd.ok) ?_
        (h.work.counter_eq.trans hvd.counter_eq) ?_ hnew.traffic_eq ?_
      · obtain ⟨v, hready, hfed⟩ := hreceiving.fed
        rw [h.work.parser_eq, hd.replies.view_eq hv.ok, hfed.eq_of_nil hgot]
        exact hready
      · rw [h.work.bufferWriter_eq, hd.bufferWriter_eq, hunsent, hs.request_eq]
        exact hleft
      · rw [hd.socket.traffic_eq]
        have := hs.socket_le
        omega
    · exact absurd (hd.socket.socketFd_eq.symm.trans h0) hfd
  | givenUp _ hd h => exact (hv.waited hd).closed h.work h.closed
  | peeked _ _ _ hd => exact hv.waited hd
  | @sent n _ _ hn =>
    have hle := hn.trans (Connection.offered_prefix e.conn).length_le
    obtain ⟨-, hunread, -, hdone⟩ := he.tracked.wf.commitRead hle
    refine ⟨⟨hv.ok, hv.requestKeys, hv.mode, hv.counter_eq, fun hnil => hdone.2 ?_⟩,
      hanswered, ?_⟩
    · have hdrop := congrArg List.length (hunread.symm.trans hnil)
      rw [List.length_drop, List.length_nil] at hdrop
      omega
    · obtain ⟨got, rest, hreceiving⟩ := hv.receiving
      exact ⟨got, rest, hreceiving.congr id rfl rfl rfl rfl⟩
  | @received bs d d' err _ hgives hbs hd hp =>
    have halive := hr.signalled.alive (.inr (.inr hgives.1))
    have hsocketFd := (hd.processed hp).socketFd_eq
    have hlivefd := (hd.processed hp).liveFd he.tracked.live
    obtain ⟨hasking, hcode⟩ := hv.toAsking.processed hd hp
    obtain ⟨-, -, -, got, rest, hreceiving⟩ := received_answered h0 hs hv halive hd hbs hp hanswered
    have hparsed := parsed_cases err a { e with conn := d' }
    generalize parsed err a { e with conn := d' } = e'' at hparsed hanswered ⊢
    cases hparsed with
    | done herr =>
      exact ⟨hasking, hanswered, got, rest, hreceiving d' rfl rfl fun _ => .inl herr⟩
    | failed =>
      have hwork := Connection.sameWork_markDead a.deadTime d'
      refine ⟨hasking.sameWork hwork, hanswered, got, rest,
        hreceiving _ (Connection.traffic_markDead _ _) hwork.parser_eq fun hlive => ?_⟩
      -- the descriptor is closed
      have hne : d'.socketFd ≠ 0 := hsocketFd ▸ hfd
      cases (Connection.alive_markDead hlivefd hne a.deadTime).symm.trans hlive
    | more hok hprog hserver =>
      have herr : err = .incompleteBufferErr :=
        (hcode.resolve_left hok).resolve_right fun h => h.elim hprog hserver
      exact ⟨hasking, hanswered, got, rest, hreceiving d' rfl rfl fun _ => .inr herr⟩

end Entry

/-! ### Runs of the loop -/

/-- What is asked of a step when the servers answer completely and in order: `poll` does not fail,
no descriptor is 0, and what is taken from a socket is sent there. -/
def Servers.Answering (srv : Servers) (_ : PollLoop) (ev : Event) (s' : PollLoop) : Prop :=
  (∀ code times, ev ≠ .fail code times) ∧ (∀ c ∈ s'.pool.conns, c.socketFd ≠ 0) ∧
    ∀ i c, s'.pool.conns[i]? = some c → c.traffic.taken <+: srv.replies i c.traffic

namespace PollLoop

def servingSlot (srv : Servers) (p : ConnectionPool) (req : Request) (s0 : PollLoop) :
    SlotInvariant where
  holds k c fd := Tallied c fd ∧ ∃ i c0, s0.connAt k = some i ∧ s0.pool.conns[i]? = some c0 ∧
    Connection.Started srv p req i c0 ∧ Connection.Sending c0 c ∧
      Connection.Serving srv p req i c0 c
  reported := Expected

structure ServingInv (srv : Servers) (p : ConnectionPool) (req : Request) (s0 s : PollLoop) :
    Prop where
  counted : CountInv s0 s
  socketFd_ne : ∀ c ∈ s.pool.conns, c.socketFd ≠ 0
  not_broken : s.progress ≠ .broken
  slots : (servingSlot srv p req s0).Inv s

theorem ServingInv.turn {revents : List Revents} (h : ServingInv srv p req s0 s)
    (hs : s.progress = .turn k part revents) (he : s.entry k = some e) (hr : revents[k]? = some r)
    (hrun : e.run part r a = some (jump, e')) (hrule : e.Timely part r a)
    (hanswered : ∀ i c, (s.setEntry k e').pool.conns[i]? = some c →
      c.traffic.taken <+: srv.replies i c.traffic) :
    e.Harmless part r a ∧ (servingSlot srv p req s0).holds k e'.conn e'.pollfd := by
  have hslot := slot_of_entry he
  obtain ⟨htallied, i, c0, hi, hc0, hstarted, hsending, hserving⟩ := h.slots.slots k _ _ hslot
  have hexpected := h.slots.reported k part revents hs k r _ _ le_rfl hr hslot
  rw [if_pos rfl] at hexpected
  have heffect := Entry.run_cases htallied.tracked.live hrun
  have hfd := h.socketFd_ne _ (mem_of_entry he)
  have htaken : e'.conn.traffic.taken <+: srv.replies i e'.conn.traffic := by
    have hset := slot_setEntry h.slots.nodup hslot e' k
    rw [if_pos rfl] at hset
    obtain ⟨j, hj, hconn, -⟩ := slot_eq_some hset
    have hi' : (s.setEntry k e').connAt k = some i := by
      show s.pool.activeConns[k]? = some i
      rw [h.counted.aligned.frame.activeConns]
      exact hi
    obtain rfl := Option.some.inj (hi'.symm.trans hj)
    exact hanswered i _ hconn
  have hharmless := heffect.harmless hexpected hstarted hsending hserving hrule hfd htaken
  refine ⟨hharmless, (heffect.tally htallied hexpected hharmless).1, i, c0, hi, hc0, hstarted,
    ?_, ?_⟩
  · exact heffect.sending htallied.tracked hexpected.signalled.alive hrule.2 hsending
  · exact heffect.serving htallied hexpected hstarted hsending hserving hrule hfd htaken

theorem ServingInv.step (h : ServingInv srv p req s0 s) (hstep : Step s ev s')
    (hrule : SlotInvariant.PartRule Entry.Timely s ev) (hanswering : srv.Answering s ev s') :
    ServingInv srv p req s0 s' ∧ s'.Counted := by
  obtain ⟨hpoll, hfds, hanswered⟩ := hanswering
  have hharmless : s.Harmless ev := by
    refine ⟨?_, fun code times hev => absurd hev (hpoll code times)⟩
    intro k part revents r a e hev hturn hr he
    cases hstep with
    | leave => cases hev
    | fail => cases hev
    | report => cases hev
    | @part k' part' revents' r' a' e₁ e' jump hturn' he' hr' hrun =>
      obtain rfl : a' = a := by simpa using hev
      obtain ⟨rfl, rfl, rfl⟩ : k' = k ∧ part' = part ∧ revents' = revents := by
        simpa using hturn'.symm.trans hturn
      obtain rfl := Option.some.inj (hr'.symm.trans hr)
      obtain rfl := Option.some.inj (he'.symm.trans he)
      exact (h.turn hturn he hr hrun (hrule k' part' revents' r' a' e₁ rfl hturn hr he) hanswered).1
    | nextRound => cases hev
  have hs' : s'.progress ≠ .broken := by
    intro hbroken
    obtain ⟨code, times, hev, -⟩ := SlotInvariant.step_broken hstep hbroken
    exact hpoll code times hev
  obtain ⟨hcounted, hcount⟩ := h.counted.step hstep hharmless
  refine ⟨⟨hcounted, hfds, hs', h.slots.step_of hstep ?_ ?_ hs'⟩, hcount⟩
  · exact fun k c fd r hholds hr => local_countSlot.report k c fd r hholds.1 hr
  · intro k part revents r a e jump e' hev hturn hr he hrun hs' hholds hexpected
    have htimely := hrule k part revents r a e hev hturn hr he
    have hholds' := (h.turn hturn he hr hrun htimely (by rw [hs'] at hanswered; exact hanswered)).2
    refine ⟨hholds', ?_⟩
    rintro rfl part' hnext
    have heffect := Entry.run_cases hholds.1.tracked.live hrun
    exact heffect.expected hholds.1 hexpected hholds'.1 hnext

end PollLoop

end Libmc
