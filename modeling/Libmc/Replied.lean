import Libmc.Retrieved

/-!
# What storage, deletion and touch return

Each command of a connection is answered by a line, and the messages of the connection are the first
of these lines, each with the key of its command. Lines after an error line are not read. With
`RET_OK` every line is a message, and there is one for each key (`waitPoll_messages`).
-/

namespace Libmc

variable {c : Connection} {p p' : ConnectionPool} {i n socket : ℕ} {srv : Servers} {req : Request}
  {cmd : Command} {cmds : List Command} {ls : List ReplyLine} {got : Bytes} {code : ErrCode}

/-! ### Lines -/

/-- The lines that a server answers to commands, from the `n`-th on a socket on. -/
inductive Servers.Lines (srv : Servers) (i socket : ℕ) : ℕ → List Command → List ReplyLine → Prop
  | nil {n : ℕ} : Lines srv i socket n [] []
  | cons {n : ℕ} {cmd : Command} {cmds : List Command} {l : ReplyLine} {ls : List ReplyLine}
      (hl : l.Single) (h : srv.reply i socket n cmd = l.bytes)
      (hrest : Lines srv i socket (n + 1) cmds ls) : Lines srv i socket n (cmd :: cmds) (l :: ls)

namespace Servers

theorem Lines.single (h : srv.Lines i socket n cmds ls) : ∀ l ∈ ls, l.Single := by
  induction h with
  | nil => exact List.forall_mem_nil _
  | cons hl _ _ ih => exact List.forall_mem_cons.2 ⟨hl, ih⟩

theorem Lines.length_eq (h : srv.Lines i socket n cmds ls) : ls.length = cmds.length := by
  induction h with
  | nil => rfl
  | cons _ _ _ ih => exact congrArg (· + 1) ih

theorem Lines.answers_eq (h : srv.Lines i socket n cmds ls)
    (hreply : ∀ cmd ∈ cmds, cmd.expectsReply = true) :
    srv.answers i socket n cmds = PacketParser.linesBytes ls := by
  induction h with
  | nil => rfl
  | @cons n cmd cmds l ls _ h _ ih =>
    obtain ⟨hcmd, hcmds⟩ := List.forall_mem_cons.1 hreply
    rw [answers, if_pos hcmd, h, ih hcmds]
    rfl

theorem exists_lines (hreply : ∀ cmd ∈ cmds, cmd.expectsReply = true)
    (hline : ∀ cmd ∈ cmds, cmd.isLine = true) (n : ℕ) : ∃ ls, srv.Lines i socket n cmds ls := by
  induction cmds generalizing n with
  | nil => exact ⟨[], .nil⟩
  | cons cmd cmds ih =>
    obtain ⟨hcmd, hcmds⟩ := List.forall_mem_cons.1 hreply
    obtain ⟨hisLine, hareLines⟩ := List.forall_mem_cons.1 hline
    obtain ⟨l, hl, hbytes⟩ := (srv.isReply i socket n cmd hcmd).line hisLine
    obtain ⟨ls, hls⟩ := ih hcmds hareLines (n + 1)
    exact ⟨l :: ls, .cons hl hbytes hls⟩

end Servers

namespace PacketParser

variable {v w : Flat} {ks : List Bytes} {last : Option ErrCode}

/-- Lines that answer keys come first, and are messages. -/
theorem answered_prefix_of (n : ℕ) (ls : List ReplyLine) : answered n ls <+: ls :=
  (List.takeWhile_prefix _).trans (List.take_prefix n ls)

theorem messageType_of_answered {l : ReplyLine} (h : l ∈ answered n ls) : l.messageType ≠ none := by
  intro hnone
  have hsome := List.mem_takeWhile_imp h
  rw [hnone] at hsome
  cases hsome

theorem answered_of_ok (h : (outcome n ls).1 = .ok) : (answered n ls).length = n := by
  rcases (answered_length_le n ls).lt_or_eq with hlt | heq
  · rcases hl : ls[(answered n ls).length]? with _ | l
    · rw [outcome_short hlt hl] at h
      cases h
    · rw [outcome_error hlt hl] at h
      cases l <;> cases h
  · exact heq

theorem Took.messages (h : v.Took got last w) (hv : v.Ready ks .counting)
    (hls : ∀ l ∈ ls, l.Single) (hlen : ls.length = ks.length) (hgot : got <+: linesBytes ls) :
    ∃ done : List ReplyLine, done <+: ls ∧ (∀ l ∈ done, l.messageType ≠ none) ∧
      w.messageResults = List.zipWith ReplyLine.result done ks ∧
      (got = linesBytes ls → last = some .ok → done = ls) := by
  obtain ⟨k, t, hsplit, hcut, hk⟩ := Framing.exists_of_prefix hls hgot
  have htake : ∀ l ∈ ls.take k, l.Single := fun l hl => hls l (List.mem_of_mem_take hl)
  have htrailing : Trailing ks.length (ls.take k) t := by
    intro _
    rcases hcut with rfl | ⟨l, hl, ⟨b, hb⟩, hne⟩
    · exact ⟨.stored, trivial, _, ReplyLine.bytes_ne_nil .stored, rfl⟩
    · refine ⟨l, hl, b, fun hnil => hne ?_, hb⟩
      rw [← hb, hnil, List.append_nil]
  have hidx : (v.feed got).requestKeyIdx = 0 := hv.requestKeyIdx
  have hkeys : (v.feed got).requestKeys = ks := hv.requestKeys
  obtain ⟨e, u, hret, hcode, hresults, -⟩ := returns_lines (v := v.feed got) htake hv.mode hv.state
    (by rw [hidx]; exact Nat.zero_le _) (by rw [hidx, hkeys, List.drop_zero]) htrailing
    (by rw [hv.feed_bufferReader, hsplit]; rfl)
  rw [show (v.feed got).messageResults = v.messageResults from rfl, hv.messageResults,
    List.nil_append] at hresults
  rcases h.cases hv hret with ⟨-, rfl, rfl⟩ | ⟨rfl, rfl⟩
  · refine ⟨[], List.nil_prefix, List.forall_mem_nil _, ?_, fun _ => nofun⟩
    rw [hv.messageResults]
    rfl
  · refine ⟨_, (answered_prefix_of ks.length _).trans (List.take_prefix k ls),
      fun l hl => messageType_of_answered hl, hresults, fun _ hok => ?_⟩
    have hfull := answered_of_ok (hcode.symm.trans (Option.some.inj hok))
    have hle := (answered_prefix_of ks.length (ls.take k)).trans (List.take_prefix k ls)
    exact hle.eq_of_length (hfull.trans hlen.symm)

end PacketParser

/-! ### The results of a command -/

namespace Request

/-- The commands whose replies are messages. -/
def HasMessages : Request → Prop
  | storage _ _ noreply _ => noreply = false
  | deletion noreply _ => noreply = false
  | touch _ noreply _ => noreply = false
  | _ => False

/-- The commands of a connection are answered by lines, one for each key. -/
theorem HasMessages.lines (h : req.HasMessages) (p : ConnectionPool) (i : ℕ) :
    req.parserMode = .counting ∧ (∀ cmd ∈ req.commandsFor p i, cmd.expectsReply = true) ∧
      (∀ cmd ∈ req.commandsFor p i, cmd.isLine = true) ∧
      (req.keysFor i).length = (req.commandsFor p i).length := by
  have hmap : ∀ {ι : Type} (f : ι → Command) (l : List ι), (∀ x, (f x).expectsReply = true) →
      (∀ x, (f x).isLine = true) → (∀ cmd ∈ l.map f, cmd.expectsReply = true) ∧
        ∀ cmd ∈ l.map f, cmd.isLine = true := by
    intro ι f l hreply hline
    exact ⟨List.forall_mem_map.2 fun x _ => hreply x, List.forall_mem_map.2 fun x _ => hline x⟩
  cases req with
  | storage op exptime noreply items =>
    obtain rfl : noreply = false := h
    obtain ⟨hreply, hline⟩ := hmap (storageCommand op exptime false) (itemsFor (·.key) i items)
      (fun _ => rfl) fun _ => rfl
    refine ⟨rfl, hreply, hline, ?_⟩
    show (itemsFor (·.key) i items |>.map (·.key)).length = _
    rw [List.length_map]
    exact (List.length_map _).symm
  | deletion noreply keys =>
    obtain rfl : noreply = false := h
    obtain ⟨hreply, hline⟩ := hmap (.delete · false) (itemsFor id i keys) (fun _ => rfl) fun _ => rfl
    exact ⟨rfl, hreply, hline, (List.length_map _).symm⟩
  | touch exptime noreply keys =>
    obtain rfl : noreply = false := h
    obtain ⟨hreply, hline⟩ := hmap (.touch · exptime.toInt false) (itemsFor id i keys)
      (fun _ => rfl) fun _ => rfl
    exact ⟨rfl, hreply, hline, (List.length_map _).symm⟩
  | _ => cases h

end Request

theorem Connection.Responded.replied (h : Responded srv p req i code c n got)
    (hreq : req.HasMessages) (hne : req.commandsFor p i ≠ [])
    (hlines : srv.Lines i c.traffic.socket n (req.commandsFor p i) ls) :
    ∃ done : List ReplyLine, done <+: ls ∧ (∀ l ∈ done, l.messageType ≠ none) ∧
      c.parser.messageResults = List.zipWith ReplyLine.result done (req.keysFor i) ∧
      (code = .ok → done = ls) := by
  obtain ⟨hmode, hreply, -, hlength⟩ := hreq.lines p i
  have hpart := h.part
  have hwhole := h.whole
  rw [hlines.answers_eq hreply] at hpart hwhole
  obtain ⟨v, hready, htook⟩ := h.took
  rw [hmode] at hready
  obtain ⟨done, hdone, hmessages, hresults, hall⟩ := htook.messages hready hlines.single
    (hlines.length_eq.trans hlength.symm) hpart
  refine ⟨done, hdone, hmessages, hresults, fun hcode => ?_⟩
  obtain ⟨hgot, hprocessed⟩ := hwhole hcode
  obtain ⟨cmd, hcmd⟩ := List.exists_mem_of_ne_nil _ hne
  exact hall hgot (hprocessed ((req.expectsReply_iff hcmd).1 (hreply cmd hcmd)))

/-- Servers that have no item, except for a number. -/
def Servers.counting (m : ℕ) : Servers where
  reply _ _ _ cmd :=
    match cmd with
    | .retrieval _ _ => ascii "END\r\n"
    | .delete _ _ => ReplyLine.notFound.bytes
    | .incrDecr _ _ _ _ => Decimal.numeral m ++ crlf
    | _ => ReplyLine.error.bytes
  isReply _ _ _ cmd _ := by
    cases cmd with
    | retrieval => exact @IsReply.items _ _ [] (List.forall_mem_nil _)
    | delete =>
      have hmem : ReplyLine.notFound ∈ [ReplyLine.deleted, .notFound] := by decide
      exact .message hmem
    | incrDecr => exact .number m
    | _ => exact .failed (l := .error) trivial rfl

end Libmc
