import Libmc.Client
import Libmc.PollInvariant

/-!
# What is queued by a command

Between commands every connection is clean: nothing is queued, no key waits, and the counter is
zero (`Reachable.clean`). `reset` visits the active connections only, and `waitPoll` changes no
other (`WaitPoll.frame`). From a clean pool the items of a command queue their commands one by one
(`Queued`), and `dispatch_queued` reads them back by the grammar.
-/

namespace Libmc

variable {c c' base : Connection} {p p' : ConnectionPool} {bs : Bytes} {keys : List Bytes} {n i : ℕ}
  {ι : Type} {key : ι → Bytes} {take : ι → Connection → Connection} {noreply : Bool} {op : OpCode}

namespace Connection

/-! ### Connections that only write -/

/-- A connection that has queued bytes since it was `base`, in `n` parts of a request. -/
structure Queued (base : Connection) (bs : Bytes) (keys : List Bytes) (n : ℕ) (c : Connection) :
    Prop where
  loaded : c.bufferWriter.Loaded bs
  parser_eq : c.parser = { base.parser with requestKeys := keys }
  counter_eq : c.counter = n
  socket : base.LiveFd → Retried base c

/-- Nothing is queued, no key waits, and nothing is counted. -/
structure Clean (c : Connection) : Prop where
  writer : c.bufferWriter = {}
  requestKeys : c.parser.requestKeys = []
  counter : c.counter = 0

theorem Clean.queued (h : base.Clean) (hc : Idled base c) : Queued base [] [] 0 c where
  loaded := by
    rw [hc.work.bufferWriter_eq, h.writer]
    exact BufferWriter.loaded_reset {}
  parser_eq := by rw [hc.work.parser_eq, ← h.requestKeys]
  counter_eq := hc.work.counter_eq.trans h.counter
  socket := hc.socket

theorem Clean.of_sameWork (h : c.Clean) (hw : SameWork c c') : c'.Clean where
  writer := hw.bufferWriter_eq.trans h.writer
  requestKeys := by rw [hw.parser_eq, h.requestKeys]
  counter := hw.counter_eq.trans h.counter

theorem clean_reset (c : Connection) : c.reset.Clean := ⟨rfl, rfl, rfl⟩

theorem reset_reset (c : Connection) : c.reset.reset = c.reset := by
  unfold reset PacketParser.reset BufferWriter.reset
  simp [BufferReader.reset_reset]

namespace Queued

theorem tryReconnect (h : Queued base bs keys n c) (checkRetries : Bool) (r : Reconnect) :
    Queued base bs keys n (c.tryReconnect checkRetries r) where
  loaded := by
    rw [(sameWork_tryReconnect _ _ _).bufferWriter_eq]
    exact h.loaded
  parser_eq := (sameWork_tryReconnect _ _ _).parser_eq.trans h.parser_eq
  counter_eq := (sameWork_tryReconnect _ _ _).counter_eq.trans h.counter_eq
  socket hbase := (h.socket hbase).tryReconnect hbase checkRetries r

theorem takeBuffer (h : Queued base bs keys n c) (buf : Bytes) :
    Queued base (bs ++ buf) keys n (c.takeBuffer buf) :=
  ⟨h.loaded.takeBuffer buf, h.parser_eq, h.counter_eq,
    fun hb => (h.socket hb).trans_same ⟨rfl, rfl, rfl⟩⟩

theorem takeNumber (h : Queued base bs keys n c) (val : Int64) :
    Queued base (bs ++ Decimal.signed val.toInt) keys n (c.takeNumber val) :=
  ⟨h.loaded.takeNumber val, h.parser_eq, h.counter_eq,
    fun hb => (h.socket hb).trans_same ⟨rfl, rfl, rfl⟩⟩

theorem count (h : Queued base bs keys n c) : Queued base bs keys (n + 1) c.count :=
  ⟨h.loaded, h.parser_eq, congrArg (· + 1) h.counter_eq,
    fun hb => (h.socket hb).trans_same ⟨rfl, rfl, rfl⟩⟩

theorem addRequestKey (h : Queued base bs keys n c) (k : Bytes) :
    Queued base bs (keys ++ [k]) n (c.addRequestKey k) where
  loaded := h.loaded
  parser_eq := by
    show { c.parser with requestKeys := c.parser.requestKeys ++ [k] } = _
    rw [h.parser_eq]
  counter_eq := h.counter_eq
  socket hb := (h.socket hb).trans_same ⟨rfl, rfl, rfl⟩

theorem takeNoreply (h : Queued base bs keys n c) (noreply : Bool) (k : Bytes) :
    Queued base (bs ++ (Command.noreplyField noreply).flatMap (space :: ·))
      (keys ++ if noreply then [] else [k]) n (c.takeNoreply noreply k) := by
  cases noreply with
  | false => simpa [Connection.takeNoreply, Command.noreplyField] using h.addRequestKey k
  | true =>
    have hword : (Command.noreplyField true).flatMap (space :: ·) = ascii " noreply" := by decide
    rw [hword]
    simpa [Connection.takeNoreply] using h.takeBuffer (ascii " noreply")

/-! ### What an item queues -/

/-- A line is its first field and the others, each after a space. -/
theorem intercalate_space (w : Bytes) (ws : List Bytes) :
    [space].intercalate (w :: ws) = w ++ ws.flatMap (space :: ·) := by
  induction ws generalizing w with
  | nil => simp
  | cons v ws ih =>
    rw [List.intercalate_cons_cons, ih, List.flatMap_cons]
    simp

theorem takeStorageKeyword (h : Queued base bs keys n c) (op : StorageOp) :
    Queued base (bs ++ op.1.word ++ [space]) keys n (c.takeStorageKeyword op) := by
  obtain ⟨op, hop⟩ := op
  rw [List.append_assoc]
  fin_cases hop
  · exact h.takeBuffer (ascii "set ")
  · exact h.takeBuffer (ascii "add ")
  · exact h.takeBuffer (ascii "replace ")
  · exact h.takeBuffer (ascii "append ")
  · exact h.takeBuffer (ascii "prepend ")
  · exact h.takeBuffer (ascii "cas ")

theorem toInt_ofNat {m : ℕ} (h : m < 2 ^ 63) : (Int64.ofNat m).toInt = m :=
  Int64.toInt_ofNat_of_lt h

theorem takeCas (h : Queued base bs keys n c) (op : OpCode) (casUnique : UInt64) :
    Queued base
      (bs ++ ((if op = .cas then some casUnique.toInt64.toInt else none).toList.map
        Decimal.signed).flatMap (space :: ·)) keys n
      (if op = .cas then (c.takeBuffer [space]).takeNumber casUnique.toInt64 else c) := by
  split_ifs
  · simpa using (h.takeBuffer [space]).takeNumber casUnique.toInt64
  · simpa using h

theorem takeStorage (h : Queued base bs keys n c) (op : StorageOp) (exptime : Int64)
    (noreply : Bool) (item : StorageItem) :
    Queued base (bs ++ (Request.storageCommand op exptime noreply item).bytes)
      (keys ++ if noreply then [] else [item.key]) (n + 1)
      (c.takeStorage op exptime noreply item) := by
  have hkey := ((h.takeStorageKeyword op).takeBuffer item.key).takeBuffer [space]
  have hflags := (hkey.takeNumber (Int64.ofNat item.flags.toNat)).takeBuffer [space]
  have hbytes := ((hflags.takeNumber exptime).takeBuffer [space]).takeNumber
    (Int64.ofNat item.val.length)
  have hline := ((hbytes.takeCas op item.casUnique).takeNoreply noreply item.key).count
  have hdata := ((hline.takeBuffer crlf).takeBuffer item.val).takeBuffer crlf
  have hflag : item.flags.toNat < 2 ^ 63 := by
    have := item.flags.toNat_lt
    omega
  rw [toInt_ofNat hflag, toInt_ofNat item.val_lt] at hdata
  convert hdata using 1
  · simp only [Request.storageCommand, Command.bytes, Command.line, Command.fields, Command.data,
      intercalate_space, List.cons_append, List.nil_append, List.append_assoc, List.flatMap_cons,
      List.flatMap_append]
  · rfl

theorem takeDeletion (h : Queued base bs keys n c) (noreply : Bool) (k : Bytes) :
    Queued base (bs ++ (Command.delete k noreply).bytes) (keys ++ if noreply then [] else [k]) (n + 1)
      (c.takeDeletion noreply k) := by
  have hkey := (h.takeBuffer (ascii "delete ")).takeBuffer k
  have hline := (hkey.takeNoreply noreply k).count.takeBuffer crlf
  have hword : ascii "delete " = OpCode.delete.word ++ [space] := by decide
  convert hline using 1
  · simp only [Command.bytes, Command.line, Command.fields, Command.data, intercalate_space, hword,
      List.cons_append, List.nil_append, List.append_assoc, List.flatMap_cons, List.append_nil]
  · rfl

theorem takeTouch (h : Queued base bs keys n c) (exptime : Int64) (noreply : Bool) (k : Bytes) :
    Queued base (bs ++ (Command.touch k exptime.toInt noreply).bytes)
      (keys ++ if noreply then [] else [k]) (n + 1) (c.takeTouch exptime noreply k) := by
  have hkey := ((h.takeBuffer (ascii "touch ")).takeBuffer k).takeBuffer [space]
  have hline := (((hkey.takeNumber exptime).takeNoreply noreply k).count).takeBuffer crlf
  have hword : ascii "touch " = OpCode.touch.word ++ [space] := by decide
  convert hline using 1
  · simp only [Command.bytes, Command.line, Command.fields, Command.data, intercalate_space, hword,
      List.cons_append, List.nil_append, List.append_assoc, List.flatMap_cons, List.append_nil]
  · rfl

theorem takeIncrDecrKeyword (h : Queued base bs keys n c) (op : IncrDecrOp) :
    Queued base (bs ++ op.1.word ++ [space]) keys n (c.takeIncrDecrKeyword op) := by
  obtain ⟨op, hop⟩ := op
  rw [List.append_assoc]
  fin_cases hop
  · exact h.takeBuffer (ascii "incr ")
  · exact h.takeBuffer (ascii "decr ")

theorem takeIncrDecr (h : Queued base bs keys n c) (op : IncrDecrOp) (delta : UInt64)
    (noreply : Bool) (k : Bytes) :
    Queued base (bs ++ (Command.incrDecr op k delta.toInt64.toInt noreply).bytes)
      (keys ++ if noreply then [] else [k]) (n + 1) (c.takeIncrDecr op delta noreply k) := by
  have hkey := ((h.takeIncrDecrKeyword op).takeBuffer k).takeBuffer [space]
  have hline := (((hkey.takeNumber delta.toInt64).takeNoreply noreply k).count).takeBuffer crlf
  convert hline using 1
  · simp only [Command.bytes, Command.line, Command.fields, Command.data, intercalate_space,
      List.cons_append, List.nil_append, List.append_assoc, List.flatMap_cons, List.append_nil]
  · rfl

/-- What a retrieval has queued before the end of its line. -/
def retrievalLine (op : OpCode) (ks : List Bytes) : Bytes :=
  if ks = [] then [] else op.word ++ ks.flatMap (space :: ·)

theorem takeRetrievalKeyword (h : Queued base bs keys n c) (op : RetrievalOp) :
    Queued base (bs ++ op.1.word) keys n (c.takeRetrievalKeyword op) := by
  obtain ⟨op, hop⟩ := op
  fin_cases hop
  · exact h.takeBuffer (ascii "get")
  · exact h.takeBuffer (ascii "gets")

/-- A key of a retrieval; the first one comes after the name of the command. -/
theorem takeRetrieval {op : RetrievalOp} {ks : List Bytes}
    (h : Queued base (retrievalLine op ks) keys ks.length c) (k : Bytes) :
    Queued base (retrievalLine op (ks ++ [k])) keys (ks ++ [k]).length (c.takeRetrieval op k) := by
  have hcount := h.count
  rw [List.length_append, List.length_singleton]
  by_cases hks : ks = []
  · subst hks
    have hone : c.count.counter = 1 := hcount.counter_eq
    have hline := ((hcount.takeRetrievalKeyword op).takeBuffer [space]).takeBuffer k
    unfold Connection.takeRetrieval
    dsimp only
    rw [if_pos hone]
    simpa [retrievalLine] using hline
  · have hmore : c.count.counter ≠ 1 := by
      have := List.length_pos_of_ne_nil hks
      rw [hcount.counter_eq]
      omega
    have hline := (hcount.takeBuffer [space]).takeBuffer k
    unfold Connection.takeRetrieval
    dsimp only
    rw [if_neg hmore]
    simpa [retrievalLine, hks] using hline

end Queued

end Connection

/-! ### The loop over the items -/

namespace ConnectionPool

theorem getConn_conn {Q : Connection → Prop} (htry : ∀ c r, Q c → Q (c.tryReconnect false r))
    (r : Routed) (h : ∃ c, p.conns[i]? = some c ∧ Q c) :
    ∃ c, (p.getConn r).conns[i]? = some c ∧ Q c :=
  conn_foldl_modifyConn Prod.fst (fun t c hc => htry c t.2 hc) r.tried h

theorem sameActive_dispatchItem (p : ConnectionPool) (item : ι × Routed) :
    SameActive p (dispatchItem key take p item) := by
  unfold dispatchItem
  split_ifs
  · exact ⟨rfl, rfl, rfl⟩
  · have hconn : SameActive p (p.getConn item.2) := sameActive_foldl _ _ _ p
    cases item.2.conn with
    | none => exact hconn
    | some j => exact hconn.trans (sameActive_modifyConn j _ _)

theorem sameActive_dispatchItems (key : ι → Bytes) (take : ι → Connection → Connection)
    (items : List (ι × Routed)) (p : ConnectionPool) :
    SameActive p (p.dispatchItems key take items) := by
  induction items generalizing p with
  | nil => exact SameActive.refl p
  | cons item items ih => exact (sameActive_dispatchItem p item).trans (ih _)

/-- A connection in the loop over the items: reconnecting preserves `Q`, and an item for this
connection goes to the end of those it has got. -/
theorem dispatchItems_conn {Q : List ι → Connection → Prop} {done : List ι}
    (htry : ∀ done c r, Q done c → Q done (c.tryReconnect false r))
    (htake : ∀ done c x, isValidKey (key x) → Q done c → Q (done ++ [x]) (take x c))
    (items : List (ι × Routed)) (h : ∃ c, p.conns[i]? = some c ∧ Q done c) :
    ∃ c, (p.dispatchItems key take items).conns[i]? = some c ∧
      Q (done ++ Request.itemsFor key i items) c := by
  induction items generalizing p done with
  | nil => simpa [dispatchItems, Request.itemsFor] using h
  | cons item items ih =>
    have hcons : (p.dispatchItems key take (item :: items)) =
        (dispatchItem key take p item).dispatchItems key take items := rfl
    rw [hcons]
    by_cases hitem : isValidKey (key item.1) = true ∧ item.2.conn = some i
    · have hfor : done ++ Request.itemsFor key i (item :: items) =
          (done ++ [item.1]) ++ Request.itemsFor key i items := by
        unfold Request.itemsFor
        rw [List.filter_cons_of_pos (by simpa using hitem)]
        simp
      rw [hfor]
      refine ih ?_
      obtain ⟨c, hc, hQ⟩ := getConn_conn (htry done) item.2 h
      have hstep : dispatchItem key take p item = (p.getConn item.2).modifyConn i (take item.1) := by
        unfold dispatchItem
        rw [if_neg (by simpa using hitem.1), hitem.2]
      refine ⟨take item.1 c, ?_, htake done c item.1 hitem.1 hQ⟩
      rw [hstep, modifyConn_conns, if_pos rfl, hc]
      rfl
    · have hfor : Request.itemsFor key i (item :: items) = Request.itemsFor key i items := by
        unfold Request.itemsFor
        rw [List.filter_cons_of_neg (by simpa using hitem)]
      rw [hfor]
      refine ih ?_
      unfold dispatchItem
      split_ifs with hkey
      · exact h
      · obtain ⟨c, hc, hQ⟩ := getConn_conn (htry done) item.2 h
        rcases hj : item.2.conn with _ | j
        · exact ⟨c, hc, hQ⟩
        · refine ⟨c, ?_, hQ⟩
          have hne : j ≠ i := by
            rintro rfl
            exact hitem ⟨by simpa using hkey, hj⟩
          show ((p.getConn item.2).modifyConn j (take item.1)).conns[i]? = some c
          rw [modifyConn_conns, if_neg hne, hc]

end ConnectionPool

/-! ### The connections after a command is dispatched -/

/-- What a command has done to a connection: its commands are queued, its keys wait, and the parser
has a mode; without commands the connection is as clean as before. -/
structure Dispatched (base : Connection) (cmds : List Command) (keys : List Bytes)
    (md : ParserMode) (n : ℕ) (c : Connection) : Prop where
  idle : cmds = [] → base.Idled c
  loaded : c.bufferWriter.Loaded (cmds.flatMap Command.bytes)
  parser_eq : cmds ≠ [] → c.parser = { base.parser with requestKeys := keys, mode := md }
  counter_eq : cmds ≠ [] → c.counter = n
  socket : base.LiveFd → base.Retried c

theorem dispatched_idle {md : ParserMode} (hbase : base.Clean) (h : base.Idled c) :
    Dispatched base [] keys md n c where
  idle _ := h
  socket := h.socket
  loaded := (hbase.queued h).loaded
  parser_eq hne := absurd rfl hne
  counter_eq hne := absurd rfl hne

/-- A connection in the loop over the items of a command. -/
structure Gathering (base : Connection) (bs : Bytes) (keys : List Bytes) (done : List ι)
    (c : Connection) : Prop where
  queued : base.Queued bs keys done.length c
  idle : done = [] → base.Idled c

namespace ConnectionPool

structure Clean (p : ConnectionPool) : Prop where
  activeConns : p.activeConns = []
  nActiveConn : p.nActiveConn = 0
  conns : ∀ c ∈ p.conns, c.Clean

theorem mem_activate {start : Connection → Connection} (h : p.activeConns = []) :
    i ∈ (p.activate start).activeConns ↔ ∃ c, p.conns[i]? = some c ∧ 0 < c.counter := by
  show i ∈ p.activeConns ++ (List.range p.conns.length).filter p.isCounted ↔ _
  rw [h, List.nil_append, List.mem_filter, List.mem_range]
  unfold isCounted
  constructor
  · rintro ⟨hi, hany⟩
    rw [List.getElem?_eq_getElem hi] at hany
    exact ⟨_, List.getElem?_eq_getElem hi, by simpa using hany⟩
  · rintro ⟨c, hc, hpos⟩
    refine ⟨(List.getElem?_eq_some_iff.1 hc).1, ?_⟩
    rw [hc]
    simpa using hpos

theorem activate_conns (start : Connection → Connection) (p : ConnectionPool) (i : ℕ) :
    (p.activate start).conns[i]? = p.conns[i]?.map start := by
  show (p.conns.map start)[i]? = _
  rw [List.getElem?_map]

/-- The items of a command gather at their connections. -/
theorem gathering_dispatchItems (key : ι → Bytes) (take : ι → Connection → Connection)
    (bytes : List ι → Bytes) (ks : List ι → List Bytes) (hp : p.Clean) (hbase : p.conns[i]? = some base)
    (hbytes : bytes [] = []) (hks : ks [] = [])
    (htake : ∀ done c x, isValidKey (key x) → base.Queued (bytes done) (ks done) done.length c →
      base.Queued (bytes (done ++ [x])) (ks (done ++ [x])) (done.length + 1) (take x c))
    (items : List (ι × Routed)) :
    ∃ c, (p.dispatchItems key take items).conns[i]? = some c ∧
      Gathering base (bytes (Request.itemsFor key i items)) (ks (Request.itemsFor key i items))
        (Request.itemsFor key i items) c := by
  have hclean := hp.conns base (List.mem_of_getElem? hbase)
  have hinit : Gathering base (bytes []) (ks []) ([] : List ι) base := by
    rw [hbytes, hks]
    exact ⟨hclean.queued (Connection.Idled.refl base), fun _ => Connection.Idled.refl base⟩
  refine dispatchItems_conn (Q := fun done c => Gathering base (bytes done) (ks done) done c)
    (fun done c r h => ?_) (fun done c x hx h => ?_) items ⟨base, hbase, hinit⟩
  · exact ⟨h.queued.tryReconnect false r, fun hnil => (h.idle hnil).tryReconnect false r⟩
  · refine ⟨?_, fun hnil => absurd hnil (by simp)⟩
    rw [List.length_append, List.length_singleton]
    exact htake done c x hx h.queued

end ConnectionPool

theorem Gathering.startCounting {cmds : List Command} {items : List ι} (hbase : base.Clean)
    (h : Gathering base (cmds.flatMap Command.bytes) keys items c)
    (hlen : cmds.length = items.length) :
    Dispatched base cmds keys .counting keys.length c.startCounting ∧
      (0 < c.counter ↔ cmds ≠ []) := by
  have hcount := h.queued.counter_eq
  rw [← hlen] at hcount
  by_cases hnil : cmds = []
  · subst hnil
    have hidle := h.idle (List.length_eq_zero_iff.1 hlen.symm)
    have hclean := hbase.of_sameWork hidle.work
    refine ⟨dispatched_idle hbase ?_, by simp [hclean.counter]⟩
    unfold Connection.startCounting
    rw [if_neg (by rw [hclean.counter]; exact lt_irrefl 0)]
    refine ⟨⟨hidle.work.bufferWriter_eq, hidle.work.parser_eq, ?_⟩,
      fun hb => (hidle.socket hb).trans_same ⟨rfl, rfl, rfl⟩⟩
    show c.parser.requestKeys.length = _
    rw [hclean.requestKeys, hbase.counter]
    rfl
  · have hpos : 0 < c.counter := by
      rw [hcount]
      exact List.length_pos_of_ne_nil hnil
    have hkeys : c.parser.requestKeys = keys := by rw [h.queued.parser_eq]
    unfold Connection.startCounting
    rw [if_pos hpos]
    refine ⟨⟨fun h0 => absurd h0 hnil, h.queued.loaded, fun _ => ?_, fun _ => ?_,
      fun hb => (h.queued.socket hb).trans_same ⟨rfl, rfl, rfl⟩⟩, by simp [hpos, hnil]⟩
    · show { c.parser with mode := .counting } = _
      rw [h.queued.parser_eq]
    · show c.parser.requestKeys.length = _
      rw [hkeys]

theorem Gathering.startRetrieval {op : OpCode} {ks : List Bytes} (hbase : base.Clean)
    (h : Gathering base (Connection.Queued.retrievalLine op ks) [] ks c) :
    Dispatched base (if ks = [] then [] else [.retrieval op ks]) [] .endState ks.length
        c.startRetrieval ∧ (0 < c.counter ↔ ks ≠ []) := by
  have hcount := h.queued.counter_eq
  unfold Connection.startRetrieval
  by_cases hnil : ks = []
  · subst hnil
    have hidle := h.idle rfl
    rw [if_pos rfl, if_neg (by rw [hcount]; exact lt_irrefl 0)]
    exact ⟨dispatched_idle hbase hidle, by simp [hcount]⟩
  · have hpos : 0 < c.counter := by
      rw [hcount]
      exact List.length_pos_of_ne_nil hnil
    have hline := h.queued.takeBuffer crlf
    rw [if_neg hnil, if_pos hpos]
    refine ⟨⟨fun h0 => absurd h0 (by simp), ?_, fun _ => ?_, fun _ => hcount,
      fun hb => (hline.socket hb).trans_same ⟨rfl, rfl, rfl⟩⟩, by simp [hpos, hnil]⟩
    · have hbytes : [Command.retrieval op ks].flatMap Command.bytes =
          Connection.Queued.retrievalLine op ks ++ crlf := by
        simp [Command.bytes, Command.line, Command.fields, Command.data,
          Connection.Queued.intercalate_space, Connection.Queued.retrievalLine, hnil]
      rw [hbytes]
      exact hline.loaded
    · show { c.parser with mode := .endState } = _
      rw [h.queued.parser_eq]

namespace ConnectionPool

/-- What a command that is dispatched to a clean pool leaves at a connection, and whether that is
active. -/
def Dispatches (i : ℕ) (base : Connection) (cmds : List Command) (keys : List Bytes)
    (md : ParserMode) (n : ℕ) (p : ConnectionPool) : Prop :=
  ∃ c, p.conns[i]? = some c ∧ Dispatched base cmds keys md n c ∧ (i ∈ p.activeConns ↔ cmds ≠ [])

/-- A command whose items each send a command and wait for a reply, or send `noreply`. -/
theorem dispatches_counting (key : ι → Bytes) (command : ι → Command) (hp : p.Clean)
    (hbase : p.conns[i]? = some base)
    (htake : ∀ bs keys n c x, base.Queued bs keys n c → base.Queued (bs ++ (command x).bytes)
      (keys ++ if noreply then [] else [key x]) (n + 1) (take x c)) (items : List (ι × Routed)) :
    Dispatches i base ((Request.itemsFor key i items).map command)
      (if noreply then [] else (Request.itemsFor key i items).map key) .counting
      (if noreply then [] else (Request.itemsFor key i items).map key).length
      ((p.dispatchItems key take items).activate Connection.startCounting) := by
  have hclean := hp.conns base (List.mem_of_getElem? hbase)
  have hsame := sameActive_dispatchItems key take items p
  obtain ⟨c, hc, hgather⟩ := gathering_dispatchItems key take
    (fun done => (done.map command).flatMap Command.bytes)
    (fun done => if noreply then [] else done.map key) hp hbase rfl (by simp)
    (fun done c x _ h => by
      have := htake _ _ _ _ x h
      cases noreply <;> simpa using this) items
  obtain ⟨hdispatched, hpos⟩ := hgather.startCounting hclean (List.length_map _)
  refine ⟨c.startCounting, ?_, hdispatched, ?_⟩
  · rw [activate_conns, hc]
    rfl
  · rw [mem_activate (hsame.activeConns.trans hp.activeConns), hc]
    simpa using hpos

theorem dispatches_retrieval (hp : p.Clean) (hbase : p.conns[i]? = some base) (op : RetrievalOp)
    (keys : List (Bytes × Routed)) :
    Dispatches i base ((Request.retrieval op keys).commandsFor p i) [] .endState
      (Request.itemsFor id i keys).length (p.dispatchRetrieval op keys) := by
  have hclean := hp.conns base (List.mem_of_getElem? hbase)
  have hsame := sameActive_dispatchItems id (Connection.takeRetrieval op) keys p
  obtain ⟨c, hc, hgather⟩ := gathering_dispatchItems id (Connection.takeRetrieval op)
    (Connection.Queued.retrievalLine op) (fun _ => []) hp hbase rfl rfl (fun done c x _ h => by
      have := h.takeRetrieval x
      simpa using this) keys
  obtain ⟨hdispatched, hpos⟩ := hgather.startRetrieval hclean
  refine ⟨c.startRetrieval, ?_, hdispatched, ?_⟩
  · show (activate Connection.startRetrieval _).conns[i]? = _
    rw [activate_conns, hc]
    rfl
  · show i ∈ (activate Connection.startRetrieval _).activeConns ↔ _
    rw [mem_activate (hsame.activeConns.trans hp.activeConns), hc]
    unfold Request.commandsFor
    simpa using hpos

theorem dispatches_incrDecr (hp : p.Clean) (hbase : p.conns[i]? = some base) (op : IncrDecrOp)
    (delta : UInt64) (noreply : Bool) (key : Bytes × Routed) :
    Dispatches i base
      ((Request.itemsFor id i [key]).map (.incrDecr op · delta.toInt64.toInt noreply))
      (if noreply then [] else Request.itemsFor id i [key]) .counting
      (if noreply then [] else Request.itemsFor id i [key]).length
      (p.dispatchIncrDecr op delta noreply key) := by
  have hclean := hp.conns base (List.mem_of_getElem? hbase)
  obtain ⟨c, hc, hidle⟩ := getConn_conn (Q := fun c => base.Idled c)
    (fun c r h => h.tryReconnect false r) key.2
    ⟨base, hbase, Connection.Idled.refl base⟩
  have hactive : (p.getConn key.2).activeConns = [] :=
    (sameActive_foldl _ _ _ p).activeConns.trans hp.activeConns
  by_cases hkey : isValidKey key.1 = true
  · rcases hj : key.2.conn with _ | j
    · have heq : p.dispatchIncrDecr op delta noreply key = p.getConn key.2 := by
        unfold dispatchIncrDecr
        rw [if_neg (by simp [hkey]), hj]
      have hfor : Request.itemsFor id i [key] = [] := by simp [Request.itemsFor, hj]
      rw [heq]
      rw [hfor]
      exact ⟨c, hc, dispatched_idle hclean hidle, by simp [hactive]⟩
    · have heq : p.dispatchIncrDecr op delta noreply key =
          { ((p.getConn key.2).modifyConn j (Connection.takeIncrDecr op delta noreply key.1)).modifyConn
              j fun c => (c.setParserMode .counting).expectReplies with
            nActiveConn := incr32 (p.getConn key.2).nActiveConn
            activeConns := (p.getConn key.2).activeConns ++ [j] } := by
        unfold dispatchIncrDecr
        rw [if_neg (by simp [hkey]), hj]
        rfl
      rw [heq]
      by_cases hji : j = i
      · subst hji
        have hfor : Request.itemsFor id j [key] = [key.1] := by simp [Request.itemsFor, hj, hkey]
        have hq := (hclean.queued hidle).takeIncrDecr op delta noreply key.1
        rw [hfor]
        refine ⟨((c.takeIncrDecr op delta noreply key.1).setParserMode .counting).expectReplies, ?_,
          ⟨fun h0 => absurd h0 (by simp), ?_, fun _ => ?_, fun _ => ?_,
            fun hb => (hq.socket hb).trans_same ⟨rfl, rfl, rfl⟩⟩, ?_⟩
        · show (modifyConn j _ (modifyConn j _ _)).conns[j]? = _
          rw [modifyConn_conns, if_pos rfl, modifyConn_conns, if_pos rfl, hc]
          rfl
        · show (c.takeIncrDecr op delta noreply key.1).bufferWriter.Loaded _
          simpa using hq.loaded
        · show { (c.takeIncrDecr op delta noreply key.1).parser with mode := .counting } = _
          rw [hq.parser_eq]
          rfl
        · show (c.takeIncrDecr op delta noreply key.1).parser.requestKeys.length = _
          rw [hq.parser_eq]
          rfl
        · simp
      · have hfor : Request.itemsFor id i [key] = [] := by simp [Request.itemsFor, hj, hji]
        rw [hfor]
        refine ⟨c, ?_, dispatched_idle hclean hidle, ?_⟩
        · show (modifyConn j _ (modifyConn j _ _)).conns[i]? = _
          rw [modifyConn_conns, if_neg hji, modifyConn_conns, if_neg hji, hc]
        · simp [hactive, Ne.symm hji]
  · have heq : p.dispatchIncrDecr op delta noreply key =
        { p with nInvalidKey := incr32 p.nInvalidKey } := by
      unfold dispatchIncrDecr
      rw [if_pos (by simp [hkey])]
    have hfor : Request.itemsFor id i [key] = [] := by simp [Request.itemsFor, hkey]
    rw [heq]
    rw [hfor]
    exact ⟨base, hbase, dispatched_idle hclean (Connection.Idled.refl base),
      by simp [hp.activeConns]⟩

theorem dispatches_broadcast (hp : p.Clean) (hbase : p.conns[i]? = some base) (op : BroadcastOp)
    (answers : ℕ → Reconnect) :
    Dispatches i base (if (base.tryReconnect false (answers i)).alive then [.bare op] else []) []
      .endState (if op.1 = .quit then 0 else 1)
      (p.broadcastCommand op.1.word (decide (op.1 = .quit)) answers) := by
  have hclean := hp.conns base (List.mem_of_getElem? hbase)
  have hidle := (Connection.Idled.refl base).tryReconnect false (answers i)
  have hi := (List.getElem?_eq_some_iff.1 hbase).1
  have hconn : (p.broadcastCommand op.1.word (decide (op.1 = .quit)) answers).conns[i]? =
      some (base.takeBroadcast op.1.word (decide (op.1 = .quit)) (answers i)) := by
    show (p.conns.mapIdx _)[i]? = _
    rw [List.getElem?_mapIdx, hbase]
    rfl
  have hmem : i ∈ (p.broadcastCommand op.1.word (decide (op.1 = .quit)) answers).activeConns ↔
      (base.takeBroadcast op.1.word (decide (op.1 = .quit)) (answers i)).alive := by
    show i ∈ p.activeConns ++ List.filter _ _ ↔ _
    rw [hp.activeConns, List.nil_append, List.mem_filter, List.mem_range, List.length_mapIdx,
      List.getElem?_mapIdx, hbase]
    simp [hi]
  refine ⟨_, hconn, ?_⟩
  rw [hmem]
  by_cases halive : (base.tryReconnect false (answers i)).alive = true
  · have hcmd : [Command.bare op.1].flatMap Command.bytes = [] ++ op.1.word ++ crlf := by
      simp [Command.bytes, Command.line, Command.fields, Command.data]
    have hword := (hclean.queued hidle).takeBuffer op.1.word
    have hcount : base.Queued ([] ++ op.1.word) [] (if op.1 = .quit then 0 else 1)
        (if decide (op.1 = .quit) then
          (base.tryReconnect false (answers i)).takeBuffer op.1.word
        else ((base.tryReconnect false (answers i)).takeBuffer op.1.word).count) := by
      by_cases hquit : op.1 = .quit
      · simpa [hquit] using hword
      · simpa [hquit] using hword.count
    have hline := hcount.takeBuffer crlf
    have heq : base.takeBroadcast op.1.word (decide (op.1 = .quit)) (answers i) =
        ((if decide (op.1 = .quit) then
          (base.tryReconnect false (answers i)).takeBuffer op.1.word
        else ((base.tryReconnect false (answers i)).takeBuffer op.1.word).count).takeBuffer
          crlf).setParserMode .endState := by
      unfold Connection.takeBroadcast
      exact if_pos halive
    have hsame : (base.takeBroadcast op.1.word (decide (op.1 = .quit)) (answers i)).alive := by
      rw [heq]
      split_ifs <;> exact halive
    rw [if_pos halive]
    refine ⟨⟨fun h0 => absurd h0 (by simp), ?_, fun _ => ?_, fun _ => ?_, fun hb => ?_⟩,
      iff_of_true hsame (by simp)⟩
    · rw [heq, hcmd]
      exact hline.loaded
    · rw [heq]
      show { Connection.parser _ with mode := .endState } = _
      rw [hline.parser_eq]
    · rw [heq]
      exact hline.counter_eq
    · rw [heq]
      exact (hline.socket hb).trans_same ⟨rfl, rfl, rfl⟩
  · have heq : base.takeBroadcast op.1.word (decide (op.1 = .quit)) (answers i) =
        base.tryReconnect false (answers i) := by
      unfold Connection.takeBroadcast
      exact if_neg halive
    rw [if_neg halive, heq]
    exact ⟨dispatched_idle hclean hidle, iff_of_false halive (by simp)⟩

end ConnectionPool

/-- **Dispatching.** A connection of a clean pool is left the commands that are for it, and it is
active if there is one. -/
theorem Request.dispatches (hp : p.Clean) (hbase : p.conns[i]? = some base) (req : Request) :
    ConnectionPool.Dispatches i base (req.commandsFor p i) (req.keysFor i) req.parserMode
      (req.counterFor i) (req.dispatch p) := by
  cases req with
  | storage op exptime noreply items =>
    exact ConnectionPool.dispatches_counting _ _ hp hbase
      (fun bs keys n c x h => h.takeStorage op exptime noreply x) items
  | retrieval op keys => exact ConnectionPool.dispatches_retrieval hp hbase op keys
  | deletion noreply keys =>
    have := ConnectionPool.dispatches_counting id (.delete · noreply) hp hbase
      (fun bs keys n c x h => h.takeDeletion noreply x) keys
    rw [List.map_id] at this
    exact this
  | touch exptime noreply keys =>
    have := ConnectionPool.dispatches_counting id (.touch · exptime.toInt noreply) hp hbase
      (fun bs keys n c x h => h.takeTouch exptime noreply x) keys
    rw [List.map_id] at this
    exact this
  | incrDecr op delta noreply key =>
    exact ConnectionPool.dispatches_incrDecr hp hbase op delta noreply key
  | broadcast op answers =>
    have hcmds : (Request.broadcast op answers).commandsFor p i =
        if (base.tryReconnect false (answers i)).alive then [.bare op] else [] := by
      simp only [Request.commandsFor, hbase, Option.any_some]
    rw [hcmds]
    exact ConnectionPool.dispatches_broadcast hp hbase op answers

/-! ### Valid commands -/

theorem isField_of_isValidKey {k : Bytes} (h : isValidKey k = true) : Command.IsField k := by
  unfold isValidKey at h
  rw [Bool.and_eq_true, List.all_eq_true] at h
  have hall : ∀ b ∈ k, b ≠ space ∧ b ≠ cr ∧ b ≠ lf := by
    intro b hb
    have := h.2 b hb
    simp only [Bool.and_eq_true, decide_eq_true_eq, ne_eq] at this
    exact ⟨this.1.1.1, this.1.1.2, this.1.2⟩
  exact ⟨fun hb => (hall _ hb).1 rfl, fun hb => (hall _ hb).2.1 rfl, fun hb => (hall _ hb).2.2 rfl⟩

theorem isField_of_mem_itemsFor (key : ι → Bytes) {items : List (ι × Routed)} {x : ι}
    (h : x ∈ Request.itemsFor key i items) : Command.IsField (key x) := by
  obtain ⟨item, hitem, rfl⟩ := List.mem_map.1 h
  have hvalid := (List.mem_filter.1 hitem).2
  rw [Bool.and_eq_true] at hvalid
  exact isField_of_isValidKey hvalid.1

theorem Request.commandsFor_valid (req : Request) : ∀ cmd ∈ req.commandsFor p i, cmd.Valid := by
  intro cmd hcmd
  cases req with
  | storage op exptime noreply items =>
    obtain ⟨x, hx, rfl⟩ := List.mem_map.1 hcmd
    refine ⟨op.2, isField_of_mem_itemsFor _ hx, ?_⟩
    split_ifs with hop <;> simp [hop]
  | retrieval op keys =>
    change cmd ∈ if itemsFor id i keys = [] then [] else _ at hcmd
    split_ifs at hcmd
    · cases hcmd
    · rw [List.mem_singleton.1 hcmd]
      exact ⟨op.2, fun key hkey => isField_of_mem_itemsFor _ hkey⟩
  | deletion noreply keys =>
    obtain ⟨x, hx, rfl⟩ := List.mem_map.1 hcmd
    exact isField_of_mem_itemsFor id hx
  | touch exptime noreply keys =>
    obtain ⟨x, hx, rfl⟩ := List.mem_map.1 hcmd
    exact isField_of_mem_itemsFor id hx
  | incrDecr op delta noreply key =>
    obtain ⟨x, hx, rfl⟩ := List.mem_map.1 hcmd
    exact ⟨op.2, isField_of_mem_itemsFor id hx⟩
  | broadcast op answers =>
    change cmd ∈ if _ then _ else _ at hcmd
    split_ifs at hcmd
    · rw [List.mem_singleton.1 hcmd]
      exact op.2
    · cases hcmd

/-- No key waits without a command. -/
theorem Request.keysFor_eq_nil (req : Request) (h : req.commandsFor p i = []) :
    req.keysFor i = [] := by
  cases req with
  | storage op exptime noreply items =>
    have := List.map_eq_nil_iff.1 h
    simp [keysFor, this]
  | retrieval op keys => rfl
  | deletion noreply keys =>
    have := List.map_eq_nil_iff.1 h
    simp [keysFor, this]
  | touch exptime noreply keys =>
    have := List.map_eq_nil_iff.1 h
    simp [keysFor, this]
  | incrDecr op delta noreply key =>
    have := List.map_eq_nil_iff.1 h
    simp [keysFor, this]
  | broadcast op answers => rfl

/-! ### Between commands -/

namespace ConnectionPool

theorem clean_init (n : ℕ) : (init n).Clean where
  activeConns := rfl
  nActiveConn := rfl
  conns c hc := by
    rw [List.eq_of_mem_replicate hc]
    exact ⟨rfl, rfl, rfl⟩

theorem Clean.config (h : p.Clean) (retryTimeout maxRetries : ℤ) :
    (p.config retryTimeout maxRetries).Clean where
  activeConns := h.activeConns
  nActiveConn := h.nActiveConn
  conns c hc := by
    obtain ⟨d, hd, rfl⟩ := List.mem_map.1 hc
    exact (h.conns d hd).of_sameWork ⟨rfl, rfl, rfl⟩

theorem reset_conns (p : ConnectionPool) (i : ℕ) :
    p.reset.conns[i]? =
      p.conns[i]?.map fun c => (p.activeConns.filter (· = i)).foldl (fun c _ => c.reset) c :=
  foldl_modifyConn_conns p.activeConns id (fun _ => Connection.reset) p i

theorem reset_conn_cases (hi : p.reset.conns[i]? = some c) :
    i ∉ p.activeConns ∧ p.conns[i]? = some c ∨
      i ∈ p.activeConns ∧ ∃ d, p.conns[i]? = some d ∧ c = d.reset := by
  rw [reset_conns, Option.map_eq_some_iff] at hi
  obtain ⟨d, hd, rfl⟩ := hi
  rcases hf : p.activeConns.filter (· = i) with _ | ⟨j, l⟩
  · refine .inl ⟨fun hmem => ?_, hd⟩
    have hfilter : i ∈ p.activeConns.filter (· = i) := List.mem_filter.2 ⟨hmem, by simp⟩
    rw [hf] at hfilter
    cases hfilter
  · have hmem : j ∈ p.activeConns.filter (· = i) := hf ▸ List.mem_cons_self
    obtain ⟨hj, hij⟩ := List.mem_filter.1 hmem
    obtain rfl := of_decide_eq_true hij
    refine .inr ⟨hj, d, hd, ?_⟩
    rw [List.foldl_cons]
    clear hd hf hmem hj hij
    induction l with
    | nil => rfl
    | cons _ l ih =>
      rw [List.foldl_cons, Connection.reset_reset]
      exact ih

theorem reset_cases (h : c ∈ p.reset.conns) :
    (∃ i, i ∉ p.activeConns ∧ p.conns[i]? = some c) ∨
      ∃ i ∈ p.activeConns, ∃ d, p.conns[i]? = some d ∧ c = d.reset := by
  obtain ⟨i, hi⟩ := List.mem_iff_getElem?.1 h
  rcases reset_conn_cases hi with ⟨hmem, hc⟩ | ⟨hmem, hd⟩
  · exact .inl ⟨i, hmem, hc⟩
  · exact .inr ⟨i, hmem, hd⟩

theorem clean_reset (h : ∀ i c, i ∉ p.activeConns → p.conns[i]? = some c → c.Clean) :
    p.reset.Clean where
  activeConns := rfl
  nActiveConn := rfl
  conns c hc := by
    rcases reset_cases hc with ⟨i, hi, hc⟩ | ⟨i, -, d, -, rfl⟩
    · exact h i c hi hc
    · exact Connection.clean_reset d

end ConnectionPool

theorem Request.finish_frame (req : Request) (times : ℕ → ℤ) (p : ConnectionPool) :
    p.Frame (req.finish times p) := by
  unfold Request.finish
  split
  · split_ifs
    · exact ConnectionPool.frame_markDeadAll _ _ _
    · exact ConnectionPool.Frame.refl _
  · exact ConnectionPool.Frame.refl _

theorem Request.dispatch_length (req : Request) (p : ConnectionPool) :
    (req.dispatch p).conns.length = p.conns.length := by
  have hitems : ∀ {ι : Type} (key : ι → Bytes) (take : ι → Connection → Connection)
      (start : Connection → Connection) (items : List (ι × Routed)),
      ((p.dispatchItems key take items).activate start).conns.length = p.conns.length := by
    intro ι key take start items
    exact (List.length_map _).trans (ConnectionPool.sameActive_dispatchItems _ _ items p).length
  cases req with
  | storage op exptime noreply items => exact hitems _ _ _ items
  | retrieval op keys => exact hitems _ _ _ keys
  | deletion noreply keys => exact hitems _ _ _ keys
  | touch exptime noreply keys => exact hitems _ _ _ keys
  | incrDecr op delta noreply key =>
    have hconn : (p.getConn key.2).conns.length = p.conns.length :=
      (ConnectionPool.sameActive_foldl _ _ _ p).length
    show (p.dispatchIncrDecr op delta noreply key).conns.length = _
    unfold ConnectionPool.dispatchIncrDecr
    split_ifs
    · rfl
    · cases key.2.conn with
      | none => exact hconn
      | some i => exact ((List.length_modify _ _ _).trans (List.length_modify _ _ _)).trans hconn
  | broadcast op answers => exact List.length_mapIdx

theorem Request.clean_command {rule : PollLoop → Event → PollLoop → Prop} {code : ErrCode}
    (hp : p.Clean) (req : Request) (hwait : (req.dispatch p).WaitPoll rule code p')
    (times : ℕ → ℤ) : (req.finish times p').reset.Clean := by
  have hframe := hwait.frame.trans (req.finish_frame times p')
  refine ConnectionPool.clean_reset fun i c hi hc => ?_
  rw [hframe.activeConns] at hi
  rw [hframe.conns i hi] at hc
  have hlt : i < p.conns.length := by
    rw [← req.dispatch_length p]
    exact (List.getElem?_eq_some_iff.1 hc).1
  have hbase : p.conns[i]? = some p.conns[i] := List.getElem?_eq_getElem hlt
  obtain ⟨d, hd, hdis, hactive⟩ := req.dispatches hp hbase
  rw [hd] at hc
  obtain rfl := Option.some.inj hc
  have hnil : req.commandsFor p i = [] := by
    by_contra hne
    exact hi (hactive.2 hne)
  exact (hp.conns _ (List.mem_of_getElem? hbase)).of_sameWork (hdis.idle hnil).work

/-- **Between commands the pool is clean.** -/
theorem Reachable.clean {rules : Rules} (h : Reachable rules p) : p.Clean := by
  induction h with
  | init n => exact ConnectionPool.clean_init n
  | config _ retryTimeout maxRetries ih => exact ih.config retryTimeout maxRetries
  | command _ req _ hwait times ih => exact req.clean_command ih hwait times

theorem Request.dispatch_active (hp : p.Clean) (req : Request) :
    (req.dispatch p).activeConns.Nodup ∧
      (req.dispatch p).nActiveConn = (req.dispatch p).activeConns.length % 2 ^ 32 := by
  have hitems : ∀ {ι : Type} (key : ι → Bytes) (take : ι → Connection → Connection)
      (start : Connection → Connection) (items : List (ι × Routed)),
      ((p.dispatchItems key take items).activate start).activeConns.Nodup ∧
        ((p.dispatchItems key take items).activate start).nActiveConn =
          ((p.dispatchItems key take items).activate start).activeConns.length % 2 ^ 32 := by
    intro ι key take start items
    have hsame := ConnectionPool.sameActive_dispatchItems key take items p
    have hlist : (p.dispatchItems key take items).activeConns = [] :=
      hsame.activeConns.trans hp.activeConns
    have hcount : (p.dispatchItems key take items).nActiveConn = 0 :=
      hsame.nActiveConn.trans hp.nActiveConn
    unfold ConnectionPool.activate
    rw [hlist, hcount]
    exact ⟨List.nodup_range.filter _, by simp⟩
  cases req with
  | storage op exptime noreply items => exact hitems _ _ _ items
  | retrieval op keys => exact hitems _ _ _ keys
  | deletion noreply keys => exact hitems _ _ _ keys
  | touch exptime noreply keys => exact hitems _ _ _ keys
  | incrDecr op delta noreply key =>
    have hsame : ConnectionPool.SameActive p (p.getConn key.2) :=
      ConnectionPool.sameActive_foldl _ _ _ p
    have hlist := hsame.activeConns.trans hp.activeConns
    have hcount := hsame.nActiveConn.trans hp.nActiveConn
    show (p.dispatchIncrDecr op delta noreply key).activeConns.Nodup ∧
      (p.dispatchIncrDecr op delta noreply key).nActiveConn =
        (p.dispatchIncrDecr op delta noreply key).activeConns.length % 2 ^ 32
    unfold ConnectionPool.dispatchIncrDecr
    split_ifs
    · simp [hp.activeConns, hp.nActiveConn]
    · cases key.2.conn with
      | none => simp [hlist, hcount]
      | some i => simp [ConnectionPool.modifyConn, hlist, hcount, incr32]
  | broadcast op answers =>
    show List.Nodup (p.activeConns ++ _) ∧
      (p.nActiveConn + _) % 2 ^ 32 = (p.activeConns ++ _).length % _
    rw [hp.activeConns, hp.nActiveConn]
    exact ⟨List.nodup_range.filter _, by simp⟩

/-- **What is queued by a command.** In any state between commands and for any routing, the bytes
queued at a connection are read as the commands of the items that were routed to it, in order, and
nothing else; the keys of those that are to be answered wait in the parser. A connection without
items has nothing queued and is not active, and each of the others is active, once. -/
theorem dispatch_queued {rules : Rules} (hp : Reachable rules p) (req : Request)
    (hc : (req.dispatch p).conns[i]? = some c) :
    readCommands c.bufferWriter.unread = (req.commandsFor p i, []) ∧
      c.parser.requestKeys = req.keysFor i ∧
      (req.commandsFor p i = [] → c.bufferWriter.getReadPtr = []) ∧
      (req.dispatch p).activeConns.count i = if req.commandsFor p i = [] then 0 else 1 := by
  have hclean := hp.clean
  have hlt : i < p.conns.length := by
    rw [← req.dispatch_length p]
    exact (List.getElem?_eq_some_iff.1 hc).1
  have hbase : p.conns[i]? = some p.conns[i] := List.getElem?_eq_getElem hlt
  have hbaseClean := hclean.conns _ (List.mem_of_getElem? hbase)
  obtain ⟨d, hd, hdis, hactive⟩ := req.dispatches hclean hbase
  rw [hd] at hc
  obtain rfl := Option.some.inj hc
  refine ⟨?_, ?_, fun hnil => ?_, ?_⟩
  · have hread := Command.frames.readAll_items (s := []) (req.commandsFor_valid (p := p) (i := i))
      (.inl rfl)
    rw [List.append_nil] at hread
    rw [hdis.loaded.unread_eq]
    exact hread
  · by_cases hnil : req.commandsFor p i = []
    · rw [(hdis.idle hnil).work.parser_eq, hbaseClean.requestKeys, req.keysFor_eq_nil hnil]
    · rw [hdis.parser_eq hnil]
  · rw [(hdis.idle hnil).work.bufferWriter_eq, hbaseClean.writer]
    rfl
  · rw [(req.dispatch_active hclean).1.count]
    by_cases hnil : req.commandsFor p i = []
    · rw [if_pos hnil, if_neg fun hmem => hactive.1 hmem hnil]
    · rw [if_neg hnil, if_pos (hactive.2 hnil)]

/-- A key that goes to the second of two new connections. -/
theorem dispatch_queued_touch :
    ∃ c, ((Request.touch 60 false [(ascii "a", { conn := some 1 })]).dispatch
        (.init 2)).conns[1]? = some c ∧
      readCommands c.bufferWriter.unread = ([.touch (ascii "a") 60 false], []) ∧
      c.parser.requestKeys = [ascii "a"] := by
  refine ⟨_, rfl, ?_⟩
  have hqueued := dispatch_queued (.init 2 : Reachable {} _)
    (.touch 60 false [(ascii "a", { conn := some 1 })]) (i := 1) rfl
  exact ⟨hqueued.1, hqueued.2.1⟩

end Libmc
