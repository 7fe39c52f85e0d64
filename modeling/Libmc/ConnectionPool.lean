import Libmc.Connection
import Libmc.TextProtocol

/-!
# Dispatching commands

`ConnectionPool` routes the items of a command to connections: each writes its part of the request
into the writer of its connection. A connection is its index in `m_conns`. Where a key goes is a
parameter: a call of `getConn` tries to reconnect some connections and returns one or none.
-/

namespace Libmc

/-- A call of `getConn`: the connections on which it calls `tryReconnect(false)`, with what the
system answers, and the connection it returns. -/
structure Routed where
  tried : List (ℕ × Reconnect) := []
  conn : Option ℕ
  deriving DecidableEq, Repr

/-- An item of a storage command. No object is larger than `PTRDIFF_MAX`. -/
structure StorageItem where
  key : Bytes
  flags : UInt32
  casUnique : UInt64 := 0
  val : Bytes
  val_lt : val.length < 2 ^ 63

/-- `ConnectionPool`. -/
structure ConnectionPool where
  nActiveConn : ℕ := 0
  nInvalidKey : ℕ := 0
  activeConns : List ℕ := []
  conns : List Connection := []
  deriving DecidableEq, Repr

/-- `++` on a `uint32_t`. -/
def incr32 (n : ℕ) : ℕ := (n + 1) % 2 ^ 32

/-- `--` on a `uint32_t`. -/
def decr32 (n : ℕ) : ℕ := (n + (2 ^ 32 - 1)) % 2 ^ 32

/-! ### What an item writes -/

namespace Connection

/-- The `switch` of `dispatchStorage`. -/
def takeStorageKeyword (op : OpCode) (c : Connection) : Connection :=
  match op with
  | .set => c.takeBuffer (ascii "set ")
  | .add => c.takeBuffer (ascii "add ")
  | .replace => c.takeBuffer (ascii "replace ")
  | .append => c.takeBuffer (ascii "append ")
  | .prepend => c.takeBuffer (ascii "prepend ")
  | .cas => c.takeBuffer (ascii "cas ")
  | _ => c

/-- `noreply`, or a key that waits for its reply. -/
def takeNoreply (noreply : Bool) (key : Bytes) (c : Connection) : Connection :=
  if noreply then c.takeBuffer (ascii " noreply") else c.addRequestKey key

/-- `++conn->m_counter`. -/
def count (c : Connection) : Connection := { c with counter := c.counter + 1 }

/-- An item of `dispatchStorage`. -/
def takeStorage (op : OpCode) (exptime : Int64) (noreply : Bool) (item : StorageItem)
    (c : Connection) : Connection :=
  let c := c.takeStorageKeyword op
  let c := c.takeBuffer item.key
  let c := c.takeBuffer [space]
  let c := c.takeNumber (Int64.ofNat item.flags.toNat)
  let c := c.takeBuffer [space]
  let c := c.takeNumber exptime
  let c := c.takeBuffer [space]
  let c := c.takeNumber (Int64.ofNat item.val.length)
  let c := if op = .cas then (c.takeBuffer [space]).takeNumber item.casUnique.toInt64 else c
  let c := c.takeNoreply noreply item.key
  let c := c.count
  let c := c.takeBuffer crlf
  let c := c.takeBuffer item.val
  c.takeBuffer crlf

/-- The `switch` of `dispatchRetrieval`. -/
def takeRetrievalKeyword (op : OpCode) (c : Connection) : Connection :=
  match op with
  | .get => c.takeBuffer (ascii "get")
  | .gets => c.takeBuffer (ascii "gets")
  | _ => c

/-- A key of `dispatchRetrieval`. -/
def takeRetrieval (op : OpCode) (key : Bytes) (c : Connection) : Connection :=
  let c := c.count
  let c := if c.counter = 1 then c.takeRetrievalKeyword op else c
  (c.takeBuffer [space]).takeBuffer key

/-- A key of `dispatchDeletion`. -/
def takeDeletion (noreply : Bool) (key : Bytes) (c : Connection) : Connection :=
  let c := c.takeBuffer (ascii "delete ")
  let c := c.takeBuffer key
  let c := c.takeNoreply noreply key
  c.count.takeBuffer crlf

/-- A key of `dispatchTouch`. -/
def takeTouch (exptime : Int64) (noreply : Bool) (key : Bytes) (c : Connection) : Connection :=
  let c := c.takeBuffer (ascii "touch ")
  let c := c.takeBuffer key
  let c := c.takeBuffer [space]
  let c := c.takeNumber exptime
  let c := c.takeNoreply noreply key
  c.count.takeBuffer crlf

/-- The `switch` of `dispatchIncrDecr`. -/
def takeIncrDecrKeyword (op : OpCode) (c : Connection) : Connection :=
  match op with
  | .incr => c.takeBuffer (ascii "incr ")
  | .decr => c.takeBuffer (ascii "decr ")
  | _ => c

/-- The key of `dispatchIncrDecr`. -/
def takeIncrDecr (op : OpCode) (delta : UInt64) (noreply : Bool) (key : Bytes) (c : Connection) :
    Connection :=
  let c := c.takeIncrDecrKeyword op
  let c := c.takeBuffer key
  let c := c.takeBuffer [space]
  let c := c.takeNumber delta.toInt64
  let c := c.takeNoreply noreply key
  c.count.takeBuffer crlf

/-- Before this `m_counter` is the number of packets to send, after it the number to receive. -/
def expectReplies (c : Connection) : Connection := { c with counter := c.requestKeyCount }

/-- A connection after a command whose replies are counted. -/
def startCounting (c : Connection) : Connection :=
  (if 0 < c.counter then c.setParserMode .counting else c).expectReplies

/-- The end of a retrieval line. -/
def startRetrieval (c : Connection) : Connection :=
  if 0 < c.counter then (c.takeBuffer crlf).setParserMode .endState else c

/-- A connection in `broadcastCommand`; it is left alone if it is dead and stays so. -/
def takeBroadcast (cmd : Bytes) (noreply : Bool) (r : Reconnect) (c : Connection) : Connection :=
  let c := c.tryReconnect false r
  if c.alive then
    let c := c.takeBuffer cmd
    let c := if noreply then c else c.count
    (c.takeBuffer crlf).setParserMode .endState
  else c

end Connection

namespace ConnectionPool

def modifyConn (i : ℕ) (f : Connection → Connection) (p : ConnectionPool) : ConnectionPool :=
  { p with conns := p.conns.modify i f }

/-- `KetamaSelector::getConn`, without its result. -/
def getConn (r : Routed) (p : ConnectionPool) : ConnectionPool :=
  r.tried.foldl (fun p t => p.modifyConn t.1 (Connection.tryReconnect false t.2)) p

/-- A round of the loop over the items of a command. -/
def dispatchItem {ι : Type} (key : ι → Bytes) (take : ι → Connection → Connection)
    (p : ConnectionPool) (item : ι × Routed) : ConnectionPool :=
  if !isValidKey (key item.1) then { p with nInvalidKey := incr32 p.nInvalidKey }
  else
    let p := p.getConn item.2
    match item.2.conn with
    | none => p
    | some i => p.modifyConn i (take item.1)

/-- The loop over the items of a command. -/
def dispatchItems {ι : Type} (key : ι → Bytes) (take : ι → Connection → Connection)
    (items : List (ι × Routed)) (p : ConnectionPool) : ConnectionPool :=
  items.foldl (dispatchItem key take) p

/-- Whether a connection has got an item. -/
def isCounted (p : ConnectionPool) (i : ℕ) : Bool := (p.conns[i]?.any fun c => 0 < c.counter)

/-- The loop over the connections after the items: those that have got one become active. -/
def activate (start : Connection → Connection) (p : ConnectionPool) : ConnectionPool :=
  let active := (List.range p.conns.length).filter p.isCounted
  { p with
    conns := p.conns.map start
    activeConns := p.activeConns ++ active
    nActiveConn := (p.nActiveConn + active.length) % 2 ^ 32 }

/-- `ConnectionPool::dispatchStorage`. -/
def dispatchStorage (op : OpCode) (exptime : Int64) (noreply : Bool)
    (items : List (StorageItem × Routed)) (p : ConnectionPool) : ConnectionPool :=
  (p.dispatchItems (·.key) (Connection.takeStorage op exptime noreply) items).activate
    Connection.startCounting

/-- `ConnectionPool::dispatchRetrieval`. -/
def dispatchRetrieval (op : OpCode) (keys : List (Bytes × Routed)) (p : ConnectionPool) :
    ConnectionPool :=
  (p.dispatchItems id (Connection.takeRetrieval op) keys).activate Connection.startRetrieval

/-- `ConnectionPool::dispatchDeletion`. -/
def dispatchDeletion (noreply : Bool) (keys : List (Bytes × Routed)) (p : ConnectionPool) :
    ConnectionPool :=
  (p.dispatchItems id (Connection.takeDeletion noreply) keys).activate Connection.startCounting

/-- `ConnectionPool::dispatchTouch`. -/
def dispatchTouch (exptime : Int64) (noreply : Bool) (keys : List (Bytes × Routed))
    (p : ConnectionPool) : ConnectionPool :=
  (p.dispatchItems id (Connection.takeTouch exptime noreply) keys).activate Connection.startCounting

/-- `ConnectionPool::dispatchIncrDecr`, which has no loop at its end. -/
def dispatchIncrDecr (op : OpCode) (delta : UInt64) (noreply : Bool) (key : Bytes × Routed)
    (p : ConnectionPool) : ConnectionPool :=
  if !isValidKey key.1 then { p with nInvalidKey := incr32 p.nInvalidKey }
  else
    let p := p.getConn key.2
    match key.2.conn with
    | none => p
    | some i =>
      let p := p.modifyConn i (Connection.takeIncrDecr op delta noreply key.1)
      let p := p.modifyConn i fun c => (c.setParserMode .counting).expectReplies
      { p with
        nActiveConn := incr32 p.nActiveConn
        activeConns := p.activeConns ++ [i] }

/-- `ConnectionPool::broadcastCommand`. -/
def broadcastCommand (cmd : Bytes) (noreply : Bool) (answers : ℕ → Reconnect) (p : ConnectionPool) :
    ConnectionPool :=
  let conns := p.conns.mapIdx fun i c => c.takeBroadcast cmd noreply (answers i)
  let active := (List.range conns.length).filter fun i => conns[i]?.any (·.alive)
  { p with
    conns
    activeConns := p.activeConns ++ active
    nActiveConn := (p.nActiveConn + active.length) % 2 ^ 32 }

/-- `ConnectionPool::reset`. -/
def reset (p : ConnectionPool) : ConnectionPool :=
  { p.activeConns.foldl (fun p i => p.modifyConn i Connection.reset) p with
    nActiveConn := 0
    nInvalidKey := 0
    activeConns := [] }

/-! ### Changes of single connections -/

variable {p p' : ConnectionPool}

theorem modifyConn_conns (j : ℕ) (f : Connection → Connection) (p : ConnectionPool) (i : ℕ) :
    (p.modifyConn j f).conns[i]? = if j = i then p.conns[i]?.map f else p.conns[i]? := by
  show (p.conns.modify j f)[i]? = _
  rw [List.getElem?_modify]
  split_ifs <;> simp

/-- The lists and counters that the items of a command do not change. -/
structure SameActive (p p' : ConnectionPool) : Prop where
  activeConns : p'.activeConns = p.activeConns
  nActiveConn : p'.nActiveConn = p.nActiveConn
  length : p'.conns.length = p.conns.length

theorem SameActive.refl (p : ConnectionPool) : SameActive p p := ⟨rfl, rfl, rfl⟩

theorem SameActive.trans {p'' : ConnectionPool} (h : SameActive p p') (h' : SameActive p' p'') :
    SameActive p p'' := ⟨h'.1.trans h.1, h'.2.trans h.2, h'.3.trans h.3⟩

theorem sameActive_modifyConn (j : ℕ) (f : Connection → Connection) (p : ConnectionPool) :
    SameActive p (p.modifyConn j f) := ⟨rfl, rfl, List.length_modify _ _ _⟩

theorem sameActive_foldl {α : Type} (l : List α) (idx : α → ℕ) (f : α → Connection → Connection)
    (p : ConnectionPool) : SameActive p (l.foldl (fun p a => p.modifyConn (idx a) (f a)) p) := by
  induction l generalizing p with
  | nil => exact SameActive.refl p
  | cons a l ih => exact (sameActive_modifyConn (idx a) (f a) p).trans (ih _)

theorem foldl_modifyConn_conns {α : Type} (l : List α) (idx : α → ℕ)
    (f : α → Connection → Connection) (p : ConnectionPool) (i : ℕ) :
    (l.foldl (fun p a => p.modifyConn (idx a) (f a)) p).conns[i]? =
      p.conns[i]?.map fun c => (l.filter (idx · = i)).foldl (fun c a => f a c) c := by
  induction l generalizing p with
  | nil => simp
  | cons a l ih =>
    rw [List.foldl_cons, ih, modifyConn_conns, List.filter_cons]
    by_cases hi : idx a = i
    · rw [if_pos hi, if_pos (decide_eq_true hi), Option.map_map]
      rfl
    · rw [if_neg hi, if_neg (by simpa using hi)]

theorem conn_foldl_modifyConn {α : Type} {Q : Connection → Prop} {f : α → Connection → Connection}
    {i : ℕ} (idx : α → ℕ) (hf : ∀ a c, Q c → Q (f a c)) (l : List α)
    (h : ∃ c, p.conns[i]? = some c ∧ Q c) :
    ∃ c, (l.foldl (fun p a => p.modifyConn (idx a) (f a)) p).conns[i]? = some c ∧ Q c := by
  obtain ⟨c, hc, hQ⟩ := h
  rw [foldl_modifyConn_conns, hc]
  refine ⟨_, rfl, ?_⟩
  clear hc
  generalize l.filter (idx · = i) = changes
  induction changes generalizing c with
  | nil => exact hQ
  | cons a changes ih => exact ih _ (hf a c hQ)

end ConnectionPool

end Libmc
