import Libmc.WaitPoll

/-!
# Commands of the client

A method of `Client` dispatches a command, polls until it is done and collects the results, which
leaves the pool as it is; the caller then destroys the results, which resets the pool. `Reachable`
are the states of the pool between commands.
-/

namespace Libmc

/-- The commands of `dispatchStorage`. -/
abbrev StorageOp := { op : OpCode // op ∈ [.set, .add, .replace, .append, .prepend, .cas] }

/-- The commands of `dispatchRetrieval`. -/
abbrev RetrievalOp := { op : OpCode // op ∈ [.get, .gets] }

/-- The commands of `dispatchIncrDecr`. -/
abbrev IncrDecrOp := { op : OpCode // op ∈ [.incr, .decr] }

/-- The commands of `broadcastCommand`. -/
abbrev BroadcastOp := { op : OpCode // op ∈ [.stats, .flushall, .version, .quit] }

/-- A call of a method of `Client`, with the routing of each key. -/
inductive Request
  | storage (op : StorageOp) (exptime : Int64) (noreply : Bool) (items : List (StorageItem × Routed))
  | retrieval (op : RetrievalOp) (keys : List (Bytes × Routed))
  | deletion (noreply : Bool) (keys : List (Bytes × Routed))
  | touch (exptime : Int64) (noreply : Bool) (keys : List (Bytes × Routed))
  | incrDecr (op : IncrDecrOp) (delta : UInt64) (noreply : Bool) (key : Bytes × Routed)
  | broadcast (op : BroadcastOp) (answers : ℕ → Reconnect)

namespace Request

/-- The first part of a command. Only `quit` is broadcast with `noreply`. -/
def dispatch (req : Request) (p : ConnectionPool) : ConnectionPool :=
  match req with
  | storage op exptime noreply items => p.dispatchStorage op exptime noreply items
  | retrieval op keys => p.dispatchRetrieval op keys
  | deletion noreply keys => p.dispatchDeletion noreply keys
  | touch exptime noreply keys => p.dispatchTouch exptime noreply keys
  | incrDecr op delta noreply key => p.dispatchIncrDecr op delta noreply key
  | broadcast op answers => p.broadcastCommand op.1.word (decide (op.1 = .quit)) answers

/-- What a command does after `waitPoll`: `Client::quit` marks all connections dead. -/
def finish (req : Request) (times : ℕ → ℤ) (p : ConnectionPool) : ConnectionPool :=
  match req with
  | broadcast op _ => if op.1 = .quit then p.markDeadAll none times else p
  | _ => p

/-! ### What a connection is given -/

/-- The items whose key is valid and for which `getConn` has returned this connection. -/
def itemsFor {ι : Type} (key : ι → Bytes) (i : ℕ) (items : List (ι × Routed)) : List ι :=
  (items.filter fun item => isValidKey (key item.1) && item.2.conn = some i).map (·.1)

/-- An item as a command. -/
def storageCommand (op : OpCode) (exptime : Int64) (noreply : Bool) (item : StorageItem) : Command :=
  .storage op item.key item.flags.toNat exptime.toInt
    (if op = .cas then some item.casUnique.toInt64.toInt else none) item.val noreply

/-- The commands of a connection. -/
def commandsFor (p : ConnectionPool) (i : ℕ) : Request → List Command
  | storage op exptime noreply items =>
    (itemsFor (·.key) i items).map (storageCommand op exptime noreply)
  | retrieval op keys => if itemsFor id i keys = [] then [] else [.retrieval op (itemsFor id i keys)]
  | deletion noreply keys => (itemsFor id i keys).map (.delete · noreply)
  | touch exptime noreply keys => (itemsFor id i keys).map (.touch · exptime.toInt noreply)
  | incrDecr op delta noreply key =>
    (itemsFor id i [key]).map (.incrDecr op · delta.toInt64.toInt noreply)
  | broadcast op answers =>
    if p.conns[i]?.any fun c => (c.tryReconnect false (answers i)).alive then [.bare op] else []

/-- The keys of a connection that wait for replies. -/
def keysFor (i : ℕ) : Request → List Bytes
  | storage _ _ noreply items => if noreply then [] else (itemsFor (·.key) i items).map (·.key)
  | retrieval _ _ => []
  | deletion noreply keys => if noreply then [] else itemsFor id i keys
  | touch _ noreply keys => if noreply then [] else itemsFor id i keys
  | incrDecr _ _ noreply key => if noreply then [] else itemsFor id i [key]
  | broadcast _ _ => []

/-- `m_counter` of a connection that is given commands. -/
def counterFor (i : ℕ) : Request → ℕ
  | retrieval _ keys => (itemsFor id i keys).length
  | broadcast op _ => if op.1 = .quit then 0 else 1
  | req => (req.keysFor i).length

/-- The mode that a command sets. -/
def parserMode : Request → ParserMode
  | retrieval _ _ => .endState
  | broadcast _ _ => .endState
  | _ => .counting

end Request

/-! ### Runs of commands -/

namespace ConnectionPool

def init (n : ℕ) : ConnectionPool := { conns := List.replicate n {} }

/-- `setRetryTimeout` and `setMaxRetries`. -/
def config (retryTimeout maxRetries : ℤ) (p : ConnectionPool) : ConnectionPool :=
  { p with conns := p.conns.map fun c => { c with retryTimeout, maxRetries } }

end ConnectionPool

/-- What is asked of a run: of the dispatched state of each command, and of each step of a poll
loop. -/
structure Rules where
  request : ConnectionPool → Request → Prop := fun _ _ => True
  step : PollLoop → Event → PollLoop → Prop := fun _ _ _ => True

/-- The states of a pool between commands. -/
inductive Reachable (rules : Rules) : ConnectionPool → Prop
  | init (n : ℕ) : Reachable rules (.init n)
  | config {p : ConnectionPool} (h : Reachable rules p) (retryTimeout maxRetries : ℤ) :
      Reachable rules (p.config retryTimeout maxRetries)
  | command {p p' : ConnectionPool} {code : ErrCode} (h : Reachable rules p) (req : Request)
      (hreq : rules.request p req) (hwait : (req.dispatch p).WaitPoll rules.step code p')
      (times : ℕ → ℤ) : Reachable rules (req.finish times p').reset

end Libmc
