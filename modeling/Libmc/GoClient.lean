import Mathlib.Data.Finset.Basic
import Libmc.Support.Table
import Libmc.Parser

/-!
# Operations of golibmc

What an operation of golibmc does with what the client of libmc gives it: a code and results. An
operation takes a connection first and defers `putConn`, with the variable `err` at its end. A
`return` sets this variable only where it is a named result. Lengths are converted to a C `int`.
-/

namespace Libmc

/-- `errCodeToString`. -/
def errCodeToString : ErrCode → Bytes
  | .sendErr => ascii "send_error"
  | .recvErr => ascii "recv_error"
  | .connPollErr => ascii "conn_poll_error"
  | .pollTimeoutErr => ascii "poll_timeout_error"
  | .pollErr => ascii "poll_error"
  | .mcServerErr => ascii "server_error"
  | .programmingErr => ascii "programming_error"
  | .invalidKeyErr => ascii "invalid_key_error"
  | .incompleteBufferErr => ascii "incomplete_buffer_error"
  | .ok => ascii "ok"

namespace Golibmc

/-! ### Errors -/

/-- An `error`: a variable of the package, or a new one. -/
inductive Error
  | cacheMiss
  | casConflict
  | notStored
  | malformedKey
  | memcachedClosed
  | badConn
  | new (text : Bytes)
  deriving DecidableEq, Repr

/-- `Error()`. -/
def Error.text : Error → Bytes
  | cacheMiss => ascii "libmc: cache miss"
  | casConflict => ascii "libmc: compare-and-swap conflict"
  | notStored => ascii "libmc: item not stored"
  | malformedKey => ascii "malformed: key is too long or contains invalid characters"
  | memcachedClosed => ascii "memcached is closed"
  | badConn => ascii "bad conn"
  | new text => text

/-- `networkError(errorMessage(err))`. -/
def networkError (err : ErrCode) : Error :=
  .new (ascii "libmc: network error(" ++ errCodeToString err ++ ascii ")")

/-- `badConnErrors`. -/
def badConnErrors : List Error :=
  [networkError .mcServerErr, networkError .sendErr, networkError .connPollErr, networkError .recvErr]

/-- `isBadConnErr`; `none` is `nil`. -/
def isBadConnErr : Option Error → Bool
  | none => false
  | some err => err = .badConn || badConnErrors.any fun be => err.text = be.text

/-- How an operation ends that has got a connection: with what it returns, or nothing if it panics,
and with the `err` that `putConn` is given. -/
structure Ended (α : Type) where
  returned : Option (α × Option Error)
  deferred : Option Error

/-- A `return` of a function whose results have names. -/
def Ended.named {α : Type} (a : α) (err : Option Error) : Ended α := ⟨some (a, err), err⟩

/-- A `return` of a function whose results have no names: `err` is still the `nil` of `conn`. -/
def Ended.unnamed {α : Type} (a : α) (err : Option Error) : Ended α := ⟨some (a, err), none⟩

def Ended.panicked {α : Type} (err : Option Error) : Ended α := ⟨none, err⟩

/-! ### Strings -/

/-- `C.GoStringN` and `C.GoBytes`, of bytes and their length; none for a negative `int`. -/
def goStringN (s : Bytes) : Option Bytes :=
  if cInt s.length < 0 then none else some (s.take (cInt s.length).toNat)

theorem goStringN_of_lt {s : Bytes} (h : s.length < 2 ^ 31) : goStringN s = some s := by
  unfold goStringN
  rw [cInt_of_lt h, if_neg (by omega), Int.toNat_natCast, List.take_length]

/-- A string that is made of bytes is the first of them, and shorter than `2 ^ 31`. -/
theorem goStringN_eq_some {s t : Bytes} (h : goStringN s = some t) : t <+: s ∧ t.length < 2 ^ 31 := by
  unfold goStringN at h
  split_ifs at h with hneg
  obtain rfl := Option.some.inj h
  have hlt : (cInt s.length).toNat < 2 ^ 31 := by
    unfold cInt Int.bmod
    dsimp only
    split_ifs <;> omega
  exact ⟨List.take_prefix _ _, (List.length_take_le _ _).trans_lt hlt⟩

theorem goStringN_eq_self_iff {s : Bytes} : goStringN s = some s ↔ s.length < 2 ^ 31 :=
  ⟨fun h => (goStringN_eq_some h).2, goStringN_of_lt⟩

/-- `?`. -/
def question : UInt8 := 63

/-- `strings.Replace(s, old, "", 1)`, for `old` that is not empty. -/
def removeFirst (old : Bytes) : Bytes → Bytes
  | [] => []
  | c :: s => if old <+: c :: s then (c :: s).drop old.length else c :: removeFirst old s

/-- The fields of `Client` that operations use. -/
structure Settings where
  keyPrefix : Bytes := []
  noreply : Bool := false
  deriving DecidableEq, Repr

namespace Settings

variable (cl : Settings)

/-- `removePrefix`. -/
def removePrefix (key : Bytes) : Bytes :=
  if cl.keyPrefix = [] then key
  else if key.head? = some question then question :: removeFirst cl.keyPrefix key.tail
  else removeFirst cl.keyPrefix key

/-- `addPrefix`. -/
def addPrefix (key : Bytes) : Bytes :=
  if cl.keyPrefix = [] then key
  else if key.head? = some question then question :: cl.keyPrefix ++ key.tail
  else cl.keyPrefix ++ key

/-- The keys of an operation with several keys. -/
def rawKeys (keys : List Bytes) : List Bytes :=
  if cl.keyPrefix = [] then keys else keys.map cl.addPrefix

/-! ### Single keys -/

/-- The error of an operation with one key that is answered by a message. -/
def messageError (answer : MessageResultType → Option (Option Error)) (errCode : ErrCode)
    (results : List MessageResult) : Option Error :=
  if errCode = .ok then
    if cl.noreply then none
    else
      match results with
      | [rst] => (answer rst.type_).getD (some (networkError errCode))
      | _ => some (networkError errCode)
  else if errCode = .invalidKeyErr then some .malformedKey
  else some (networkError errCode)

/-- `store`, for `Set`, `Add`, `Replace`, `Append`, `Prepend` and `Cas`. -/
def store (errCode : ErrCode) (results : List MessageResult) : Ended Unit :=
  .unnamed () <| cl.messageError (fun
    | .stored => some none
    | .notStored => some (some .notStored)
    | .exists_ => some (some .casConflict)
    | .notFound => some (some .cacheMiss)
    | _ => none) errCode results

/-- `Delete`. -/
def delete (errCode : ErrCode) (results : List MessageResult) : Ended Unit :=
  .unnamed () <| cl.messageError (fun
    | .deleted => some none
    | .notFound => some (some .cacheMiss)
    | _ => none) errCode results

/-- `Touch`. -/
def touch (errCode : ErrCode) (results : List MessageResult) : Ended Unit :=
  .unnamed () <| cl.messageError (fun
    | .touched => some none
    | .notFound => some (some .cacheMiss)
    | _ => none) errCode results

/-- `incrOrDecr`; a result is `none` for `NULL`. -/
def incrOrDecr (errCode : ErrCode) (results : List (Option ℕ)) : Ended ℕ :=
  if errCode = .ok then
    if cl.noreply then .unnamed 0 none
    else
      match results with
      | [none] => .unnamed 0 (some .cacheMiss)
      | [some value] => .unnamed value none
      | _ => .unnamed 0 (some (networkError errCode))
  else if errCode = .invalidKeyErr then .unnamed 0 (some .malformedKey)
  else .unnamed 0 (some (networkError errCode))

end Settings

/-- `retrieval_result_t`, with the bytes that its pointers and lengths give. The lengths are a
`uint8_t` and a `uint32_t`. -/
structure Retrieved where
  key : Bytes
  dataBlock : Bytes
  casUnique : UInt64
  flags : UInt32
  key_lt : key.length < 2 ^ 8
  dataBlock_lt : dataBlock.length < 2 ^ 32
  deriving DecidableEq

/-- `Item`, as it is returned. -/
structure Item where
  key : Bytes
  value : Bytes
  flags : UInt32
  casid : UInt64 := 0
  deriving DecidableEq, Repr

def codeError (errCode : ErrCode) : Error :=
  if errCode = .invalidKeyErr then .malformedKey else networkError errCode

/-- `getOrGets` with a result. -/
def getOrGetsItem (gets : Bool) (key : Bytes) (rst : Retrieved) : Ended (Option Item) :=
  ((goStringN rst.dataBlock).map fun value =>
    .named (some ⟨key, value, rst.flags, if gets then rst.casUnique else 0⟩) none).getD
      (.panicked none)

/-- `getOrGets`. -/
def getOrGets (gets : Bool) (key : Bytes) (errCode : ErrCode) (results : List Retrieved) :
    Ended (Option Item) :=
  if errCode ≠ .ok then .named none (some (codeError errCode))
  else (results.head?.map (getOrGetsItem gets key)).getD (.named none (some .cacheMiss))

/-! ### Several keys -/

/-- The keys of the results of some types. -/
def keySet (types : MessageResultType → Bool) (results : List MessageResult) :
    Option (Finset Bytes) :=
  results.foldlM (fun keys rst =>
    if types rst.type_ then (goStringN (rst.key.getD [])).map (insert · keys) else some keys) ∅

/-- The loop that fills `failedKeys`, from index `i` on; none if the index is out of range. -/
def fillFailed (removePrefix : Bytes → Bytes) (done : Finset Bytes) :
    List Bytes → ℕ → List Bytes → Option (List Bytes)
  | failedKeys, _, [] => some failedKeys
  | failedKeys, i, key :: keys =>
    if key ∈ done then fillFailed removePrefix done failedKeys i keys
    else if i < failedKeys.length then
      fillFailed removePrefix done (failedKeys.set i (removePrefix key)) (i + 1) keys
    else none

/-- `failedKeys`: it is made for the keys that are not done; none if its length is negative. -/
def failedKeys (removePrefix : Bytes → Bytes) (done : Finset Bytes) (keys : List Bytes) :
    Option (List Bytes) :=
  if keys.length < done.card then none
  else fillFailed removePrefix done (List.replicate (keys.length - done.card) []) 0 keys

/-- The end of `SetMulti` and of `DeleteMulti` after an error: what is done is left out. -/
def reportFailed (removePrefix : Bytes → Bytes) (types : MessageResultType → Bool)
    (results : List MessageResult) (keys : List Bytes) (err : Error) : Ended (List Bytes) :=
  match (keySet types results).bind fun done => failedKeys removePrefix done keys with
  | some failed => .named failed (some err)
  | none => .panicked (some err)

namespace Settings

variable (cl : Settings)

/-- `SetMulti`, of the keys of the items. There is at least one: `items[0]` panics before there is a
connection. -/
def setMulti (keys : List Bytes) (errCode : ErrCode) (results : List MessageResult) :
    Ended (List Bytes) :=
  if errCode = .ok then .named [] none
  else reportFailed cl.removePrefix (· = .stored) results keys (codeError errCode)

/-- `DeleteMulti`, of at least one key. -/
def deleteMulti (keys : List Bytes) (errCode : ErrCode) (results : List MessageResult) :
    Ended (List Bytes) :=
  if errCode = .ok then .named [] none
  else if cl.noreply then .named keys (some (codeError errCode))
  else reportFailed cl.removePrefix (· = .deleted) results (cl.rawKeys keys) (networkError errCode)

/-- A step of the loop of `GetMulti`. -/
def getItem (rst : Retrieved) : Option (Bytes × Item) := do
  let rawKey ← goStringN rst.key
  let value ← goStringN rst.dataBlock
  let key := cl.removePrefix rawKey
  return (key, ⟨key, value, rst.flags, 0⟩)

/-- `GetMulti`, of at least one key. -/
def getMulti (keys : List Bytes) (errCode : ErrCode) (results : List Retrieved) :
    Ended (Bytes → Option Item) :=
  let err :=
    if errCode ≠ .ok then some (codeError errCode)
    else if keys.length ≠ results.length then some .cacheMiss
    else none
  match Table.fill cl.getItem (fun _ => none) results with
  | some rv => .named rv err
  | none => .panicked err

end Settings

/-! ### All servers -/

/-- `broadcast_result_t`. Without lines its pointers are `nil`. -/
structure BroadcastResult where
  host : Bytes
  lines : List Bytes := []
  msgType : MessageResultType := .libmcInvalid
  deriving DecidableEq, Repr

/-- What a connection gives to a broadcast: its name, its line results, without the `\r` at their
ends, and the types of its message results. -/
structure BroadcastConn where
  name : Bytes
  lineResults : List Bytes := []
  messageResults : List MessageResultType := []
  deriving DecidableEq, Repr

/-- `ConnectionPool::collectBroadcastResult`. -/
def collectBroadcastResult (isFlushAll : Bool) (conns : List BroadcastConn) : List BroadcastResult :=
  conns.map fun conn =>
    if isFlushAll then
      { host := conn.name
        msgType := match conn.messageResults with
          | [type_] => type_
          | _ => .libmcInvalid }
    else { host := conn.name, lines := conn.lineResults }

def broadcastError (errCode : ErrCode) : Option Error :=
  if errCode = .ok then none else some (networkError errCode)

/-- The loop of `Version` and of `Stats`, with what they make of the lines of a server; `rst` points to
the first of the results given. None for a pointer behind them. -/
def broadcastLoop {β : Type} (read : List Bytes → Option β) :
    ℕ → List BroadcastResult → (Bytes → Option β) → Option (Bytes → Option β)
  | 0, _, rv => some rv
  | _ + 1, [], _ => none
  | n + 1, rst :: rest, rv =>
    -- `continue` leaves `rst` as it is
    if rst.lines = [] then broadcastLoop read n (rst :: rest) rv
    else (read rst.lines).bind fun x =>
      broadcastLoop read n rest (Function.update rv rst.host (some x))

/-- The end of `Version` and of `Stats`. -/
def broadcastEnded {β : Type} (errCode : ErrCode) : Option (Bytes → Option β) →
    Ended (Bytes → Option β)
  | some rv => .unnamed rv (broadcastError errCode)
  | none => .panicked none

/-- What `Version` reads: the first line. -/
def firstLine (lines : List Bytes) : Option Bytes := lines.head?.bind goStringN

/-- `Version`. -/
def version (errCode : ErrCode) (results : List BroadcastResult) :
    Ended (Bytes → Option Bytes) :=
  broadcastEnded errCode (broadcastLoop firstLine results.length results fun _ => none)

/-- `strings.SplitN(s, " ", 2)`; `kv[1]` is none if there is no space. -/
def splitN (s : Bytes) : Bytes × Option Bytes :=
  (s.takeWhile (· != space), (s.dropWhile (· != space)).tail?)

def metric (line : Bytes) : Option (Bytes × Bytes) := do
  let kv := splitN (← goStringN line)
  return (kv.1, ← kv.2)

/-- What `Stats` reads: the metrics of all lines. -/
def metrics (lines : List Bytes) : Option (Bytes → Option Bytes) :=
  Table.fill metric (fun _ => none) lines

/-- `Stats`. -/
def stats (errCode : ErrCode) (results : List BroadcastResult) :
    Ended (Bytes → Option (Bytes → Option Bytes)) :=
  broadcastEnded errCode (broadcastLoop metrics results.length results fun _ => none)

/-- `FlushAll`. -/
def flushAll (errCode : ErrCode) (results : List BroadcastResult) : Ended (List Bytes) :=
  let flushedHosts := (results.filter (·.msgType = .ok)).map (·.host)
  .unnamed flushedHosts <|
    if errCode = .programmingErr then
      some (.new (ascii "client.ToggleFlushAllFeature(true) to enable flush_all"))
    else broadcastError errCode

end Golibmc

end Libmc
