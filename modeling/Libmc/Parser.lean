import Mathlib.Data.List.ModifyLast
import Libmc.ByteQueue
import Libmc.Support.Incremental

/-!
# The reply parser

`PacketParser` is the state machine over the replies of a server, as the release build runs it:
assertions are off and `EXPECT_BYTES` skips bytes without comparing them. A state is a computation
of `ParseM`, which reads the buffer and may stop with an error code; what was done before the
error stays done. `process_packets` is a loop that need not end.
-/

namespace Libmc

/-- `RetrievalResult`, with tokens `τ`. -/
structure RetrievalResult (τ : Type) where
  key : τ
  dataBlock : τ
  casUnique : ℕ := 0
  bytesRemain : ℕ := 1
  bytes : ℕ := 0
  flags : ℕ := 0
  keyLen : ℕ := 0
  deriving DecidableEq, Repr

/-- `message_result_t`; the key is `none` for `NULL`. -/
structure MessageResult where
  type_ : MessageResultType
  key : Option Bytes
  deriving DecidableEq, Repr

/-- `LineResult`. -/
structure LineResult (τ : Type) where
  line : τ
  lineLen : ℕ := 0
  deriving DecidableEq, Repr

/-- `unsigned_result_t`; the key is `none` until it is known. -/
structure UnsignedResult where
  key : Option Bytes := none
  value : ℕ := 0
  deriving DecidableEq, Repr

/-- `PacketParser`, over a reader `ρ`. `mt_kvPtr` is the last retrieval result wherever it is
used. `outOfRange` is raised when `m_requestKeys` is indexed past its end. -/
structure PacketParser (ρ τ : Type) where
  requestKeys : List Bytes := []
  bufferReader : ρ
  state : ParserState := .start
  mode : ParserMode := .undefined
  requestKeyIdx : ℕ := 0
  retrievalResults : List (RetrievalResult τ) := []
  messageResults : List MessageResult := []
  lineResults : List (LineResult τ) := []
  unsignedResults : List UnsignedResult := []
  outOfRange : Bool := false
  deriving DecidableEq, Repr

/-- A computation on the parser that may stop with an error code. -/
def ParseM (ρ τ α : Type) : Type := PacketParser ρ τ → Except ErrCode α × PacketParser ρ τ

namespace ParseM

variable {ρ τ α β : Type}

/-- `err = e; return;` -/
def stop (e : ErrCode) : ParseM ρ τ α := fun p => (.error e, p)

def assign (f : PacketParser ρ τ → PacketParser ρ τ) : ParseM ρ τ Unit := fun p => (.ok (), f p)

def bind (m : ParseM ρ τ α) (f : α → ParseM ρ τ β) : ParseM ρ τ β := fun p =>
  match m p with
  | (.ok a, p') => f a p'
  | (.error e, p') => (.error e, p')

instance : Monad (ParseM ρ τ) where
  pure a p := (.ok a, p)
  bind := bind

variable {p p' : PacketParser ρ τ} {a : α} {e : ErrCode} {m : ParseM ρ τ α} {f : α → ParseM ρ τ β}

theorem pure_apply : (pure a : ParseM ρ τ α) p = (.ok a, p) := rfl

theorem bind_ok (h : m p = (.ok a, p')) : (m >>= f) p = f a p' := by
  show bind m f p = _
  simp only [bind, h]

theorem bind_error (h : m p = (.error e, p')) : (m >>= f) p = (.error e, p') := by
  show bind m f p = _
  simp only [bind, h]

@[simp] theorem assign_bind (g : PacketParser ρ τ → PacketParser ρ τ) (f : Unit → ParseM ρ τ β) :
    (assign g >>= f) p = f () (g p) := rfl

@[simp] theorem assign_apply (g : PacketParser ρ τ → PacketParser ρ τ) :
    assign g p = (.ok (), g p) := rfl

@[simp] theorem stop_apply : (stop e : ParseM ρ τ α) p = (.error e, p) := rfl

end ParseM

namespace PacketParser

variable {ρ τ : Type} [ByteReader ρ τ]

open ParseM

/-! ### The reader's calls, with the return on error after each -/

/-- The outcome of a call of the reader: `err` is returned at once unless it is `RET_OK`. -/
def check {α : Type} (e : ErrCode) (a : α) : Except ErrCode α := if e = .ok then .ok a else .error e

def peek (offset : ℕ) : ParseM ρ τ UInt8 := fun p =>
  let (e, c) := ByteReader.peek p.bufferReader offset
  (check e c, p)

/-- The size of the token, and the token. -/
def readUntil (value : UInt8) : ParseM ρ τ (ℕ × τ) := fun p =>
  let (e, n, td, r) := ByteReader.readUntil p.bufferReader value
  (check e (n, td), { p with bufferReader := r })

def skipUntil (value : UInt8) : ParseM ρ τ Unit := fun p =>
  let (e, _, r) := ByteReader.skipUntil p.bufferReader value
  (check e (), { p with bufferReader := r })

/-- `READ_UNSIGNED`. -/
def readUnsigned : ParseM ρ τ ℕ := fun p =>
  let (e, v, r) := ByteReader.readUnsigned p.bufferReader
  (check e v, { p with bufferReader := r })

def readBytes (len : ℕ) : ParseM ρ τ τ := fun p =>
  let (e, td, r) := ByteReader.readBytes p.bufferReader len
  (check e td, { p with bufferReader := r })

/-- `SKIP_BYTES` and the release form of `EXPECT_BYTES`. -/
def skipBytes (len : ℕ) : ParseM ρ τ Unit := fun p =>
  let (e, r) := ByteReader.skipBytes p.bufferReader len
  (check e (), { p with bufferReader := r })

/-! ### Assignments -/

def setState (st : ParserState) (p : PacketParser ρ τ) : PacketParser ρ τ := { p with state := st }

/-- An assignment through `mt_kvPtr`. -/
def modifyKv (f : RetrievalResult τ → RetrievalResult τ) (p : PacketParser ρ τ) : PacketParser ρ τ :=
  { p with retrievalResults := p.retrievalResults.modifyLast f }

def modifyLine (f : LineResult τ → LineResult τ) (p : PacketParser ρ τ) : PacketParser ρ τ :=
  { p with lineResults := p.lineResults.modifyLast f }

def modifyUnsigned (f : UnsignedResult → UnsignedResult) (p : PacketParser ρ τ) : PacketParser ρ τ :=
  { p with unsignedResults := p.unsignedResults.modifyLast f }

/-- `*mt_kvPtr`. There is always one where it is used; otherwise this is a finished result. -/
def kv (p : PacketParser ρ τ) : RetrievalResult τ :=
  p.retrievalResults.getLast?.getD ⟨ByteReader.noToken ρ, ByteReader.noToken ρ, 0, 0, 0, 0, 0⟩

def pushRetrieval (p : PacketParser ρ τ) : PacketParser ρ τ :=
  { p with retrievalResults :=
      p.retrievalResults ++ [{ key := ByteReader.noToken ρ, dataBlock := ByteReader.noToken ρ }] }

def pushLine (p : PacketParser ρ τ) : PacketParser ρ τ :=
  { p with lineResults := p.lineResults ++ [{ line := ByteReader.noToken ρ }] }

def pushUnsigned (p : PacketParser ρ τ) : PacketParser ρ τ :=
  { p with unsignedResults := p.unsignedResults ++ [{}] }

/-- `m_requestKeys[m_requestKeyIdx]`. -/
def requestKey (p : PacketParser ρ τ) : Bytes := p.requestKeys[p.requestKeyIdx]?.getD []

/-- Whether `m_requestKeyIdx` has left the list. -/
def pastKeys (p : PacketParser ρ τ) : Bool := p.requestKeys.length ≤ p.requestKeyIdx

/-- `PacketParser::processMessageResult`. -/
def processMessageResult (tp : MessageResultType) (p : PacketParser ρ τ) : PacketParser ρ τ :=
  if tp = .ok then { p with messageResults := p.messageResults ++ [⟨tp, none⟩] }
  else
    { p with
      messageResults := p.messageResults ++ [⟨tp, some p.requestKey⟩]
      outOfRange := p.outOfRange || p.pastKeys
      requestKeyIdx := p.requestKeyIdx + 1 }

section

omit [ByteReader ρ τ]

variable (tp : MessageResultType) (p : PacketParser ρ τ)

@[simp] theorem processMessageResult_bufferReader :
    (processMessageResult tp p).bufferReader = p.bufferReader := by
  unfold processMessageResult
  split_ifs <;> rfl

@[simp] theorem processMessageResult_state : (processMessageResult tp p).state = p.state := by
  unfold processMessageResult
  split_ifs <;> rfl

@[simp] theorem processMessageResult_mode : (processMessageResult tp p).mode = p.mode := by
  unfold processMessageResult
  split_ifs <;> rfl

@[simp] theorem processMessageResult_requestKeys :
    (processMessageResult tp p).requestKeys = p.requestKeys := by
  unfold processMessageResult
  split_ifs <;> rfl

@[simp] theorem processMessageResult_requestKeyIdx :
    (processMessageResult tp p).requestKeyIdx =
      if tp = .ok then p.requestKeyIdx else p.requestKeyIdx + 1 := by
  unfold processMessageResult
  split_ifs <;> rfl

variable {tp} in
theorem processMessageResult_messageResults (h : tp ≠ .ok) :
    (processMessageResult tp p).messageResults = p.messageResults ++ [⟨tp, some p.requestKey⟩] := by
  unfold processMessageResult
  rw [if_neg h]

end

/-- `PacketParser::processLineResult`. -/
def processLineResult : ParseM ρ τ Unit := do
  assign (modifyLine fun inner => { inner with line := ByteReader.noToken ρ, lineLen := 0 })
  let line ← readUntil lf
  assign (modifyLine fun inner => { inner with line := line.2, lineLen := line.1 })
  skipBytes 1

/-! ### The states -/

/-- A line that says nothing but that the request failed. -/
def errorLine (e : ErrCode) : ParseM ρ τ Unit := do
  let errTd ← readUntil lf
  skipBytes 1
  assign fun p => { p with bufferReader := ByteReader.freeTokenData p.bufferReader errTd.2 }
  assign (setState .error)
  stop e

/-- A reply that is one fixed word. -/
def message (len : ℕ) (tp : MessageResultType) : ParseM ρ τ Unit := do
  skipBytes len
  assign (processMessageResult tp)

/-- `case 'V'`. -/
def startV : ParseM ρ τ Unit := do
  let c2 ← peek 1
  if c2 = 65 then -- VALUE
    skipBytes 6
    assign pushRetrieval
    assign (setState .getStart)
  else if c2 = 69 then -- VERSION
    skipBytes 8
    assign pushLine
    assign (setState .verStart)
  else pure ()

/-- `case 'E'`. -/
def startE : ParseM ρ τ Unit := do
  let c2 ← peek 1
  if c2 = 82 then errorLine .programmingErr -- ERROR
  else if c2 = 78 then -- END
    skipBytes 5
    assign (setState .end_)
  else if c2 = 88 then message 8 .exists_ -- EXISTS
  else pure ()

/-- `case 'O'`. -/
def startO : ParseM ρ τ Unit := do
  message 4 .ok
  assign (setState .end_)

/-- `case 'S'`. -/
def startS : ParseM ρ τ Unit := do
  let c3 ← peek 2
  let c2 ← peek 1
  if c2 = 84 then
    if c3 = 79 then message 8 .stored -- STORED
    else -- STAT
      skipBytes 5
      assign pushLine
      assign (setState .statStart)
  else errorLine .mcServerErr -- SERVER_ERROR

/-- `case 'N'`. -/
def startN : ParseM ρ τ Unit := do
  let c5 ← peek 4
  if c5 = 70 then message 11 .notFound -- NOT_FOUND
  else if c5 = 83 then message 12 .notStored -- NOT_STORED
  else pure ()

/-- `case '0'` to `case '9'`. -/
def startDigit : ParseM ρ τ Unit := do
  assign pushUnsigned
  assign (setState .incrDecrStart)

/-- The `switch` of `start_state`. -/
def startCase (c1 : UInt8) : ParseM ρ τ Unit :=
  if c1 = 86 then startV
  else if c1 = 69 then startE
  else if c1 = 79 then startO
  else if c1 = 83 then startS
  else if c1 = 68 then message 9 .deleted -- D
  else if c1 = 78 then startN
  else if c1 = 84 then message 9 .touched -- T
  else if c1 = 67 then errorLine .programmingErr -- CLIENT_ERROR
  else if isDigit c1 then startDigit
  else stop .programmingErr

/-- `PacketParser::start_state`. Three of the inner tests have branches that do nothing. -/
def startState : ParseM ρ τ Unit := do
  let c1 ← peek 0
  startCase c1

/-- `FSM_GET_START`. -/
def getStart : ParseM ρ τ Unit := do
  assign (modifyKv fun kv => { kv with key := ByteReader.noToken ρ, keyLen := 0 })
  let key ← readUntil space
  assign (modifyKv fun kv => { kv with key := key.2, keyLen := key.1 % 2 ^ 8 })
  skipBytes 1
  assign (setState .getKey)

/-- `FSM_GET_KEY`. -/
def getKey : ParseM ρ τ Unit := do
  let flags ← readUnsigned
  assign (modifyKv fun kv => { kv with flags := flags % 2 ^ 32 })
  skipBytes 1
  assign (setState .getFlags)

/-- `FSM_GET_FLAGS`. -/
def getFlags : ParseM ρ τ Unit := do
  let bytes ← readUnsigned
  assign (modifyKv fun kv =>
    { kv with bytes := bytes % 2 ^ 32, bytesRemain := (bytes % 2 ^ 32 + 1) % 2 ^ 32 })
  skipBytes 1
  assign (setState .getBytes)

/-- The number after the size, if the line goes on. -/
def readCasUnique : ParseM ρ τ Unit := do
  let c ← peek 0
  if c = lf then assign (modifyKv fun kv => { kv with casUnique := 0 }) -- get
  else -- gets
    assign (modifyKv fun kv => { kv with casUnique := 0 })
    let casUnique ← readUnsigned
    assign (modifyKv fun kv => { kv with casUnique := casUnique })
    skipBytes 1

/-- `FSM_GET_BYTES`. -/
def getBytes : ParseM ρ τ Unit := do
  readCasUnique
  assign (setState .getCas)

/-- `FSM_GET_CAS`. -/
def getCas : ParseM ρ τ Unit := do
  skipBytes 1
  assign (modifyKv fun kv => { kv with bytesRemain := (kv.bytesRemain + (2 ^ 32 - 1)) % 2 ^ 32 })
  assign (setState .getValueRemaining)

/-- The wish for a block that holds the rest of the value. -/
def wishForBlock (p : PacketParser ρ τ) : PacketParser ρ τ :=
  let want := (p.kv.bytes + 2) % 2 ^ 32
  if ByteReader.readLeft p.bufferReader < want then
    { p with
      bufferReader := ByteReader.setNextPreferedDataBlockSize p.bufferReader
        (want - ByteReader.readLeft p.bufferReader) }
  else p

/-- The data block, unless it was read before. -/
def readDataBlock : ParseM ρ τ Unit := fun p =>
  if 0 < p.kv.bytesRemain then
    (do
      assign (modifyKv fun kv => { kv with dataBlock := ByteReader.noToken ρ })
      assign wishForBlock
      let dataBlock ← readBytes p.kv.bytes
      assign (modifyKv fun kv => { kv with dataBlock := dataBlock, bytesRemain := 0 }) :
        ParseM ρ τ Unit) p
  else (.ok (), p)

/-- `FSM_GET_VALUE_REMAINING`. -/
def getValueRemaining : ParseM ρ τ Unit := do
  readDataBlock
  skipBytes 2
  assign (setState .start)

/-- `FSM_INCR_DECR_START`. -/
def incrDecrStart : ParseM ρ τ Unit := do
  assign (modifyUnsigned fun inner => { inner with value := 0 })
  let value ← readUnsigned
  assign (modifyUnsigned fun inner => { inner with value := value })
  skipBytes 1
  assign fun p =>
    { modifyUnsigned (fun inner => { inner with key := some p.requestKey }) p with
      outOfRange := p.outOfRange || p.pastKeys }
  assign (setState .incrDecrRemaining)

/-- `FSM_INCR_DECR_REMAINING`. -/
def incrDecrRemaining : ParseM ρ τ Unit := do
  skipUntil lf
  skipBytes 1
  assign fun p => { p with requestKeyIdx := p.requestKeyIdx + 1 }
  assign (setState .start)

/-- `FSM_VER_START`. -/
def verStart : ParseM ρ τ Unit := do
  processLineResult
  assign (setState .end_)

/-- `FSM_STAT_START`. -/
def statStart : ParseM ρ τ Unit := do
  processLineResult
  assign (setState .start)

/-- The `switch` on a state. -/
def stateAction : ParserState → ParseM ρ τ Unit
  | .start => startState
  | .getStart => getStart
  | .getKey => getKey
  | .getFlags => getFlags
  | .getBytes => getBytes
  | .getCas => getCas
  | .getValueRemaining => getValueRemaining
  | .incrDecrStart => incrDecrStart
  | .incrDecrRemaining => incrDecrRemaining
  | .verStart => verStart
  | .statStart => statStart
  | .end_ => pure ()
  | .error => pure ()

/-! ### The loop -/

/-- `PacketParser::canEndParse`. -/
def canEndParse (p : PacketParser ρ τ) : Bool :=
  if p.mode = .endState then p.state.isEndState else p.requestKeyIdx = p.requestKeys.length

/-- What `process_packets` does before its loop. -/
def enter (p : PacketParser ρ τ) : PacketParser ρ τ :=
  if p.state.isEndState then p.setState .start else p

/-- The loop goes on after a state without an error, and is left with an error. -/
def goOn : Except ErrCode Unit × PacketParser ρ τ → PacketParser ρ τ ⊕ ErrCode × PacketParser ρ τ
  | (.ok (), p) => .inl p
  | (.error e, p) => .inr (e, p)

/-- One round of the loop of `process_packets`. -/
def body (p : PacketParser ρ τ) : PacketParser ρ τ ⊕ ErrCode × PacketParser ρ τ :=
  if p.canEndParse then .inr (.ok, p) else goOn (stateAction p.state p)

/-- `PacketParser::process_packets` returns with this code, and leaves the parser like this. -/
def Returns (p : PacketParser ρ τ) (r : ErrCode × PacketParser ρ τ) : Prop :=
  Loop.Returns body p.enter r

/-- `PacketParser::reset`. -/
def reset (p : PacketParser ρ τ) : PacketParser ρ τ :=
  { p with
    requestKeys := []
    retrievalResults := []
    messageResults := []
    lineResults := []
    unsignedResults := []
    state := .start
    mode := .undefined
    requestKeyIdx := 0 }

/-- `PacketParser::rewind`. -/
def rewind (p : PacketParser ρ τ) : PacketParser ρ τ :=
  { p with
    retrievalResults := []
    messageResults := []
    lineResults := []
    unsignedResults := []
    state := .start
    requestKeyIdx := 0 }

end PacketParser

end Libmc
