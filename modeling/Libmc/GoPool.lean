import Libmc.Common
import Libmc.Support.Processes
import Libmc.Support.Run

/-!
# The pool of golibmc

A `Client` of golibmc keeps connections for its callers. Callers, the connection opener, the
connection cleaner and `Quit` are goroutines; where one is between two sections under `client.lk` is
a `Goroutine`. A section is one step, and so is a channel operation and `conn.quit` before its
section. What the clock, the contexts, the results of operations and the codes of `client_quit` are
is left open.
-/

namespace Libmc.Golibmc

/-- `conn`, without `_imp`. `lowered` records that its `quit` has lowered `numOpen`; the code does
not read it. -/
structure Conn where
  createdAt : ℤ
  closed : Bool := false
  lowered : Bool := false
  deriving DecidableEq, Repr

/-- `conn.expired`. -/
def Conn.expired (timeout now : ℤ) (cn : Conn) : Bool := 0 < timeout && cn.createdAt + timeout < now

/-- The channel of a `connRequest`, which has room for one. No error is ever sent. -/
inductive RequestChan
  | empty
  | full (cn : ℕ)
  | closed
  deriving DecidableEq, Repr

/-- The pool of a `Client`. A connection is its index in `conns`, and `requests` has a channel for
every key of `connRequests` there has been, so its length is `nextRequest`. `openerCh` is the number
of its elements. -/
structure Client where
  conns : List Conn := []
  requests : List RequestChan := []
  freeConns : List ℕ := []
  connRequests : List ℕ := []
  numOpen : ℤ := 0
  openerCh : ℕ := 0
  maxLifetime : ℤ := 0
  maxOpen : ℤ := 1
  cleanerCh : Bool := false
  closed : Bool := false
  deriving DecidableEq, Repr

/-- What a goroutine does after `conn.quit`. -/
inductive Next
  | done
  -- `conn` after `ErrBadConn`
  | retry
  | opener
  -- the loop of the cleaner over `closing`, and the loop of `Quit` over `freeConns`
  | closing (rest : List ℕ)
  | quitAll (rest : List ℕ)
  deriving DecidableEq, Repr

inductive Goroutine
  | done
  -- `_conn`: before its section, with a free connection, in `newConn`; the opener can be after an
  -- error of `newConn` too
  | conn (useFreeConn : Bool)
  | taken (cn : ℕ) (lifetime : ℤ)
  | creating
  | createFailed (opener : Bool)
  -- in `select` on a request, after the context is done, after its section
  | waiting (reqKey : ℕ)
  | cancelled (reqKey : ℕ)
  | drain (reqKey : ℕ)
  -- with a connection, and before the section of `putConn` or of the opener
  | holding (cn : ℕ)
  | putting (cn : ℕ) (bad opener : Bool)
  -- the opener: at `openerCh`, after it, before its section if the client is closed, in `newConn`
  | opener
  | opening
  | openClosed
  | openCreating
  | cleaner
  -- `Quit`: before its sections, and before its loop
  | quitClient
  | quitRange
  | quitEnd
  -- `conn.quit`, and before its section
  | quit (cn : ℕ) (next : Next)
  | quitting (cn : ℕ) (errCode : ErrCode) (next : Next)
  deriving DecidableEq, Repr

/-- What comes after a connection is put back by the opener or by a caller. -/
def Next.ofOpener (opener : Bool) : Next := if opener then .opener else .done

/-- After `conn.quit`. -/
def Next.go : Next → Goroutine
  | done => .done
  | retry => .conn false
  | opener => .opener
  | closing [] => .cleaner
  | closing (cn :: rest) => .quit cn (.closing rest)
  | quitAll [] => .quitEnd
  | quitAll (cn :: rest) => .quit cn (.quitAll rest)

namespace Client

/-- `maybeOpenNewConnections`. -/
def maybeOpenNewConnections (c : Client) : Client :=
  if c.closed then c
  else
    let numRequests : ℤ := c.connRequests.length
    let numRequests :=
      if 0 < c.maxOpen then min numRequests (c.maxOpen - c.numOpen) else numRequests
    { c with
      numOpen := c.numOpen + numRequests.toNat
      openerCh := c.openerCh + numRequests.toNat }

/-- `needStartCleaner`. -/
def needStartCleaner (c : Client) : Bool := 0 < c.maxLifetime && 0 < c.numOpen && !c.cleanerCh

/-- `startCleanerLocked`, with the goroutine that it starts. -/
def startCleanerLocked (c : Client) : List Goroutine × Client :=
  if c.needStartCleaner then ([.cleaner], { c with cleanerCh := true }) else ([], c)

/-- `putConnLocked` returns false. -/
def Refuses (c : Client) : Prop := c.closed = true ∨ 0 < c.maxOpen ∧ c.maxOpen < c.numOpen

/-- `putConnLocked`, if it returns true. The order of a map is open. -/
inductive PutConnLocked (c : Client) (cn : ℕ) : List Goroutine → Client → Prop
  | request {reqKey : ℕ} (h : ¬ c.Refuses) (hkey : reqKey ∈ c.connRequests) :
      PutConnLocked c cn []
        { c with
          connRequests := c.connRequests.filter (· ≠ reqKey)
          requests := c.requests.set reqKey (.full cn) }
  | free (h : ¬ c.Refuses) (hnone : c.connRequests = []) :
      PutConnLocked c cn (startCleanerLocked { c with freeConns := c.freeConns ++ [cn] }).1
        (startCleanerLocked { c with freeConns := c.freeConns ++ [cn] }).2

/-- A failure of `newConn`, or an announced connection that is not wanted any more. -/
def lowerNumOpen (c : Client) : Client := { c with numOpen := c.numOpen - 1 }

/-- `newConn`, if it succeeds. -/
def newConn (now : ℤ) (c : Client) : Client := { c with conns := c.conns ++ [{ createdAt := now }] }

/-- `conn.quit` sets `closed`. -/
def closeConn (cn : ℕ) (c : Client) : Client :=
  { c with conns := c.conns.modify cn fun x => { x with closed := true } }

/-- The section of `conn.quit`. -/
def quitConn (cn : ℕ) (errCode : ErrCode) (c : Client) : Client :=
  let c := { c with conns := c.conns.modify cn fun x => { x with lowered := true } }
  if errCode = .ok ∨ errCode = .connPollErr then c.lowerNumOpen.maybeOpenNewConnections
  else c.lowerNumOpen

/-- The free connections after one is removed from the front: the last one comes first. -/
def lastFirst (l : List ℕ) : List ℕ := l.getLast?.toList ++ l.dropLast

theorem length_lastFirst (l : List ℕ) : (lastFirst l).length = l.length := by
  unfold lastFirst
  rcases l.eq_nil_or_concat with rfl | ⟨l, x, rfl⟩
  · rfl
  · simp

/-- The loop of the cleaner over the free connections: those to close, and those that stay. -/
def sweep (old : ℕ → Bool) : List ℕ → List ℕ × List ℕ
  | [] => ([], [])
  | cn :: rest =>
    if old cn then
      let r := sweep old (lastFirst rest)
      (cn :: r.1, r.2)
    else
      let r := sweep old rest
      (r.1, cn :: r.2)
  termination_by l => l.length
  decreasing_by all_goals simp [length_lastFirst]

/-- A free connection has been created before the time that the cleaner looks for. -/
def createdBefore (expiredSince : ℤ) (c : Client) (cn : ℕ) : Bool :=
  c.conns[cn]?.any fun x => x.createdAt < expiredSince

/-- The first section of `Quit`: the channels of the requests are closed. -/
def quit (c : Client) : Client :=
  { c with
    requests := c.connRequests.foldl (fun chans k => chans.set k .closed) c.requests
    closed := true }

end Client

/-- A step of a goroutine: what it does, and which goroutines it starts. -/
inductive Local : Goroutine → Client → Goroutine → List Goroutine → Client → Prop
  -- `_conn`
  | connClosed (b) {c : Client} (h : c.closed = true) : Local (.conn b) c .done [] c
  | connExpired (b) {c : Client} (h : c.closed = false) : Local (.conn b) c .done [] c
  | connFree {c : Client} {cn : ℕ} {rest : List ℕ} (h : c.closed = false)
      (hfree : c.freeConns = cn :: rest) :
      Local (.conn true) c (.taken cn c.maxLifetime) [] { c with freeConns := rest }
  | takenConn (cn lifetime now) {c : Client} {x : Conn} (hx : c.conns[cn]? = some x) :
      Local (.taken cn lifetime) c
        (if x.expired lifetime now then .quit cn .retry else .holding cn) [] c
  | connWait (b) {c : Client} (h : c.closed = false) (hfree : b = true → c.freeConns = [])
      (hmax : 0 < c.maxOpen ∧ c.maxOpen ≤ c.numOpen) :
      Local (.conn b) c (.waiting c.requests.length) []
        { c with
          connRequests := c.connRequests ++ [c.requests.length]
          requests := c.requests ++ [.empty] }
  | connCreate (b) {c : Client} (h : c.closed = false) (hfree : b = true → c.freeConns = [])
      (hmax : ¬ (0 < c.maxOpen ∧ c.maxOpen ≤ c.numOpen)) :
      Local (.conn b) c .creating [] { c with numOpen := c.numOpen + 1 }
  | created (now) {c : Client} : Local .creating c (.holding c.conns.length) [] (c.newConn now)
  | createError {c : Client} : Local .creating c (.createFailed false) [] c
  | createFailed (opener) {c : Client} :
      Local (.createFailed opener) c (Next.ofOpener opener).go []
        c.lowerNumOpen.maybeOpenNewConnections
  | received {k : ℕ} {c : Client} {cn : ℕ} (h : c.requests[k]? = some (.full cn)) :
      Local (.waiting k) c (.holding cn) [] { c with requests := c.requests.set k .empty }
  | receivedClosed {k : ℕ} {c : Client} (h : c.requests[k]? = some .closed) :
      Local (.waiting k) c .done [] c
  | cancel (k) {c : Client} : Local (.waiting k) c (.cancelled k) [] c
  | cancelled (k) {c : Client} :
      Local (.cancelled k) c (.drain k) []
        { c with connRequests := c.connRequests.filter (· ≠ k) }
  | drained {k : ℕ} {c : Client} {cn : ℕ} (h : c.requests[k]? = some (.full cn)) :
      Local (.drain k) c (.putting cn false false) []
        { c with requests := c.requests.set k .empty }
  | drainedNothing {k : ℕ} {c : Client} (h : ∀ cn, c.requests[k]? ≠ some (.full cn)) :
      Local (.drain k) c .done [] c
  -- `putConn`, and the end of `openNewConnection`
  | use (cn bad) {c : Client} : Local (.holding cn) c (.putting cn bad false) [] c
  | putBad (cn opener) {c : Client} :
      Local (.putting cn true opener) c (.quit cn (.ofOpener opener)) [] c
  | putRefused (cn opener) {c : Client} (h : c.Refuses) :
      Local (.putting cn false opener) c (.quit cn (.ofOpener opener)) [] c
  | put {cn : ℕ} (opener) {c c' : Client} {started : List Goroutine}
      (h : c.PutConnLocked cn started c') :
      Local (.putting cn false opener) c (Next.ofOpener opener).go started c'
  -- `connectionOpener` and `openNewConnection`
  | openerTake {c : Client} (h : 0 < c.openerCh) :
      Local .opener c .opening [] { c with openerCh := c.openerCh - 1 }
  | openerExit {c : Client} (h : c.closed = true) (h0 : c.openerCh = 0) : Local .opener c .done [] c
  | openingClosed {c : Client} (h : c.closed = true) : Local .opening c .openClosed [] c
  | opening {c : Client} (h : c.closed = false) : Local .opening c .openCreating [] c
  | openClosed {c : Client} : Local .openClosed c .opener [] c.lowerNumOpen
  | openCreated (now) {c : Client} :
      Local .openCreating c (.putting c.conns.length false true) [] (c.newConn now)
  | openError {c : Client} : Local .openCreating c (.createFailed true) [] c
  -- `connectionCleaner`
  | cleanerExit {c : Client} (h : c.closed = true ∨ c.numOpen = 0 ∨ c.maxLifetime ≤ 0) :
      Local .cleaner c .done [] { c with cleanerCh := false }
  | cleanerSweep (now) {c : Client} (h : ¬ (c.closed = true ∨ c.numOpen = 0 ∨ c.maxLifetime ≤ 0)) :
      Local .cleaner c
        (Next.closing
          (Client.sweep (c.createdBefore (now - c.maxLifetime)) c.freeConns).1).go []
        { c with
          freeConns := (Client.sweep (c.createdBefore (now - c.maxLifetime)) c.freeConns).2 }
  -- `Client.Quit`
  | quitAgain {c : Client} (h : c.closed = true) : Local .quitClient c .done [] c
  | quitClient {c : Client} (h : c.closed = false) : Local .quitClient c .quitRange [] c.quit
  | quitRange {c : Client} : Local .quitRange c (Next.quitAll c.freeConns).go [] c
  | quitEnd {c : Client} : Local .quitEnd c .done [] { c with freeConns := [] }
  -- `conn.quit`
  | quitTwice {cn : ℕ} (next) {c : Client} {x : Conn} (hx : c.conns[cn]? = some x)
      (h : x.closed = true) : Local (.quit cn next) c next.go [] c
  | quit {cn : ℕ} (next errCode) {c : Client} {x : Conn} (hx : c.conns[cn]? = some x)
      (h : x.closed = false) :
      Local (.quit cn next) c (.quitting cn errCode next) [] (c.closeConn cn)
  | quitting (cn errCode next) {c : Client} :
      Local (.quitting cn errCode next) c next.go [] (c.quitConn cn errCode)

structure Pool where
  client : Client := {}
  procs : List Goroutine := [.opener]
  deriving DecidableEq, Repr

inductive PoolEvent
  | conn
  | quit
  | setConnMaxOpen (maxOpen : ℤ)
  | setConnMaxLifetime (d : ℤ)
  | go (i : ℕ)
  deriving DecidableEq, Repr

namespace Pool

/-- The steps of a pool: calls, each in a goroutine of its own, and steps of goroutines. -/
inductive Step : Pool → PoolEvent → Pool → Prop
  | conn (s : Pool) : Step s .conn { s with procs := s.procs ++ [.conn true] }
  | quit (s : Pool) : Step s .quit { s with procs := s.procs ++ [.quitClient] }
  | setConnMaxOpen (s : Pool) (maxOpen : ℤ) :
      Step s (.setConnMaxOpen maxOpen) { s with client := { s.client with maxOpen } }
  | setConnMaxLifetime (s : Pool) (d : ℤ) :
      Step s (.setConnMaxLifetime d)
        { client := (Client.startCleanerLocked { s.client with maxLifetime := max d 0 }).2
          procs := s.procs ++
            (Client.startCleanerLocked { s.client with maxLifetime := max d 0 }).1 }
  | go {s : Pool} {i : ℕ} {g g' : Goroutine} {started : List Goroutine} {c : Client}
      (hi : s.procs[i]? = some g) (h : Local g s.client g' started c) :
      Step s (.go i) ⟨c, Processes.move s.procs i g' started⟩

end Pool

end Libmc.Golibmc
