import Libmc.KeyServers

/-!
# The servers as one memory

A request goes to the servers of its keys, and each executes the commands that it is given. As long
as nothing fails, the results of a request are those that one memory with all keys would give, and
the servers keep together what this memory keeps (`Served.answers`). So any run of requests against
several servers is a run of one memory (`servers_one_memory`).
-/

namespace Libmc

variable {c : Connection} {i n : ℕ} {srv : Servers} {req : Request} {route : Bytes → ℕ} {V : Type}
  {m : Bytes → V} {op : RetrievalOp} {keys : List (Bytes × Routed)}

/-- A pool, and what each of its servers keeps for every key. -/
structure ServedPool (V : Type) where
  pool : ConnectionPool
  memories : ℕ → Bytes → V

/-- What is kept for a key is kept by the server that `route` says. -/
def ServedPool.memory (route : Bytes → ℕ) (s : ServedPool V) : Bytes → V :=
  fun key => s.memories (route key) key

/-- A request, its code, and the pool when `waitPoll` returns. -/
structure Called where
  req : Request
  code : ErrCode
  after : ConnectionPool

namespace KeyService

/-- A request in which nothing fails, to servers that serve its commands. -/
structure Served (K : KeyService V) (srv : Servers) (route : Bytes → ℕ) (s : ServedPool V)
    (x : Called) (s' : ServedPool V) : Prop where
  request : srv.steadyRuns.request s.pool x.req
  routed : x.req.RoutedBy route
  wait : (x.req.dispatch s.pool).WaitPoll srv.steadyRuns.step x.code x.after
  served : ∀ i ∈ (x.req.dispatch s.pool).activeConns, ∀ c0,
    (x.req.dispatch s.pool).conns[i]? = some c0 →
      K.Serves srv i c0.traffic.socket (readCommands c0.traffic.written).1.length
        (x.req.commandsFor s.pool i) (s.memories i)
  pool_eq : ∃ times, s'.pool = (x.req.finish times x.after).reset
  memories_eq : ∀ i, s'.memories i = (x.req.commandsFor s.pool i).foldl K.after (s.memories i)

/-- A request that is executed by one memory. -/
structure Answers (K : KeyService V) (m : Bytes → V) (x : Called) (m' : Bytes → V) : Prop where
  memory_eq : m' = x.req.commands.foldl K.after m
  code : x.after.activeConns ≠ [] → x.code = .ok
  messages : x.req.HasMessages →
    x.after.collectMessageResult.Perm (K.messages m x.req.commands)
  retrieved : ∀ op keys, x.req = .retrieval op keys → x.after.collectRetrievalResult.Perm
    ((((keys.map (·.1)).filter isValidKey).filterMap fun key => K.item op key (m key)).map
      Item.result)
  number : ∀ op delta key, x.req = .incrDecr op delta false key → isValidKey key.1 = true →
    x.after.collectUnsignedResult =
      [(K.exec (.incrDecr op key.1 delta.toInt64.toInt false) (m key.1)).2.unsigned key.1]

variable {K : KeyService V} {s s' : ServedPool V} {x : Called}

/-! ### A request -/

theorem Served.failing (h : K.Served srv route s x s') :
    (x.req.dispatch s.pool).WaitPoll srv.failingRuns.step x.code x.after :=
  h.wait.mono fun _ _ _ hstep => .inr (Servers.steadyRuns_timely hstep)

theorem Served.conn (h : K.Served srv route s x s') (hp : Reachable srv.failingRuns s.pool)
    (hi : i ∈ x.after.activeConns) : ∃ c n got, x.after.conns[i]? = some c ∧
      x.req.commandsFor s.pool i ≠ [] ∧ Connection.Responded srv s.pool x.req i x.code c n got ∧
        K.Serves srv i c.traffic.socket n (x.req.commandsFor s.pool i) (s.memories i) := by
  obtain ⟨hi', c, hc⟩ := waitPoll_active hp h.request.1.1 h.failing hi
  obtain ⟨c0, got, hc0, hresponded⟩ := waitPoll_taken_since hp h.request h.failing hi' hc
  have hactive : (x.req.dispatch s.pool).nActiveConn ≠ 0 := by
    rw [(x.req.dispatch_active hp.clean).2, Nat.mod_eq_of_lt h.request.2]
    exact (List.length_pos_of_mem hi').ne'
  obtain ⟨t, -, hinv, -, -, hpool⟩ := h.wait.steady hp h.request hactive
  have hsocket : c.traffic.socket = c0.traffic.socket := hinv.socket_eq hi' hc0 (hpool ▸ hc)
  have hserves := h.served i hi' c0 hc0
  have hearlier : Connection.earlier c0 c = (readCommands c0.traffic.written).1 := if_pos hsocket
  rw [← hsocket, ← hearlier] at hserves
  exact ⟨c, _, got, hc, Request.active_commands hp h.request.1.1 hi', hresponded, hserves⟩

theorem Served.code (h : K.Served srv route s x s') (hp : Reachable srv.failingRuns s.pool)
    (hne : x.after.activeConns ≠ []) : x.code = .ok := by
  have hactive : (x.req.dispatch s.pool).nActiveConn ≠ 0 := by
    rw [(x.req.dispatch_active hp.clean).2, Nat.mod_eq_of_lt h.request.2,
      ← h.wait.frame.activeConns]
    exact mt List.length_eq_zero_iff.1 hne
  refine h.wait.ok_of hp h.request hactive ?_
  rintro ⟨i, hi, c0, hc0, hfails⟩
  exact (h.served i hi c0 hc0).not_fails hfails

theorem Served.active (h : K.Served srv route s x s') (hp : Reachable srv.failingRuns s.pool)
    {key : Bytes × Routed} (hkey : key ∈ x.req.routedKeys) (hvalid : isValidKey key.1 = true) :
    route key.1 ∈ x.after.activeConns := by
  rw [h.wait.frame.activeConns]
  exact Request.active_of_key hp h.request.1.1 hkey hvalid (h.routed.conn key hkey hvalid)

theorem Served.nodup (h : K.Served srv route s x s') (hp : Reachable srv.failingRuns s.pool) :
    x.after.activeConns.Nodup :=
  h.wait.frame.activeConns ▸ (x.req.dispatch_active hp.clean).1

theorem shard_memory (route : Bytes → ℕ) (s : ServedPool V) (i : ℕ) :
    Shards.Shard (fun key => decide (route key = i)) (s.memory route) (s.memories i) where
  eq key hkey := by
    unfold ServedPool.memory
    rw [of_decide_eq_true hkey]

/-- The servers keep together what one memory keeps. -/
theorem Served.memory (h : K.Served srv route s x s') :
    s'.memory route = x.req.commands.foldl K.after (s.memory route) := by
  funext key
  unfold ServedPool.memory
  rw [h.memories_eq]
  rcases x.req.single_or with ⟨op, keys, hreq⟩ | hsingle
  · -- a retrieval changes nothing
    rw [hreq, Request.commandsFor_retrieval]
    split_ifs <;> rfl
  · rw [h.routed.commandsFor hsingle, foldl_after hsingle,
      foldl_after fun cmd hcmd => hsingle cmd (List.mem_of_mem_filter hcmd)]
    exact ((shard_memory route s (route key)).serve x.req.commands).eq key (decide_eq_true rfl)

theorem Served.messages (h : K.Served srv route s x s') (hp : Reachable srv.failingRuns s.pool)
    (hreq : x.req.HasMessages) :
    x.after.collectMessageResult.Perm (K.messages (s.memory route) x.req.commands) := by
  have hsingle : x.req.Single := x.req.single_or.resolve_left fun ⟨op, keys, heq⟩ => by
    rw [heq] at hreq
    cases hreq
  -- those of a connection are those of its commands
  have hconn : ∀ i ∈ x.after.activeConns,
      (x.after.conns[i]?.map (·.parser.messageResults)).getD [] =
        ((Shards.answers Command.key K.exec (s.memory route) x.req.commands).filter
          fun y => route y.1.key = i).filterMap fun y => y.2.message y.1.key := by
    intro i hi
    obtain ⟨c, n, got, hc, hne, hresponded, hserves⟩ := h.conn hp hi
    obtain ⟨-, hreply, hline, -⟩ := hreq.lines s.pool i
    obtain ⟨ls, hls, hmessages⟩ := hserves.lines hreply hline
    obtain ⟨done, -, -, hresults, hall⟩ := hresponded.replied hreq hne hls
    obtain rfl := hall (h.code hp (List.ne_nil_of_mem hi))
    rw [hc, ← (shard_memory route s i).answers x.req.commands,
      ← h.routed.commandsFor hsingle s.pool i]
    exact hresults.trans ((congrArg _ (hreq.keysFor_eq s.pool i)).trans hmessages)
  unfold ConnectionPool.collectMessageResult KeyService.messages
  rw [List.flatMap_congr hconn, ← List.filterMap_flatMap]
  refine List.Perm.filterMap _ (perm_flatMap_filter (fun y : Command × Answer => route y.1.key)
    (h.nodup hp) fun y hy => ?_)
  have hcmds : (Shards.answers Command.key K.exec (s.memory route) x.req.commands).map Prod.fst =
      x.req.commands := Shards.answers_map_fst _ _
  have hcmd : y.1 ∈ x.req.commands := hcmds ▸ List.mem_map_of_mem hy
  obtain ⟨key, hkey, heq, hvalid⟩ := Request.exists_key hsingle hcmd
  rw [← heq]
  exact h.active hp hkey hvalid

theorem Served.held (h : K.Served srv route s x s') (hp : Reachable srv.failingRuns s.pool)
    (hreq : x.req = .retrieval op keys) (hi : i ∈ x.after.activeConns) :
    ∃ c, x.after.conns[i]? = some c ∧ c.parser.completeResults =
      ((Request.itemsFor id i keys).filterMap fun key => K.item op key (s.memories i key)).map
        Item.result := by
  obtain ⟨c, n, got, hc, hne, hresponded, hserves⟩ := h.conn hp hi
  have hcode := h.code hp (List.ne_nil_of_mem hi)
  rw [hreq] at hne hresponded hserves
  have hitems : Request.itemsFor id i keys ≠ [] := fun hnil =>
    hne (by rw [Request.commandsFor_retrieval, if_pos hnil])
  rw [Request.commandsFor_retrieval, if_neg hitems] at hserves
  have hreply : ReplyItems
      (srv.reply i c.traffic.socket n (.retrieval op (Request.itemsFor id i keys)))
      ((Request.itemsFor id i keys).filterMap fun key => K.item op key (s.memories i key)) := by
    rw [hserves.1 rfl]
    refine .whole fun it hit => ?_
    obtain ⟨key, -, hkey⟩ := List.mem_filterMap.1 hit
    exact K.valid _ _ _ _ hkey
  obtain ⟨done, -, hresults, hall⟩ := hresponded.retrieved hitems hreply
  obtain rfl := hall hcode
  exact ⟨c, hc, hresults⟩

theorem Served.retrieved (h : K.Served srv route s x s') (hp : Reachable srv.failingRuns s.pool)
    (hreq : x.req = .retrieval op keys) : x.after.collectRetrievalResult.Perm
      ((((keys.map (·.1)).filter isValidKey).filterMap fun key =>
        K.item op key (s.memory route key)).map Item.result) := by
  -- what the servers hold
  let store : ℕ → Bytes → Option Item := fun i key => K.item op key (s.memories i key)
  have hkeys : ∀ key ∈ keys, isValidKey key.1 = true → key.2.conn = some (route key.1) := by
    have hconn := h.routed.conn
    rw [hreq] at hconn
    exact hconn
  have hheld : keys.filterMap (heldItem store) = ((keys.map (·.1)).filter isValidKey).filterMap
      fun key => K.item op key (s.memory route key) := by
    rw [List.filterMap_filter, List.filterMap_map]
    refine List.filterMap_congr fun key hkey => ?_
    show heldItem store key = if isValidKey key.1 then _ else none
    unfold heldItem
    split_ifs with hvalid
    · rw [hkeys key hkey hvalid]
      rfl
    · rfl
  have hperm := flatMap_held store (h.nodup hp) fun key hkey hvalid i hi => by
    obtain rfl := Option.some.inj ((hkeys key hkey hvalid).symm.trans hi)
    exact h.active hp (hreq ▸ hkey) hvalid
  rw [hheld] at hperm
  have hall := hperm.map Item.result
  rw [List.map_flatMap] at hall
  rw [ConnectionPool.collectRetrievalResult_of fun i hi => h.held hp hreq hi]
  exact hall

theorem Served.number (h : K.Served srv route s x s') (hp : Reachable srv.failingRuns s.pool)
    {op : IncrDecrOp} {delta : UInt64} {key : Bytes × Routed}
    (hreq : x.req = .incrDecr op delta false key) (hvalid : isValidKey key.1 = true) :
    x.after.collectUnsignedResult = [(K.exec (.incrDecr op key.1 delta.toInt64.toInt false)
      (s.memory route key.1)).2.unsigned key.1] := by
  have hmem : key ∈ x.req.routedKeys := by
    rw [hreq]
    exact List.mem_singleton_self key
  have hi : numberConn key = some (route key.1) := by
    unfold numberConn
    rw [if_pos hvalid]
    exact h.routed.conn key hmem hvalid
  have hactive : x.after.activeConns = [route key.1] := by
    rw [h.wait.frame.activeConns, hreq, Request.active_incrDecr hp.clean, hi]
    rfl
  obtain ⟨c, n, got, hc, -, hresponded, hserves⟩ := h.conn hp (h.active hp hmem hvalid)
  have hcode := h.code hp (List.ne_nil_of_mem (h.active hp hmem hvalid))
  rw [hreq] at hresponded hserves
  rw [(Request.commandsFor_incrDecr s.pool op delta hi).1] at hserves
  have hreply := hserves.1 rfl
  obtain ⟨-, hlen, hnumber, hline⟩ := hresponded.number hi hreply
  rw [ConnectionPool.collectUnsignedResult_of hactive hc]
  have hfor := K.answers (.incrDecr op key.1 delta.toInt64.toInt false)
    (s.memories (route key.1) key.1) rfl
  have hbytes : K.reply (s.memories (route key.1)) (.incrDecr op key.1 delta.toInt64.toInt false) =
    (K.exec (.incrDecr op key.1 delta.toInt64.toInt false)
      (s.memories (route key.1) key.1)).2.bytes := rfl
  rw [hbytes] at hlen hnumber hline
  show _ = [(K.exec _ (s.memories (route key.1) key.1)).2.unsigned key.1]
  generalize (K.exec (.incrDecr op key.1 delta.toInt64.toInt false)
    (s.memories (route key.1) key.1)).2 = answer at hfor hlen hnumber hline
  cases hfor with
  | @line _ l hl =>
    obtain rfl : l = .notFound := List.mem_singleton.1 hl
    rw [(hline .notFound trivial rfl).2, if_pos ⟨hlen hcode, rfl⟩]
    rfl
  | number m =>
    rw [hnumber m rfl, hlen hcode]
    exact congrArg (List.map some) (numberRead_whole key.1 m)

/-- **A request to several servers** is answered as by one memory. -/
theorem Served.answers (h : K.Served srv route s x s') (hp : Reachable srv.failingRuns s.pool) :
    K.Answers (s.memory route) x (s'.memory route) where
  memory_eq := h.memory
  code := h.code hp
  messages := h.messages hp
  retrieved _ _ hreq := h.retrieved hp hreq
  number _ _ _ hreq hvalid := h.number hp hreq hvalid

theorem Served.reachable (h : K.Served srv route s x s') (hp : Reachable srv.failingRuns s.pool) :
    Reachable srv.failingRuns s'.pool := by
  obtain ⟨times, hpool⟩ := h.pool_eq
  rw [hpool]
  exact .command hp x.req h.request h.failing times

end KeyService

/-- **The servers are one memory.** As long as nothing fails, any run of requests, whose keys are
divided among servers that each execute their commands, is a run of one memory that executes the
commands of the requests one after the other. -/
theorem servers_one_memory {K : KeyService V} {s₀ s : ServedPool V}
    (hp : Reachable srv.failingRuns s₀.pool) {tr : List (Transition (ServedPool V) Called)}
    (h : Run (K.Served srv route) s₀ tr s) :
    Run K.Answers (s₀.memory route) (tr.map (.map (·.memory route))) (s.memory route) :=
  h.map (I := fun s => Reachable srv.failingRuns s.pool) hp
    fun _ _ _ hs hserved => ⟨hserved.reachable hs, hserved.answers hs⟩

/-! ### Two servers -/

instance (r : Routed) (p : ConnectionPool) : Decidable (r.Live p) :=
  decidable_of_iff (∀ i ∈ r.conn, ((p.getConn r).conns[i]?.any (·.alive)) = true) <|
    forall₂_congr fun _ _ => Option.any_eq_true _ _

/-- Whether `getConn` returns live connections only. -/
def ConnectionPool.decidableRoutesLive {ι : Type} (key : ι → Bytes)
    (take : ι → Connection → Connection) :
    ∀ (items : List (ι × Routed)) (p : ConnectionPool), Decidable (p.RoutesLive key take items)
  | [], _ => .isTrue trivial
  | item :: items, p =>
    haveI := decidableRoutesLive key take items (p.dispatchItem key take item)
    inferInstanceAs (Decidable ((isValidKey (key item.1) → item.2.Live p) ∧
      ConnectionPool.RoutesLive key take items (p.dispatchItem key take item)))

instance (req : Request) (p : ConnectionPool) : Decidable (req.RoutesLive p) :=
  match req with
  | .storage _ _ _ items => ConnectionPool.decidableRoutesLive _ _ items p
  | .retrieval _ keys => ConnectionPool.decidableRoutesLive _ _ keys p
  | .deletion _ keys => ConnectionPool.decidableRoutesLive _ _ keys p
  | .touch _ _ keys => ConnectionPool.decidableRoutesLive _ _ keys p
  | .incrDecr _ _ _ key => inferInstanceAs (Decidable (isValidKey key.1 → key.2.Live p))
  | .broadcast _ _ => .isTrue trivial

theorem set_mem : OpCode.set ∈ [OpCode.set, .add, .replace, .append, .prepend, .cas] :=
  List.mem_cons_self

theorem length_lt : (ascii "v").length < 2 ^ 63 := by decide

/-- The keys are stored on one of two servers each, and then retrieved. -/
def setTwo : Request :=
  .storage ⟨.set, set_mem⟩ 0 false [(⟨ascii "a", 7, 0, ascii "v", length_lt⟩,
      { tried := [(0, ⟨0, some 5⟩)], conn := some 0 }),
    (⟨ascii "b", 7, 0, ascii "v", length_lt⟩, { tried := [(1, ⟨0, some 6⟩)], conn := some 1 })]

/-- The item of a key, if it has been stored. -/
def itemOf (key : Bytes) (stored : Bool) : Option Item :=
  if stored ∧ key ∈ [ascii "a", ascii "b"] then some ⟨key, 7, ascii "v", none⟩ else none

theorem itemOf_valid {key : Bytes} {stored : Bool} {it : Item} (h : itemOf key stored = some it) :
    it.Valid := by
  unfold itemOf at h
  split_ifs at h with hkey
  obtain rfl := Option.some.inj h
  obtain ⟨-, hmem⟩ := hkey
  fin_cases hmem
  · exact ⟨by decide, by decide, by decide, by decide, by decide, nofun⟩
  · exact ⟨by decide, by decide, by decide, by decide, by decide, nofun⟩

/-- Keys are stored and retrieved. -/
def keeping : KeyService Bool where
  exec cmd stored :=
    match cmd with
    | .storage _ _ _ _ _ _ _ => (true, .line .stored)
    | _ => (stored, .line .notFound)
  item _ := itemOf
  answers cmd _ h := by
    cases cmd with
    | retrieval => cases h
    | bare => cases h
    | storage => exact .line List.mem_cons_self
    | incrDecr => exact .line List.mem_cons_self
    | touch => exact .line (List.mem_cons_of_mem _ List.mem_cons_self)
    | delete => exact .line (List.mem_cons_of_mem _ List.mem_cons_self)
  valid _ _ _ _ h := itemOf_valid h

def Servers.keeping : Servers := Libmc.keeping.servers fun _ _ => true

/-- The servers of the keys. -/
def routeTwo (key : Bytes) : ℕ := if key = ascii "b" then 1 else 0

theorem execs_keeping : ((PollLoop.execsIf Servers.keeping.steadyRuns.step
      (setTwo.dispatch (.init 2)).startPoll
      [.report [{ out := true }, { out := true }],
        .part {}, .part {}, .part { room := some 100 }, .part {},
        .part {}, .part {}, .part { room := some 100 }, .part {}, .nextRound,
        .report [{ in_ := true }, { in_ := true }],
        .part {}, .part {}, .part {}, .part { bytes := some (ascii "STORED\r\n"), rounds := 9 },
        .part {}, .part {}, .part {}, .part { bytes := some (ascii "STORED\r\n"), rounds := 9 },
        .nextRound, .leave]).bind fun t =>
      (PollLoop.execsIf Servers.keeping.steadyRuns.step
        (getTwo.dispatch t.pool.reset).startPoll
        [.report [{ out := true }, { out := true }],
          .part {}, .part {}, .part { room := some 100 }, .part {},
          .part {}, .part {}, .part { room := some 100 }, .part {}, .nextRound,
          .report [{ in_ := true }, { in_ := true }],
          .part {}, .part {}, .part {},
          .part { bytes := some (ascii "VALUE a 7 1\r\nv\r\nEND\r\n"), rounds := 19 },
          .part {}, .part {}, .part {},
          .part { bytes := some (ascii "VALUE b 7 1\r\nv\r\nEND\r\n"), rounds := 19 },
          .nextRound, .leave]).map fun u =>
        decide (t.progress = .finished ∧ t.retCode = .ok ∧ u.progress = .finished ∧
          u.retCode = .ok ∧ getTwo.RoutesLive t.pool.reset ∧
          (∀ c ∈ (getTwo.dispatch t.pool.reset).conns, c.socketFd ≠ 0) ∧
          (getTwo.dispatch t.pool.reset).activeConns = [0, 1] ∧
          (getTwo.dispatch t.pool.reset).nActiveConn = 2)) = some true := by
  decide +kernel

/-- What a server keeps of the keys that are stored. -/
def keptTwo (i : ℕ) : Bytes → Bool :=
  (setTwo.commandsFor (.init 2) i).foldl keeping.after fun _ => false

theorem setTwo_serves (socket n : ℕ) (hi : i ∈ [0, 1]) :
    keeping.Serves .keeping i socket n (setTwo.commandsFor (.init 2) i) fun _ => false := by
  fin_cases hi
  · exact ⟨fun _ => rfl, trivial⟩
  · exact ⟨fun _ => rfl, trivial⟩

theorem getTwo_serves (socket n : ℕ) (p : ConnectionPool) (hi : i ∈ [0, 1]) :
    keeping.Serves .keeping i socket n (getTwo.commandsFor p i) (keptTwo i) := by
  fin_cases hi
  · exact ⟨fun _ => rfl, trivial⟩
  · exact ⟨fun _ => rfl, trivial⟩

theorem setTwo_routed : setTwo.RoutedBy routeTwo where
  keys _ _ h := by cases h
  conn := by decide

theorem getTwo_routed : getTwo.RoutedBy routeTwo where
  keys _ _ h := by cases h
  conn := by decide

theorem servers_one_memory_two : ∃ (x y : Called) (s₁ s₂ : ServedPool Bool),
    x.req = setTwo ∧ y.req = getTwo ∧ s₁.memory routeTwo (ascii "b") = true ∧
      Run keeping.Answers (fun _ => false)
        [⟨fun _ => false, x, s₁.memory routeTwo⟩, ⟨s₁.memory routeTwo, y, s₂.memory routeTwo⟩]
        (s₂.memory routeTwo) := by
  obtain ⟨t, ht, hu⟩ := Option.bind_eq_some_iff.1 execs_keeping
  obtain ⟨u, hu, hall⟩ := Option.map_eq_some_iff.1 hu
  obtain ⟨hfinished, -, hfinished', -, hroutes, hfd, hactive, hnactive⟩ := of_decide_eq_true hall
  let s₀ : ServedPool Bool := ⟨.init 2, fun _ _ => false⟩
  let s₁ : ServedPool Bool := ⟨t.pool.reset, keptTwo⟩
  let s₂ : ServedPool Bool := ⟨u.pool.reset, fun i =>
    (getTwo.commandsFor t.pool.reset i).foldl keeping.after (keptTwo i)⟩
  have hrequest : Servers.keeping.steadyRuns.request (.init 2) setTwo :=
    ⟨⟨by decide, by decide⟩, by decide⟩
  have hrequest' : Servers.keeping.steadyRuns.request t.pool.reset getTwo :=
    ⟨⟨hroutes, hfd⟩, by rw [hactive]; decide⟩
  have hset : keeping.Served .keeping routeTwo s₀ ⟨setTwo, t.retCode, t.pool⟩ s₁ := {
    request := hrequest
    routed := setTwo_routed
    wait := .run (p := setTwo.dispatch (.init 2)) (by decide) (PollLoop.steps_of_execsIf ht)
      (.inl hfinished)
    served := fun i hi c0 _ => setTwo_serves _ _ hi
    pool_eq := ⟨fun _ => 0, rfl⟩
    memories_eq := fun _ => rfl }
  have hget : keeping.Served .keeping routeTwo s₁ ⟨getTwo, u.retCode, u.pool⟩ s₂ := {
    request := hrequest'
    routed := getTwo_routed
    wait := .run (p := getTwo.dispatch t.pool.reset) (by rw [hnactive]; decide)
      (PollLoop.steps_of_execsIf hu) (.inl hfinished')
    served := fun i hi c0 _ => getTwo_serves _ _ _ (hactive ▸ hi)
    pool_eq := ⟨fun _ => 0, rfl⟩
    memories_eq := fun _ => rfl }
  have hkept : keptTwo (routeTwo (ascii "b")) (ascii "b") = true := by decide
  exact ⟨_, _, s₁, s₂, rfl, rfl, hkept,
    servers_one_memory (.init 2) ((Run.nil.snoc hset).snoc hget)⟩

end Libmc
