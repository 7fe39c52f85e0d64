import Libmc.Addresses
import Libmc.OneMemory

/-!
# The ring and the memory

`getConn` is called for each item when its turn comes in the loop of a command (`Request.RoutedOn`).
What it returns is alive (`RoutedOn.routesLive`), and without failover it is the connection that owns
the key (`RoutedOn.routedBy`). So the servers of a client are one memory, divided by the ring
(`ring_one_memory`).
-/

namespace Libmc

variable {ι : Type} {key : ι → Bytes} {take : ι → Connection → Connection} {p : ConnectionPool}
  {hashMd5 : Bytes → ℕ} {ks : KetamaSelector} {req : Request} {srv : Servers} {V : Type}
  {K : KeyService V} {s s' s₀ : ServedPool V} {x : Called}

/-- A key is routed by `getConn`. -/
def Routed.On (hashMd5 : Bytes → ℕ) (ks : KetamaSelector) (key : Bytes) (p : ConnectionPool)
    (r : Routed) : Prop := ∃ answers, r = p.route hashMd5 ks key answers

/-- In each round of the loop over the items the key is routed by `getConn`. -/
def ConnectionPool.RoutedOn (hashMd5 : Bytes → ℕ) (ks : KetamaSelector) (key : ι → Bytes)
    (take : ι → Connection → Connection) : List (ι × Routed) → ConnectionPool → Prop
  | [], _ => True
  | item :: items, p => (isValidKey (key item.1) → item.2.On hashMd5 ks (key item.1) p) ∧
      RoutedOn hashMd5 ks key take items (p.dispatchItem key take item)

/-- In each call of a command the key is routed by `getConn`. -/
def Request.RoutedOn (hashMd5 : Bytes → ℕ) (ks : KetamaSelector) (p : ConnectionPool) :
    Request → Prop
  | .storage op exptime noreply items =>
    p.RoutedOn hashMd5 ks (·.key) (Connection.takeStorage op exptime noreply) items
  | .retrieval op keys => p.RoutedOn hashMd5 ks id (Connection.takeRetrieval op) keys
  | .deletion noreply keys => p.RoutedOn hashMd5 ks id (Connection.takeDeletion noreply) keys
  | .touch exptime noreply keys =>
    p.RoutedOn hashMd5 ks id (Connection.takeTouch exptime noreply) keys
  | .incrDecr _ _ _ key => isValidKey key.1 → key.2.On hashMd5 ks key.1 p
  | .broadcast _ _ => True

/-! ### Where the keys are -/

theorem Routed.On.live {k : Bytes} {r : Routed} (h : r.On hashMd5 ks k p) : r.Live p := by
  obtain ⟨answers, rfl⟩ := h
  exact p.live_route hashMd5 ks k answers

/-- Without failover there is only one connection for a key. -/
theorem Routed.On.owner {k : Bytes} {r : Routed} {i : ℕ} (h : r.On hashMd5 ks k p)
    (hring : ks.Ring) (hfailover : ks.useFailover = false) (hi : r.conn = some i) :
    i = ks.owner hashMd5 k := by
  obtain ⟨answers, rfl⟩ := h
  have hmem := List.mem_of_find?_eq_some ((ConnectionPool.route_conn hring).symm.trans hi)
  unfold KetamaSelector.candidates at hmem
  rw [hfailover, if_neg Bool.false_ne_true] at hmem
  split_ifs at hmem
  · cases hmem
  · exact List.mem_singleton.1 hmem

theorem ConnectionPool.RoutedOn.routesLive {items : List (ι × Routed)}
    (h : p.RoutedOn hashMd5 ks key take items) : p.RoutesLive key take items := by
  induction items generalizing p with
  | nil => trivial
  | cons item items ih => exact ⟨fun hvalid => (h.1 hvalid).live, ih h.2⟩

theorem ConnectionPool.RoutedOn.owner {items : List (ι × Routed)}
    (h : p.RoutedOn hashMd5 ks key take items) (hring : ks.Ring)
    (hfailover : ks.useFailover = false) : ∀ item ∈ items, isValidKey (key item.1) = true →
      ∀ i, item.2.conn = some i → i = ks.owner hashMd5 (key item.1) := by
  induction items generalizing p with
  | nil => exact List.forall_mem_nil _
  | cons item items ih =>
    exact List.forall_mem_cons.2
      ⟨fun hvalid i hi => (h.1 hvalid).owner hring hfailover hi, ih h.2⟩

namespace Request

/-- **Live connections**: what the dispatch of a command needs of its routing. -/
theorem RoutedOn.routesLive (h : req.RoutedOn hashMd5 ks p) : req.RoutesLive p := by
  cases req with
  | storage => exact ConnectionPool.RoutedOn.routesLive h
  | retrieval => exact ConnectionPool.RoutedOn.routesLive h
  | deletion => exact ConnectionPool.RoutedOn.routesLive h
  | touch => exact ConnectionPool.RoutedOn.routesLive h
  | incrDecr => exact fun hvalid => (h hvalid).live
  | broadcast => trivial

theorem RoutedOn.owner (h : req.RoutedOn hashMd5 ks p) (hring : ks.Ring)
    (hfailover : ks.useFailover = false) : ∀ y ∈ req.routedKeys, isValidKey y.1 = true →
      ∀ i, y.2.conn = some i → i = ks.owner hashMd5 y.1 := by
  cases req with
  | storage => exact List.forall_mem_map.2 (ConnectionPool.RoutedOn.owner h hring hfailover)
  | retrieval => exact ConnectionPool.RoutedOn.owner h hring hfailover
  | deletion => exact ConnectionPool.RoutedOn.owner h hring hfailover
  | touch => exact ConnectionPool.RoutedOn.owner h hring hfailover
  | incrDecr =>
    exact List.forall_mem_singleton.2 fun hvalid i hi => (h hvalid).owner hring hfailover hi
  | broadcast => exact List.forall_mem_nil _

/-- **The ring divides the keys**, if every valid key has found a connection. -/
theorem RoutedOn.routedBy (h : req.RoutedOn hashMd5 ks p) (hring : ks.Ring)
    (hfailover : ks.useFailover = false) (hkeys : ∀ op answers, req ≠ .broadcast op answers)
    (hfound : ∀ y ∈ req.routedKeys, isValidKey y.1 = true → y.2.conn ≠ none) :
    req.RoutedBy (ks.owner hashMd5) where
  keys := hkeys
  conn y hy hvalid := by
    obtain ⟨i, hi⟩ := Option.ne_none_iff_exists'.1 (hfound y hy hvalid)
    rw [hi, h.owner hring hfailover y hy hvalid i hi]

end Request

/-! ### The servers of a client -/

/-- A request in which nothing fails, and whose valid keys are routed by `getConn` to servers that
serve its commands. -/
structure KeyService.RingServed (K : KeyService V) (srv : Servers) (hashMd5 : Bytes → ℕ)
    (ks : KetamaSelector) (s : ServedPool V) (x : Called) (s' : ServedPool V) : Prop where
  routed : x.req.RoutedOn hashMd5 ks s.pool
  keys : ∀ op answers, x.req ≠ .broadcast op answers
  found : ∀ y ∈ x.req.routedKeys, isValidKey y.1 = true → y.2.conn ≠ none
  sockets : ∀ c ∈ (x.req.dispatch s.pool).conns, c.socketFd ≠ 0
  length : (x.req.dispatch s.pool).activeConns.length < 2 ^ 32
  wait : (x.req.dispatch s.pool).WaitPoll srv.steadyRuns.step x.code x.after
  served : ∀ i ∈ (x.req.dispatch s.pool).activeConns, ∀ c0,
    (x.req.dispatch s.pool).conns[i]? = some c0 →
      K.Serves srv i c0.traffic.socket (readCommands c0.traffic.written).1.length
        (x.req.commandsFor s.pool i) (s.memories i)
  pool_eq : ∃ times, s'.pool = (x.req.finish times x.after).reset
  memories_eq : ∀ i, s'.memories i = (x.req.commandsFor s.pool i).foldl K.after (s.memories i)

theorem KeyService.RingServed.toServed (h : K.RingServed srv hashMd5 ks s x s') (hring : ks.Ring)
    (hfailover : ks.useFailover = false) : K.Served srv (ks.owner hashMd5) s x s' where
  request := ⟨⟨h.routed.routesLive, h.sockets⟩, h.length⟩
  routed := h.routed.routedBy hring hfailover h.keys h.found
  wait := h.wait
  served := h.served
  pool_eq := h.pool_eq
  memories_eq := h.memories_eq

/-- **The ring of a client is one memory.** As long as nothing fails and there is no failover, any
run of requests whose keys are routed by `getConn` is a run of one memory, of which each server keeps
the keys that it owns on the ring; and every connection that `getConn` returns is alive. -/
theorem ring_one_memory (hring : ks.Ring) (hfailover : ks.useFailover = false)
    (hp : Reachable srv.failingRuns s₀.pool) {tr : List (Transition (ServedPool V) Called)}
    (h : Run (K.RingServed srv hashMd5 ks) s₀ tr s) :
    Run K.Answers (s₀.memory (ks.owner hashMd5)) (tr.map (.map (·.memory (ks.owner hashMd5))))
      (s.memory (ks.owner hashMd5)) ∧ ∀ t ∈ tr, t.event.req.RoutesLive t.before.pool := by
  have hstep : ∀ s x s', Reachable srv.failingRuns s.pool → K.RingServed srv hashMd5 ks s x s' →
      Reachable srv.failingRuns s'.pool ∧
        K.Answers (s.memory (ks.owner hashMd5)) x (s'.memory (ks.owner hashMd5)) := by
    intro s x s' hs hserved
    have hserved := hserved.toServed hring hfailover
    exact ⟨hserved.reachable hs, hserved.answers hs⟩
  refine ⟨h.map (I := fun s => Reachable srv.failingRuns s.pool) hp hstep, ?_⟩
  exact h.forall_of (C := fun _ _ => True) hp
    (fun s x s' hs hserved _ => ⟨(hstep s x s' hs hserved).1, hserved.routed.routesLive⟩)
      fun _ _ => trivial

/-! ### Two servers on a ring -/

theorem Routed.Live.on {k : Bytes} {a : Reconnect} (hring : ks.Ring) (h0 : ks.nServers ≠ 0)
    (h : Routed.Live p { tried := [(ks.owner hashMd5 k, a)], conn := some (ks.owner hashMd5 k) }) :
    Routed.On hashMd5 ks k p
      { tried := [(ks.owner hashMd5 k, a)], conn := some (ks.owner hashMd5 k) } := by
  obtain ⟨c, hc, halive⟩ := h _ rfl
  have hroute : p.route hashMd5 ks k (fun _ => a) = _ :=
    ConnectionPool.route_of_attempt hring h0 ((Option.any_eq_true _ _).2 ⟨c, hc, halive⟩)
  exact ⟨_, hroute.symm⟩

/-- The first byte of a key, as its hash. -/
def firstByte (key : Bytes) : ℕ := (key.headD 0).toNat

/-- A ring of two servers, with the hashes of the keys `a` and `b` as its points. -/
def twoRing : KetamaSelector := { continuum := [⟨97, 0⟩, ⟨98, 1⟩], nServers := 2 }

theorem twoRing_owner : twoRing.owner firstByte (ascii "a") = 0 ∧
    twoRing.owner firstByte (ascii "b") = 1 := by decide

theorem twoRing_ring : twoRing.Ring := fun _ => by decide

theorem setTwo_routedOn (h : setTwo.RoutesLive p) : setTwo.RoutedOn firstByte twoRing p :=
  ⟨fun hvalid => Routed.Live.on (a := ⟨0, some 5⟩) twoRing_ring (by decide) (h.1 hvalid),
    fun hvalid => Routed.Live.on (a := ⟨0, some 6⟩) twoRing_ring (by decide) (h.2.1 hvalid), trivial⟩

theorem getTwo_routedOn (h : getTwo.RoutesLive p) : getTwo.RoutedOn firstByte twoRing p :=
  ⟨fun hvalid => Routed.Live.on (a := ⟨0, some 5⟩) twoRing_ring (by decide) (h.1 hvalid),
    fun hvalid => Routed.Live.on (a := ⟨0, some 6⟩) twoRing_ring (by decide) (h.2.1 hvalid), trivial⟩

/-- Both keys are stored, each on the server that owns it, and then retrieved. -/
theorem ring_one_memory_two : ∃ (x y : Called) (s₁ s₂ : ServedPool Bool),
    x.req = setTwo ∧ y.req = getTwo ∧ twoRing.owner firstByte (ascii "a") = 0 ∧
      twoRing.owner firstByte (ascii "b") = 1 ∧
      s₁.memory (twoRing.owner firstByte) (ascii "b") = true ∧
      Run keeping.Answers (fun _ => false)
        [⟨fun _ => false, x, s₁.memory (twoRing.owner firstByte)⟩,
          ⟨s₁.memory (twoRing.owner firstByte), y, s₂.memory (twoRing.owner firstByte)⟩]
        (s₂.memory (twoRing.owner firstByte)) ∧ getTwo.RoutesLive s₁.pool := by
  obtain ⟨t, ht, hu⟩ := Option.bind_eq_some_iff.1 execs_keeping
  obtain ⟨u, hu, hall⟩ := Option.map_eq_some_iff.1 hu
  obtain ⟨hfinished, -, hfinished', -, hroutes, hfd, hactive, hnactive⟩ := of_decide_eq_true hall
  let s₀ : ServedPool Bool := ⟨.init 2, fun _ _ => false⟩
  let s₁ : ServedPool Bool := ⟨t.pool.reset, keptTwo⟩
  let s₂ : ServedPool Bool := ⟨u.pool.reset, fun i =>
    (getTwo.commandsFor t.pool.reset i).foldl keeping.after (keptTwo i)⟩
  have hfoundSet : ∀ y ∈ setTwo.routedKeys, isValidKey y.1 = true → y.2.conn ≠ none := by decide
  have hfoundGet : ∀ y ∈ getTwo.routedKeys, isValidKey y.1 = true → y.2.conn ≠ none := by decide
  have hsockets : ∀ c ∈ (setTwo.dispatch (.init 2)).conns, c.socketFd ≠ 0 := by decide
  have hlength : (setTwo.dispatch (.init 2)).activeConns.length < 2 ^ 32 := by decide
  have hset : keeping.RingServed .keeping firstByte twoRing s₀ ⟨setTwo, t.retCode, t.pool⟩ s₁ := {
    routed := setTwo_routedOn (by decide)
    keys := setTwo_routed.keys
    found := hfoundSet
    sockets := hsockets
    length := hlength
    wait := .run (p := setTwo.dispatch (.init 2)) (by decide) (PollLoop.steps_of_execsIf ht)
      (.inl hfinished)
    served := fun i hi c0 _ => setTwo_serves _ _ hi
    pool_eq := ⟨fun _ => 0, rfl⟩
    memories_eq := fun _ => rfl }
  have hget : keeping.RingServed .keeping firstByte twoRing s₁ ⟨getTwo, u.retCode, u.pool⟩ s₂ := {
    routed := getTwo_routedOn hroutes
    keys := getTwo_routed.keys
    found := hfoundGet
    sockets := hfd
    length := by
      rw [hactive]
      decide
    wait := .run (p := getTwo.dispatch t.pool.reset) (by rw [hnactive]; decide)
      (PollLoop.steps_of_execsIf hu) (.inl hfinished')
    served := fun i hi c0 _ => getTwo_serves _ _ _ (hactive ▸ hi)
    pool_eq := ⟨fun _ => 0, rfl⟩
    memories_eq := fun _ => rfl }
  have hkept : keptTwo (twoRing.owner firstByte (ascii "b")) (ascii "b") = true := by decide
  obtain ⟨hrun, hlive⟩ := ring_one_memory twoRing_ring rfl (.init 2) ((Run.nil.snoc hset).snoc hget)
  obtain ⟨ha, hb⟩ := twoRing_owner
  exact ⟨_, _, s₁, s₂, rfl, rfl, ha, hb, hkept, hrun,
    hlive _ (List.mem_cons_of_mem _ List.mem_cons_self)⟩

end Libmc
