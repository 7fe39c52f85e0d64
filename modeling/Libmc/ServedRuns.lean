import Libmc.OneMemory

/-!
# Requests that are served

A request whose keys have connections can be served: `getConn` finds a live connection for each of
its keys, if the attempts to reconnect succeed (`ConnectionPool.exists_routed`), the loop has a run
to its end (`waitPoll_exists`), and the servers have replied (`KeyService.exists_served`).
-/

namespace Libmc

variable {ι : Type} {take : ι → Connection → Connection} {p : ConnectionPool}
  {c : Connection} {i : ℕ} {srv : Servers} {req : Request} {route : Bytes → ℕ} {V : Type}
  {K : KeyService V} {s : ServedPool V} {op : StorageOp} {exptime : Int64} {noreply : Bool}

/-! ### Live connections -/

/-- An attempt that succeeds when its time has come. -/
theorem Connection.tryReconnect_now (c : Connection) :
    (c.tryReconnect false ⟨c.deadUntil, some 5⟩).alive = true ∧
      (c.socketFd ≠ 0 → (c.tryReconnect false ⟨c.deadUntil, some 5⟩).socketFd ≠ 0) := by
  cases halive : c.alive with
  | true =>
    rw [tryReconnect_of_alive halive]
    exact ⟨halive, id⟩
  | false =>
    unfold tryReconnect attempt
    rw [halive, if_neg Bool.false_ne_true, if_neg Bool.false_ne_true, if_pos le_rfl]
    have hfd : ((5 : ℕ) : ℤ) ≠ 0 := by decide
    exact ⟨rfl, fun _ => hfd⟩

namespace ConnectionPool

/-- No descriptor is 0. -/
def Sockets (p : ConnectionPool) : Prop := ∀ c ∈ p.conns, c.socketFd ≠ 0

theorem Sockets.modifyConn (h : p.Sockets) {f : Connection → Connection}
    (hf : ∀ c, p.conns[i]? = some c → (f c).socketFd ≠ 0) : (p.modifyConn i f).Sockets := by
  intro c hc
  obtain ⟨j, hj⟩ := List.mem_iff_getElem?.1 hc
  rw [modifyConn_conns] at hj
  split_ifs at hj with hij
  · obtain ⟨d, hd, rfl⟩ := Option.map_eq_some_iff.1 hj
    exact hf d (hij ▸ hd)
  · exact h c (List.mem_of_getElem? hj)

theorem exists_live (h : p.Sockets) (hi : i < p.conns.length) :
    ∃ r : Routed, r.conn = some i ∧ r.Live p ∧ (p.getConn r).Sockets := by
  have hc := List.getElem?_eq_getElem hi
  generalize p.conns[i] = c at hc
  refine ⟨{ tried := [(i, ⟨c.deadUntil, some 5⟩)], conn := some i }, rfl, fun j hj => ?_, ?_⟩
  · obtain rfl := Option.some.inj hj
    refine ⟨_, ?_, c.tryReconnect_now.1⟩
    show (p.modifyConn i _).conns[i]? = _
    rw [modifyConn_conns, if_pos rfl, hc]
    rfl
  · refine h.modifyConn fun d hd => ?_
    obtain rfl := Option.some.inj (hc.symm.trans hd)
    exact c.tryReconnect_now.2 (h c (List.mem_of_getElem? hd))

/-- It can find one for each item. -/
theorem exists_routed (key : ι → Bytes) (htake : ∀ x c, (take x c).socketFd = c.socketFd)
    (route : Bytes → ℕ) (items : List ι) (h : p.Sockets)
    (hroute : ∀ x ∈ items, route (key x) < p.conns.length) :
    ∃ routed : List (ι × Routed), routed.map (·.1) = items ∧ p.RoutesLive key take routed ∧
      (∀ y ∈ routed, y.2.conn = some (route (key y.1))) ∧
        (p.dispatchItems key take routed).Sockets := by
  induction items generalizing p with
  | nil => exact ⟨[], rfl, trivial, List.forall_mem_nil _, h⟩
  | cons x items ih =>
    obtain ⟨hx, hitems⟩ := List.forall_mem_cons.1 hroute
    obtain ⟨r, hr, hlive, hconn⟩ := exists_live h hx
    have hsockets : (p.dispatchItem key take (x, r)).Sockets := by
      unfold dispatchItem
      split_ifs
      · exact h
      · dsimp only
        rw [hr]
        refine hconn.modifyConn fun d hd => ?_
        rw [htake]
        exact hconn d (List.mem_of_getElem? hd)
    have hlen : (p.dispatchItem key take (x, r)).conns.length = p.conns.length :=
      (sameActive_dispatchItems key take [(x, r)] p).length
    obtain ⟨routed, hmap, hroutes, hconns, hall⟩ := ih hsockets (hlen ▸ hitems)
    exact ⟨(x, r) :: routed, congrArg (x :: ·) hmap, ⟨fun _ => hlive, hroutes⟩,
      List.forall_mem_cons.2 ⟨hr, hconns⟩, hall⟩

theorem Sockets.activate (h : p.Sockets) {start : Connection → Connection}
    (hstart : ∀ c, (start c).socketFd = c.socketFd) : (p.activate start).Sockets := by
  refine List.forall_mem_map.2 fun c hc => ?_
  rw [hstart]
  exact h c hc

end ConnectionPool

/-! ### Requests -/

theorem Request.length_active (hp : p.Clean) (hroutes : req.RoutesLive p) :
    (req.dispatch p).activeConns.length ≤ p.conns.length := by
  have hsubset : (req.dispatch p).activeConns ⊆ List.range p.conns.length := by
    intro i hi
    obtain ⟨c, hc, -⟩ := req.alive_dispatch hp hroutes hi
    rw [List.mem_range, ← req.dispatch_length p]
    exact (List.getElem?_eq_some_iff.1 hc).1
  have hle := ((req.dispatch_active hp).1.subperm hsubset).length_le
  rwa [List.length_range] at hle

namespace ConnectionPool

variable (hp : Reachable srv.failingRuns p) (h : p.Sockets) (hlen : p.conns.length < 2 ^ 32)
  (route : Bytes → ℕ)

include hp h hlen

theorem exists_storage (op : StorageOp) (exptime : Int64) (noreply : Bool) (items : List StorageItem)
    (hroute : ∀ item ∈ items, route item.key < p.conns.length) :
    ∃ routed, routed.map Prod.fst = items ∧
      srv.steadyRuns.request p (.storage op exptime noreply routed) ∧
        (Request.storage op exptime noreply routed).RoutedBy route := by
  have hsocket : ∀ c : Connection, Connection.Loadable fun d => d.socketFd = c.socketFd := fun c =>
    Connection.loadable_socket fun _ fd _ _ => fd = c.socketFd
  obtain ⟨routed, hmap, hroutes, hconns, hall⟩ := exists_routed StorageItem.key
    (fun x c => (hsocket c).takeStorage op exptime noreply x rfl) route items h hroute
  have hlive : (Request.storage op exptime noreply routed).RoutesLive p := hroutes
  refine ⟨routed, hmap, ⟨⟨hlive, hall.activate fun c => (hsocket c).startCounting rfl⟩, ?_⟩, ?_⟩
  · exact (Request.length_active hp.clean hlive).trans_lt hlen
  · exact ⟨nofun, List.forall_mem_map.2 fun y hy _ => hconns y hy⟩

theorem exists_retrieval (op : RetrievalOp) (keys : List Bytes)
    (hroute : ∀ key ∈ keys, route key < p.conns.length) :
    ∃ routed, routed.map Prod.fst = keys ∧ srv.steadyRuns.request p (.retrieval op routed) ∧
      (Request.retrieval op routed).RoutedBy route := by
  have hsocket : ∀ c : Connection, Connection.Loadable fun d => d.socketFd = c.socketFd := fun c =>
    Connection.loadable_socket fun _ fd _ _ => fd = c.socketFd
  obtain ⟨routed, hmap, hroutes, hconns, hall⟩ := exists_routed id
    (fun x c => (hsocket c).takeRetrieval op x rfl) route keys h hroute
  have hlive : (Request.retrieval op routed).RoutesLive p := hroutes
  refine ⟨routed, hmap, ⟨⟨hlive, hall.activate fun c => (hsocket c).startRetrieval rfl⟩, ?_⟩, ?_⟩
  · exact (Request.length_active hp.clean hlive).trans_lt hlen
  · exact ⟨nofun, fun y hy _ => hconns y hy⟩

end ConnectionPool

/-! ### Servers -/

namespace KeyService

/-- A pool whose connections can be used. -/
structure Usable (srv : Servers) (s : ServedPool V) : Prop where
  reachable : Reachable srv.failingRuns s.pool
  sockets : s.pool.Sockets
  length_lt : s.pool.conns.length < 2 ^ 32

/-- A request is served by servers that have the replies to its commands. -/
theorem exists_served (hs : Usable srv s) (hreq : srv.steadyRuns.request s.pool req)
    (hrouted : req.RoutedBy route)
    (hserves : ∀ i socket n, K.Serves srv i socket n (req.commandsFor s.pool i) (s.memories i)) :
    ∃ x s', x.req = req ∧ K.Served srv route s x s' ∧ Usable srv s' ∧
      s'.pool.conns.length = s.pool.conns.length := by
  obtain ⟨code, p', hwait, hsockets⟩ := waitPoll_exists hs.reachable hreq
  have hserved : K.Served srv route s ⟨req, code, p'⟩ ⟨(req.finish (fun _ => 0) p').reset, fun i =>
      (req.commandsFor s.pool i).foldl K.after (s.memories i)⟩ := {
    request := hreq
    routed := hrouted
    wait := hwait
    served := fun i _ _ _ => hserves i _ _
    pool_eq := ⟨_, rfl⟩
    memories_eq := fun _ => rfl }
  have hfinish : req.finish (fun _ => 0) p' = p' := by
    cases req with
    | broadcast op answers => exact absurd rfl (hrouted.keys op answers)
    | _ => rfl
  have hreset : p'.reset.Sockets :=
    ConnectionPool.forall_foldl_modifyConn (f := fun _ => Connection.reset) id (fun _ _ hc => hc)
      p'.activeConns hsockets
  have hlen : p'.reset.conns.length = s.pool.conns.length :=
    (ConnectionPool.sameActive_foldl _ _ _ p').length.trans
      (hwait.frame.length.trans (req.dispatch_length s.pool))
  exact ⟨_, _, rfl, hserved, ⟨hserved.reachable hs.reachable, hfinish.symm ▸ hreset,
    (congrArg (·.reset.conns.length) hfinish).trans hlen ▸ hs.length_lt⟩,
    (congrArg (·.reset.conns.length) hfinish).trans hlen⟩

end KeyService

end Libmc
