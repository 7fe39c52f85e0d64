import Libmc.Ketama
import Libmc.PollSockets

/-!
# Keys go to live connections

`getConn` has called `tryReconnect(false)` on the connection that it returns, and that call has
succeeded (`KetamaSelector.getConn_tried`). So what it returns is alive (`live_route`), and every
connection that a command makes active is alive when its loop starts, since nothing closes a
connection while items are dispatched (`Request.alive_dispatch`).
-/

namespace Libmc

namespace KetamaSelector

variable {σ : Type} {tryReconnect : ℕ → σ → Bool × σ} {hashMd5 : Bytes → ℕ} {ks : KetamaSelector}
  {key : Bytes} {originConn maxIter it it' i : ℕ} {s s' : σ}

theorem failover_tried (h : ks.failover tryReconnect originConn maxIter it s = (it', s')) :
    it' = ks.endIt ∨ ∃ t, tryReconnect (ks.connAt it') t = (true, s') := by
  induction maxIter generalizing it s with
  | zero => exact .inl (Prod.mk.inj h).1.symm
  | succ maxIter ih =>
    unfold failover at h
    dsimp only at h
    split_ifs at h with hne
    · rcases htry : tryReconnect (ks.connAt (ks.wrap (it + 1))) s with ⟨alive, t⟩
      rw [htry] at h
      cases alive with
      | true =>
        obtain ⟨rfl, rfl⟩ := Prod.mk.inj h
        exact .inr ⟨s, htry⟩
      | false => exact ih h
    · exact ih h

/-- The last connection that is tried is the one that is returned. -/
theorem getConn_tried (h : ks.getConn tryReconnect hashMd5 key true s = (some i, s')) :
    ∃ t, tryReconnect i t = (true, s') := by
  have hit : ∀ it, ks.getServerIt tryReconnect hashMd5 key true s = (it, s') →
      it = ks.endIt ∨ ∃ t, tryReconnect (ks.connAt it) t = (true, s') := by
    intro it hit
    unfold getServerIt at hit
    by_cases h0 : ks.nServers = 0
    · rw [if_pos h0] at hit
      exact .inl (Prod.mk.inj hit).1.symm
    · rw [if_neg h0] at hit
      dsimp only at hit
      rw [if_pos rfl] at hit
      rcases htry : tryReconnect (ks.connAt (ks.primaryIt hashMd5 key)) s with ⟨alive, t⟩
      rw [htry] at hit
      cases alive with
      | true =>
        obtain ⟨rfl, rfl⟩ := Prod.mk.inj hit
        exact .inr ⟨s, htry⟩
      | false =>
        dsimp only at hit
        split_ifs at hit
        · exact failover_tried hit
        · exact .inl (Prod.mk.inj hit).1.symm
  unfold getConn at h
  rcases hserver : ks.getServerIt tryReconnect hashMd5 key true s with ⟨it, t⟩
  rw [hserver] at h
  dsimp only at h
  obtain ⟨hconn, rfl⟩ := Prod.mk.inj h
  split_ifs at hconn with hend
  obtain rfl := Option.some.inj hconn
  exact (hit it hserver).resolve_left hend

end KetamaSelector

/-! ### A call of `getConn` on a pool -/

/-- What `getConn` returns is alive. -/
def Routed.Live (p : ConnectionPool) (r : Routed) : Prop :=
  ∀ i, r.conn = some i → ∃ c, (p.getConn r).conns[i]? = some c ∧ c.alive = true

namespace ConnectionPool

/-- `tryReconnect(false)` in a call of `getConn`, which keeps a record of what it has tried. -/
def retry (answers : ℕ → Reconnect) (p : ConnectionPool) (i : ℕ) (tried : List (ℕ × Reconnect)) :
    Bool × List (ℕ × Reconnect) :=
  let tried := tried ++ [(i, answers tried.length)]
  ((p.getConn { tried, conn := some i }).conns[i]?.any (·.alive), tried)

/-- Where `getConn` sends a key. -/
def route (hashMd5 : Bytes → ℕ) (ks : KetamaSelector) (key : Bytes) (answers : ℕ → Reconnect)
    (p : ConnectionPool) : Routed :=
  let (conn, tried) := ks.getConn (p.retry answers) hashMd5 key true []
  { tried, conn }

/-- **Keys go to live connections.** -/
theorem live_route (hashMd5 : Bytes → ℕ) (ks : KetamaSelector) (key : Bytes)
    (answers : ℕ → Reconnect) (p : ConnectionPool) : (p.route hashMd5 ks key answers).Live p := by
  intro i hi
  rcases h : ks.getConn (p.retry answers) hashMd5 key true [] with ⟨conn, tried⟩
  have hroute : p.route hashMd5 ks key answers = { tried, conn } := by
    unfold route
    rw [h]
  rw [hroute] at hi ⊢
  obtain rfl : conn = some i := hi
  obtain ⟨t, htry⟩ := KetamaSelector.getConn_tried h
  obtain ⟨halive, rfl⟩ := Prod.mk.inj htry
  exact (Option.any_eq_true _ _).1 halive

end ConnectionPool

/-! ### The connections that a command makes active -/

variable {ι : Type} {key : ι → Bytes} {take : ι → Connection → Connection} {p : ConnectionPool}
  {i : ℕ} {c : Connection}

/-- In each round of the loop over the items `getConn` returns a live connection. -/
def ConnectionPool.RoutesLive (key : ι → Bytes) (take : ι → Connection → Connection) :
    List (ι × Routed) → ConnectionPool → Prop
  | [], _ => True
  | item :: items, p => (isValidKey (key item.1) → item.2.Live p) ∧
      RoutesLive key take items (p.dispatchItem key take item)

/-- In each call of a command `getConn` returns a live connection. -/
def Request.RoutesLive (p : ConnectionPool) : Request → Prop
  | .storage op exptime noreply items =>
    ConnectionPool.RoutesLive (·.key) (Connection.takeStorage op exptime noreply) items p
  | .retrieval op keys => ConnectionPool.RoutesLive id (Connection.takeRetrieval op) keys p
  | .deletion noreply keys => ConnectionPool.RoutesLive id (Connection.takeDeletion noreply) keys p
  | .touch exptime noreply keys =>
    ConnectionPool.RoutesLive id (Connection.takeTouch exptime noreply) keys p
  | .incrDecr _ _ _ key => isValidKey key.1 → key.2.Live p
  | .broadcast _ _ => True

namespace Connection

/-- A connection that has got an item is alive. -/
def CountedAlive (c : Connection) : Prop := 0 < c.counter → c.alive = true

theorem CountedAlive.tryReconnect (h : c.CountedAlive) (checkRetries : Bool) (r : Reconnect) :
    (c.tryReconnect checkRetries r).CountedAlive := by
  intro hpos
  rw [(sameWork_tryReconnect _ _ _).counter_eq] at hpos
  rw [tryReconnect_of_alive (h hpos)]
  exact h hpos

end Connection

namespace ConnectionPool

theorem countedAlive_getConn (h : ∀ c ∈ p.conns, c.CountedAlive) (r : Routed) :
    ∀ c ∈ (p.getConn r).conns, c.CountedAlive :=
  forall_foldl_modifyConn Prod.fst (fun t _ hc => hc.tryReconnect false t.2) r.tried h

theorem countedAlive_modifyConn {f : Connection → Connection}
    (h : ∀ c ∈ p.conns, c.CountedAlive) (hf : ∀ c, (f c).alive = c.alive)
    (hi : ∀ c, p.conns[i]? = some c → c.alive = true) :
    ∀ c ∈ (p.modifyConn i f).conns, c.CountedAlive := by
  intro c hc
  obtain ⟨j, hj⟩ := List.mem_iff_getElem?.1 hc
  rw [modifyConn_conns] at hj
  split_ifs at hj with hij
  · obtain ⟨d, hd, rfl⟩ := Option.map_eq_some_iff.1 hj
    subst hij
    exact fun _ => (hf d).trans (hi d hd)
  · exact h c (List.mem_of_getElem? hj)

theorem countedAlive_dispatchItems (htake : ∀ x c, (take x c).alive = c.alive)
    {items : List (ι × Routed)} (hroutes : RoutesLive key take items p)
    (h : ∀ c ∈ p.conns, c.CountedAlive) :
    ∀ c ∈ (p.dispatchItems key take items).conns, c.CountedAlive := by
  induction items generalizing p with
  | nil => exact h
  | cons item items ih =>
    obtain ⟨hlive, hroutes⟩ := hroutes
    refine ih hroutes ?_
    have hconn := countedAlive_getConn h item.2
    unfold dispatchItem
    split_ifs with hkey
    · exact h
    · dsimp only
      rcases hitem : item.2.conn with _ | i
      · exact hconn
      · refine countedAlive_modifyConn hconn (htake item.1) fun c hc => ?_
        obtain ⟨d, hd, halive⟩ := hlive (by simpa using hkey) i hitem
        obtain rfl := Option.some.inj (hc.symm.trans hd)
        exact halive

theorem alive_activate {start : Connection → Connection} (hstart : ∀ c, (start c).alive = c.alive)
    (h : ∀ c ∈ p.conns, c.CountedAlive) (hactive : p.activeConns = [])
    (hi : i ∈ (p.activate start).activeConns) :
    ∃ c, (p.activate start).conns[i]? = some c ∧ c.alive = true := by
  obtain ⟨d, hd, hpos⟩ := (mem_activate hactive).1 hi
  refine ⟨start d, ?_, (hstart d).trans (h d (List.mem_of_getElem? hd) hpos)⟩
  rw [activate_conns, hd]
  rfl

theorem Clean.countedAlive (h : p.Clean) : ∀ c ∈ p.conns, c.CountedAlive := by
  intro c hc hpos
  rw [(h.conns c hc).counter] at hpos
  cases hpos

end ConnectionPool

/-- **Active connections are alive** when a command has been dispatched. -/
theorem Request.alive_dispatch (hp : p.Clean) {req : Request} (hroutes : req.RoutesLive p)
    (hi : i ∈ (req.dispatch p).activeConns) :
    ∃ c, (req.dispatch p).conns[i]? = some c ∧ c.alive = true := by
  have hitems : ∀ {ι : Type} {key : ι → Bytes} {take : ι → Connection → Connection}
      {start : Connection → Connection} {items : List (ι × Routed)},
      (∀ x c, (take x c).alive = c.alive) → (∀ c, (start c).alive = c.alive) →
      ConnectionPool.RoutesLive key take items p →
      i ∈ ((p.dispatchItems key take items).activate start).activeConns →
      ∃ c, ((p.dispatchItems key take items).activate start).conns[i]? = some c ∧ c.alive = true := by
    intro ι key take start items htake hstart hroutes hi
    exact ConnectionPool.alive_activate hstart
      (ConnectionPool.countedAlive_dispatchItems htake hroutes hp.countedAlive)
      ((ConnectionPool.sameActive_dispatchItems key take items p).activeConns.trans hp.activeConns) hi
  have halive : ∀ c : Connection, Connection.Loadable fun d => d.alive = c.alive := fun c =>
    Connection.loadable_socket fun alive _ _ _ => alive = c.alive
  cases req with
  | storage op exptime noreply items =>
    exact hitems (fun x c => (halive c).takeStorage op exptime noreply x rfl)
      (fun c => (halive c).startCounting rfl) hroutes hi
  | retrieval op keys =>
    exact hitems (fun x c => (halive c).takeRetrieval op x rfl)
      (fun c => (halive c).startRetrieval rfl) hroutes hi
  | deletion noreply keys =>
    exact hitems (fun x c => (halive c).takeDeletion noreply x rfl)
      (fun c => (halive c).startCounting rfl) hroutes hi
  | touch exptime noreply keys =>
    exact hitems (fun x c => (halive c).takeTouch exptime noreply x rfl)
      (fun c => (halive c).startCounting rfl) hroutes hi
  | incrDecr op delta noreply key =>
    show ∃ c, (p.dispatchIncrDecr op delta noreply key).conns[i]? = some c ∧ c.alive = true
    change i ∈ (p.dispatchIncrDecr op delta noreply key).activeConns at hi
    unfold ConnectionPool.dispatchIncrDecr at hi ⊢
    split_ifs at hi ⊢ with hkey
    · simp [hp.activeConns] at hi
    · have hactive : (p.getConn key.2).activeConns = [] :=
        (ConnectionPool.sameActive_foldl _ _ _ p).activeConns.trans hp.activeConns
      rcases hconn : key.2.conn with _ | j
      · simp [hconn, hactive] at hi
      · obtain rfl : i = j := by simpa [hconn, hactive, ConnectionPool.modifyConn] using hi
        obtain ⟨d, hd, hlive⟩ := hroutes (by simpa using hkey) i hconn
        refine ⟨((d.takeIncrDecr op delta noreply key.1).setParserMode .counting).expectReplies, ?_,
          ((halive d).takeIncrDecr op delta noreply key.1 rfl).trans hlive⟩
        simp only [ConnectionPool.modifyConn_conns, if_true, hd, Option.map_some]
  | broadcast op answers =>
    change i ∈ p.activeConns ++ List.filter _ _ at hi
    rw [hp.activeConns, List.nil_append, List.mem_filter] at hi
    exact (Option.any_eq_true _ _).1 hi.2

end Libmc
