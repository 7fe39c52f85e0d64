import Libmc.Failover
import Libmc.ReplacedServers
import Libmc.Routing

/-!
# The server of a key

`getServerAddressByKey` names the server that owns a key, `getRealtimeServerAddressByKey` the one that
a command with the key is sent to now: the first server on the ring that can be reached
(`getConn_eq_run`). As long as no connection may be tried again, this does not change, and neither
does the client when it is asked again (`getRealtimeServerAddressByKey_again`).
-/

namespace Libmc

namespace KetamaSelector

open Attempts

variable {σ : Type} {tryReconnect : ℕ → σ → Bool × σ} {hashMd5 : Bytes → ℕ} {ks : KetamaSelector}
  {key : Bytes} {originConn n it : ℕ} {s : σ}

/-! ### The connections of a key -/

/-- A ring that has a point if there are servers. -/
def Ring (ks : KetamaSelector) : Prop := ks.nServers ≠ 0 → 0 < ks.endIt

/-- The connection that owns a key. -/
def owner (hashMd5 : Bytes → ℕ) (ks : KetamaSelector) (key : Bytes) : ℕ :=
  ks.connAt (ks.primaryIt hashMd5 key)

/-- The connections to which a key may go, in the order in which they are tried. -/
def candidates (hashMd5 : Bytes → ℕ) (ks : KetamaSelector) (key : Bytes) : List ℕ :=
  if ks.nServers = 0 then []
  else ks.owner hashMd5 key ::
    if ks.useFailover then (ks.others (ks.primaryIt hashMd5 key)).map ks.connAt else []

/-- What `getConn` makes of an iterator. -/
def connOf (ks : KetamaSelector) (it : ℕ) : Option ℕ :=
  if it = ks.endIt then none else some (ks.connAt it)

theorem failover_eq_run (hit : it < ks.endIt) (s : σ) :
    Prod.map ks.connOf id (ks.failover tryReconnect originConn n it s) = run tryReconnect
      (((ks.passed n it).filter fun p => ks.connAt p ≠ originConn).map ks.connAt) s := by
  induction n generalizing it s with
  | zero => exact Prod.ext (if_pos rfl) rfl
  | succ n ih =>
    have hlt : ks.wrap (it + 1) < ks.endIt := by
      rw [wrap_succ hit]
      exact Nat.mod_lt _ (by omega)
    unfold failover
    dsimp only
    rw [passed]
    split_ifs with hne
    · rw [List.filter_cons_of_pos (by simpa using hne), List.map_cons]
      unfold run
      rcases tryReconnect (ks.connAt (ks.wrap (it + 1))) s with ⟨_ | _, t⟩
      · exact ih hlt t
      · exact Prod.ext (if_neg hlt.ne) rfl
    · rw [List.filter_cons_of_neg (by simpa using hne)]
      exact ih hlt s

theorem getServerIt_eq (h0 : ks.nServers ≠ 0) (s : σ) :
    ks.getServerIt tryReconnect hashMd5 key true s =
      match tryReconnect (ks.owner hashMd5 key) s with
      | (true, s) => (ks.primaryIt hashMd5 key, s)
      | (false, s) =>
        if ks.useFailover then failover tryReconnect ks (ks.owner hashMd5 key) ks.endIt
          (ks.primaryIt hashMd5 key) s
        else (ks.endIt, s) := by
  unfold getServerIt
  rw [if_neg h0]
  rfl

/-- **`getConn`** tries the connections of the key in their order. -/
theorem getConn_eq_run (hring : ks.Ring) (s : σ) : ks.getConn tryReconnect hashMd5 key true s =
    run tryReconnect (ks.candidates hashMd5 key) s := by
  show Prod.map ks.connOf id (ks.getServerIt tryReconnect hashMd5 key true s) = _
  unfold candidates
  by_cases h0 : ks.nServers = 0
  · rw [if_pos h0, show ks.getServerIt tryReconnect hashMd5 key true s = (ks.endIt, s) from if_pos h0]
    exact Prod.ext (if_pos rfl) rfl
  · have hlt : ks.primaryIt hashMd5 key < ks.endIt := primaryIt_lt (hring h0) hashMd5 key
    rw [if_neg h0, getServerIt_eq h0]
    unfold run
    rcases tryReconnect (ks.owner hashMd5 key) s with ⟨_ | _, t⟩
    · cases hfailover : ks.useFailover with
      | false => exact Prod.ext (if_pos rfl) rfl
      | true =>
        have hrun : Prod.map ks.connOf id (ks.failover tryReconnect (ks.owner hashMd5 key) ks.endIt
            (ks.primaryIt hashMd5 key) t) = _ := failover_eq_run hlt t
        rw [passed_endIt hlt] at hrun
        exact hrun
    · exact Prod.ext (if_neg hlt.ne) rfl

end KetamaSelector

/-! ### Calls of `getConn` -/

namespace Connection

theorem tryReconnect_of_waiting {c : Connection} {r : Reconnect}
    (h : c.alive = false → r.now < c.deadUntil) : c.tryReconnect false r = c := by
  cases halive : c.alive with
  | true => exact tryReconnect_of_alive halive false r
  | false =>
    unfold tryReconnect attempt
    rw [if_neg (by simp [halive]), if_neg (by simp), if_neg (h halive).not_ge]

end Connection

namespace ConnectionPool

variable {hashMd5 : Bytes → ℕ} {ks : KetamaSelector} {key : Bytes} {answers : ℕ → Reconnect}
  {p : ConnectionPool} {i j : ℕ}

/-- Whether a connection is alive. -/
def isUp (p : ConnectionPool) (i : ℕ) : Bool := p.conns[i]?.any (·.alive)

/-- No dead connection is to be tried at any of these times. -/
def Waiting (answers : ℕ → Reconnect) (p : ConnectionPool) : Prop :=
  ∀ k, ∀ c ∈ p.conns, c.alive = false → (answers k).now < c.deadUntil

theorem getConn_snoc (p : ConnectionPool) (tried : List (ℕ × Reconnect)) (i : ℕ) (r : Reconnect)
    (conn : Option ℕ) : p.getConn { tried := tried ++ [(i, r)], conn } =
      (p.getConn { tried, conn }).modifyConn i (Connection.tryReconnect false r) :=
  List.foldl_append

theorem settles_retry (p : ConnectionPool) (answers : ℕ → Reconnect) :
    Attempts.Settles (p.retry answers) fun tried => (p.getConn { tried, conn := none }).isUp where
  result _ _ := rfl
  keeps i tried h := by
    obtain ⟨c, hc, halive⟩ := (Option.any_eq_true _ _).1 h
    show (p.getConn { tried := tried ++ [(i, answers tried.length)], conn := none }).isUp i = true
    rw [getConn_snoc]
    unfold isUp
    rw [modifyConn_conns, if_pos rfl, hc]
    exact (congrArg Connection.alive (Connection.tryReconnect_of_alive halive false _)).trans halive
  others i j tried h := by
    show (p.getConn { tried := tried ++ [(i, answers tried.length)], conn := none }).isUp j = _
    rw [getConn_snoc]
    unfold isUp
    rw [modifyConn_conns, if_neg h.symm]

theorem modifyConn_same {f : Connection → Connection} (h : ∀ c, p.conns[i]? = some c → f c = c) :
    p.modifyConn i f = p := by
  have hconns : p.conns.modify i f = p.conns := by
    refine List.ext_getElem? fun j => ?_
    have hconn := modifyConn_conns i f p j
    rw [show (p.modifyConn i f).conns = p.conns.modify i f from rfl] at hconn
    rw [hconn]
    split_ifs with hij
    · subst hij
      rcases hi : p.conns[i]? with _ | c
      · rfl
      · exact congrArg some (h c hi)
    · rfl
  unfold modifyConn
  rw [hconns]

/-- `getConn` changes the connections only. -/
theorem getConn_eq (p : ConnectionPool) (r : Routed) :
    p.getConn r = { p with conns := (p.getConn r).conns } := by
  unfold getConn
  induction r.tried generalizing p with
  | nil => rfl
  | cons t tried ih => exact ih (p.modifyConn t.1 (Connection.tryReconnect false t.2))

/-- **Where a key goes**: to the first of its connections that is alive after the call. -/
theorem route_conn (hring : ks.Ring) : (p.route hashMd5 ks key answers).conn =
    (ks.candidates hashMd5 key).find? (p.getConn (p.route hashMd5 ks key answers)).isUp := by
  rcases h : ks.getConn (p.retry answers) hashMd5 key true [] with ⟨conn, tried⟩
  have hroute : p.route hashMd5 ks key answers = { tried, conn } := by
    unfold route
    rw [h]
  rw [KetamaSelector.getConn_eq_run hring] at h
  rw [hroute]
  exact (settles_retry p answers).run_eq_find h

theorem route_waiting (hring : ks.Ring) (h : p.Waiting answers) :
    (p.route hashMd5 ks key answers).conn = (ks.candidates hashMd5 key).find? p.isUp ∧
      p.getConn (p.route hashMd5 ks key answers) = p := by
  rcases hconn : ks.getConn (p.retry answers) hashMd5 key true [] with ⟨conn, tried⟩
  have hroute : p.route hashMd5 ks key answers = { tried, conn } := by
    unfold route
    rw [hconn]
  rw [KetamaSelector.getConn_eq_run hring] at hconn
  rw [hroute]
  refine Attempts.run_eq_find (I := fun tried => p.getConn { tried, conn } = p) ?_ rfl hconn
  intro i tried hsame
  have hnext : p.getConn { tried := tried ++ [(i, answers tried.length)], conn } = p := by
    rw [getConn_snoc, hsame]
    exact modifyConn_same fun c hc =>
      Connection.tryReconnect_of_waiting (h _ c (List.mem_of_getElem? hc))
  exact ⟨congrArg (isUp · i) hnext, hnext⟩

theorem route_of_attempt (hring : ks.Ring) (h0 : ks.nServers ≠ 0)
    (hup : (p.getConn ⟨[(ks.owner hashMd5 key, answers 0)], some (ks.owner hashMd5 key)⟩).isUp
      (ks.owner hashMd5 key) = true) : p.route hashMd5 ks key answers =
        ⟨[(ks.owner hashMd5 key, answers 0)], some (ks.owner hashMd5 key)⟩ := by
  have hattempt : p.retry answers (ks.owner hashMd5 key) [] =
      (true, [(ks.owner hashMd5 key, answers 0)]) := Prod.ext hup rfl
  unfold route
  rw [KetamaSelector.getConn_eq_run hring]
  unfold KetamaSelector.candidates
  rw [if_neg h0]
  unfold Attempts.run
  rw [hattempt]

theorem route_of_up (hring : ks.Ring) (h0 : ks.nServers ≠ 0)
    (hup : p.isUp (ks.owner hashMd5 key) = true) :
    (p.route hashMd5 ks key answers).conn = some (ks.owner hashMd5 key) ∧
      p.getConn (p.route hashMd5 ks key answers) = p := by
  obtain ⟨c, hc, halive⟩ := (Option.any_eq_true _ _).1 hup
  have hsame : p.getConn ⟨[(ks.owner hashMd5 key, answers 0)], some (ks.owner hashMd5 key)⟩ = p := by
    refine modifyConn_same fun d hd => ?_
    obtain rfl := Option.some.inj (hc.symm.trans hd)
    exact Connection.tryReconnect_of_alive halive false _
  rw [route_of_attempt hring h0 ((congrArg (isUp · _) hsame).trans hup)]
  exact ⟨rfl, hsame⟩

end ConnectionPool

namespace Client

variable {hash : HashFunctionOption → Bytes → ℕ} {c : Client} {key : Bytes}
  {answers : ℕ → Reconnect}

/-- `ConnectionPool::getServerAddressByKey`. -/
def getServerAddressByKey (hash : HashFunctionOption → Bytes → ℕ) (key : Bytes) (c : Client) :
    Option Bytes := (c.getConn hash key).bind fun i => c.conns[i]?.map (·.name)

/-- `ConnectionPool::getRealtimeServerAddressByKey`, and the client after it. -/
def getRealtimeServerAddressByKey (hash : HashFunctionOption → Bytes → ℕ) (key : Bytes)
    (answers : ℕ → Reconnect) (c : Client) : Option Bytes × Client :=
  let r := c.pool.route (hash .md5) c.connSelector key answers
  (r.conn.bind fun i => c.conns[i]?.map (·.name), c.withPool (c.pool.getConn r))

/-- A ring of as many servers, each with a point. -/
structure RingOf (n : ℕ) (ks : KetamaSelector) : Prop where
  nServers : ks.nServers = n
  length : ks.continuum.length = n * KetamaSelector.pointerPerServer
  point : ∀ i < n, ∃ q ∈ ks.continuum, q.connIdx = i

theorem RingOf.ring {n : ℕ} {ks : KetamaSelector} (h : RingOf n ks) : ks.Ring := by
  intro h0
  show 0 < ks.continuum.length
  rw [h.length, ← h.nServers]
  exact Nat.mul_pos (Nat.pos_of_ne_zero h0) (by decide)

theorem ringOf_addServers (hashMd5 : Bytes → ℕ) (ks : KetamaSelector) (l : List Server) :
    RingOf l.length (KetamaSelector.addServers hashMd5 ks.reset l) where
  nServers := rfl
  length := KetamaSelector.continuum_length hashMd5 ks l
  point i hi := by
    have hpoint : (⟨hashMd5 (KetamaSelector.sortHost l[i] 0), i⟩ : ContinuumItem) ∈
        KetamaSelector.points hashMd5 l :=
      KetamaSelector.mem_points.2 ⟨l[i], 0, List.getElem?_eq_getElem hi, by decide, rfl⟩
    exact ⟨_, (KetamaSelector.continuum_perm hashMd5 ks l).mem_iff.2 hpoint, rfl⟩

theorem length_pool (c : Client) : c.pool.conns.length = c.conns.length := List.length_map _

theorem RingOf.withPool {ks : KetamaSelector} {p : ConnectionPool} (h : RingOf c.conns.length ks)
    (hlen : p.conns.length = c.conns.length) : RingOf (c.withPool p).conns.length ks := by
  have hconns : (c.withPool p).conns.length = c.conns.length := by
    unfold Client.withPool
    rw [List.length_zipWith, hlen, Nat.min_self]
  rwa [hconns]

theorem Reachable.ringOf (h : Reachable hash c) : RingOf c.conns.length c.connSelector := by
  induction h with
  | new => exact ⟨rfl, rfl, fun i hi => absurd hi (by simp)⟩
  | @init c _ aliases l ih =>
    have hring := ringOf_addServers (hash .md5) c.connSelector
      ((l.map fun s => ServerConnection.init (argument aliases s) {}).map ServerConnection.server)
    rw [List.length_map] at hring
    exact hring
  | @config c _ s ih =>
    have hlen : ∀ f : ServerConnection → ServerConnection, (c.conns.map f).length = c.conns.length :=
      fun f => List.length_map f
    cases s with
    | pollTimeout => exact ih
    | connectTimeout => exact (hlen _).symm ▸ ih
    | retryTimeout => exact (hlen _).symm ▸ ih
    | hashFunction => exact ⟨ih.nServers, ih.length, ih.point⟩
    | maxRetries => exact (hlen _).symm ▸ ih
    | setFailover => exact ⟨ih.nServers, ih.length, ih.point⟩
  | @lookup c _ r ih =>
    refine ih.withPool ?_
    rw [← length_pool c]
    exact (ConnectionPool.sameActive_foldl _ _ _ c.pool).length
  | @command c p code _ req hwait times ih =>
    refine ih.withPool ?_
    rw [← length_pool c, ← req.dispatch_length c.pool,
      ← (hwait.frame.trans (req.finish_frame times p)).length]
    exact (ConnectionPool.sameActive_foldl _ _ _ _).length
  | @updateServers c c' aliases l now rv _ hupdate ih =>
    by_cases hrv : rv ≤ 0
    · obtain ⟨hlen, hselector, hconns⟩ := updateServers_accepted hupdate hrv
      rw [hselector, hconns, List.length_zipWith, List.length_map, ← hlen, Nat.min_self]
      exact ih
    · rw [updateServers_same hupdate (by omega)]
      exact ih

/-! ### The address of a key -/

theorem length_getConn (c : Client) (r : Routed) :
    (c.pool.getConn r).conns.length = c.conns.length :=
  (ConnectionPool.sameActive_foldl _ _ _ c.pool).length.trans (length_pool c)

theorem pool_withPool (c : Client) (r : Routed) :
    (c.withPool (c.pool.getConn r)).pool = c.pool.getConn r := by
  have hconns : (c.withPool (c.pool.getConn r)).conns.map (·.conn) = (c.pool.getConn r).conns := by
    have hzip : (c.conns.zip (c.pool.getConn r).conns).map Prod.snd = (c.pool.getConn r).conns :=
      List.map_snd_zip (length_getConn c r).le
    unfold List.zip at hzip
    show (List.zipWith _ c.conns (c.pool.getConn r).conns).map _ = _
    rw [List.map_zipWith] at hzip ⊢
    exact hzip
  have hpool : (c.withPool (c.pool.getConn r)).pool = { c.pool with
      conns := (c.withPool (c.pool.getConn r)).conns.map (·.conn) } := rfl
  rw [hpool, hconns]
  exact (ConnectionPool.getConn_eq c.pool r).symm

theorem withPool_pool (c : Client) : c.withPool c.pool = c := by
  have hconns : List.zipWith (fun e conn => ({ e with conn } : ServerConnection)) c.conns
      (c.conns.map (·.conn)) = c.conns := by
    rw [List.zipWith_map_right, List.zipWith_self]
    exact List.map_id c.conns
  exact congrArg (fun conns => { c with conns }) hconns

theorem name_withPool (c : Client) (r : Routed) (i : ℕ) :
    (c.withPool (c.pool.getConn r)).conns[i]?.map (·.name) = c.conns[i]?.map (·.name) := by
  have hnames : (c.withPool (c.pool.getConn r)).conns.map (·.name) = c.conns.map (·.name) := by
    have hzip : (c.conns.zip (c.pool.getConn r).conns).map Prod.fst = c.conns :=
      List.map_fst_zip (length_getConn c r).ge
    have hname := congrArg (List.map ServerConnection.name) hzip
    unfold List.zip at hname
    show (List.zipWith _ c.conns (c.pool.getConn r).conns).map _ = _
    rw [List.map_zipWith, List.map_zipWith] at hname
    rw [List.map_zipWith]
    exact hname
  rw [← List.getElem?_map, hnames, List.getElem?_map]

/-- With failover every connection may be tried for every key. -/
theorem RingOf.mem_candidates {n i : ℕ} {ks : KetamaSelector} (h : RingOf n ks) (hi : i < n)
    (hfailover : ks.useFailover = true) (hashMd5 : Bytes → ℕ) (key : Bytes) :
    i ∈ ks.candidates hashMd5 key := by
  have h0 : ks.nServers ≠ 0 := by
    rw [h.nServers]
    omega
  unfold KetamaSelector.candidates
  rw [if_neg h0, if_pos hfailover]
  by_cases howner : i = ks.owner hashMd5 key
  · exact howner ▸ List.mem_cons_self
  · obtain ⟨q, hq, rfl⟩ := h.point i hi
    obtain ⟨it, hit⟩ := List.mem_iff_getElem?.1 hq
    have hconn : ks.connAt it = q.connIdx := by
      unfold KetamaSelector.connAt
      rw [hit]
      rfl
    refine List.mem_cons_of_mem _ (List.mem_map.2 ⟨it, KetamaSelector.mem_others.2 ⟨?_, ?_⟩, hconn⟩)
    · exact (List.getElem?_eq_some_iff.1 hit).1
    · rw [hconn]
      exact howner

/-- The connection that owns a key is the one that `getServerAddressByKey` names. -/
theorem getConn_eq_owner (hring : c.connSelector.Ring) (h0 : c.connSelector.nServers ≠ 0) :
    c.getConn hash key = some (c.connSelector.owner (hash .md5) key) := by
  have hlt := KetamaSelector.primaryIt_lt (hring h0) (hash .md5) key
  have hit : c.connSelector.getServerIt (fun _ (s : Unit) => (true, s)) (hash .md5) key false () =
      (c.connSelector.primaryIt (hash .md5) key, ()) := if_neg h0
  unfold getConn KetamaSelector.getConn
  rw [hit]
  exact if_neg hlt.ne

theorem isUp_pool (c : Client) (i : ℕ) : c.pool.isUp i = c.conns[i]?.any (·.conn.alive) := by
  unfold ConnectionPool.isUp
  rw [show c.pool.conns = c.conns.map (·.conn) from rfl, List.getElem?_map, Option.any_map]

section

variable (h : Reachable hash c)

include h

theorem exists_realtime {i : ℕ}
    (hi : (c.pool.route (hash .md5) c.connSelector key answers).conn = some i) :
    ∃ e, (c.getRealtimeServerAddressByKey hash key answers).2.conns[i]? = some e ∧
      e.conn.alive = true := by
  have hup := List.find?_some ((ConnectionPool.route_conn h.ringOf.ring).symm.trans hi)
  rw [← pool_withPool, isUp_pool] at hup
  exact (Option.any_eq_true _ _).1 hup

theorem realtime_again {answers' : ℕ → Reconnect}
    (hwaiting : (c.getRealtimeServerAddressByKey hash key answers).2.pool.Waiting answers') :
    let c' := (c.getRealtimeServerAddressByKey hash key answers).2
    (c'.pool.route (hash .md5) c'.connSelector key answers').conn =
        (c.pool.route (hash .md5) c.connSelector key answers).conn ∧
      c'.getRealtimeServerAddressByKey hash key answers' =
        c.getRealtimeServerAddressByKey hash key answers := by
  intro c'
  have hpool : c'.pool = c.pool.getConn (c.pool.route (hash .md5) c.connSelector key answers) :=
    c.pool_withPool _
  obtain ⟨hsame, hkept⟩ : (c'.pool.route (hash .md5) c'.connSelector key answers').conn = _ ∧
      c'.pool.getConn (c'.pool.route (hash .md5) c'.connSelector key answers') = c'.pool :=
    ConnectionPool.route_waiting h.ringOf.ring hwaiting
  have hroute : (c'.pool.route (hash .md5) c'.connSelector key answers').conn =
      (c.pool.route (hash .md5) c.connSelector key answers).conn := by
    rw [hsame, ConnectionPool.route_conn h.ringOf.ring, hpool]
    rfl
  refine ⟨hroute, Prod.ext ?_ ?_⟩
  · show (c'.pool.route (hash .md5) c'.connSelector key answers').conn.bind _ = Option.bind _ _
    rw [hroute]
    exact congrArg _ (funext (c.name_withPool _))
  · show c'.withPool (c'.pool.getConn _) = c'
    rw [hkept]
    exact c'.withPool_pool

theorem realtime_of_up (hup : c.pool.isUp (c.connSelector.owner (hash .md5) key) = true) :
    c.getRealtimeServerAddressByKey hash key answers = (c.getServerAddressByKey hash key, c) := by
  have hlt : c.connSelector.owner (hash .md5) key < c.conns.length := by
    rw [isUp_pool] at hup
    obtain ⟨e, he, -⟩ := (Option.any_eq_true _ _).1 hup
    exact (List.getElem?_eq_some_iff.1 he).1
  have h0 : c.connSelector.nServers ≠ 0 := by
    rw [h.ringOf.nServers]
    omega
  obtain ⟨howner, hkept⟩ : (c.pool.route (hash .md5) c.connSelector key answers).conn = _ ∧
      c.pool.getConn (c.pool.route (hash .md5) c.connSelector key answers) = c.pool :=
    ConnectionPool.route_of_up h.ringOf.ring h0 hup
  refine Prod.ext ?_ ?_
  · show (c.pool.route (hash .md5) c.connSelector key answers).conn.bind _ = _
    unfold getServerAddressByKey
    rw [howner, getConn_eq_owner h.ringOf.ring h0]
  · show c.withPool (c.pool.getConn _) = c
    rw [hkept]
    exact c.withPool_pool

/-- With failover there is no address only if no connection can be reached. -/
theorem realtime_none (hfailover : c.connSelector.useFailover = true)
    (hnone : (c.getRealtimeServerAddressByKey hash key answers).1 = none) :
    ∀ e ∈ (c.getRealtimeServerAddressByKey hash key answers).2.conns, e.conn.alive = false := by
  have hnowhere : (c.pool.route (hash .md5) c.connSelector key answers).conn = none := by
    by_contra hsome
    obtain ⟨i, hi⟩ := Option.ne_none_iff_exists'.1 hsome
    obtain ⟨e, he, -⟩ := exists_realtime h hi
    have hname := c.name_withPool (c.pool.route (hash .md5) c.connSelector key answers) i
    change (c.pool.route (hash .md5) c.connSelector key answers).conn.bind _ = none at hnone
    rw [hi, Option.bind_some, ← hname] at hnone
    exact absurd (he.symm.trans (Option.map_eq_none_iff.1 hnone)) (by simp)
  intro e he
  obtain ⟨i, hi⟩ := List.mem_iff_getElem?.1 he
  have hlt : i < c.conns.length := by
    have hi' := (List.getElem?_eq_some_iff.1 hi).1
    rwa [← length_pool, show (c.getRealtimeServerAddressByKey hash key answers).2.pool = _ from
      c.pool_withPool _, length_getConn] at hi'
  have hdown := List.find?_eq_none.1
    ((ConnectionPool.route_conn h.ringOf.ring).symm.trans hnowhere) i
    (h.ringOf.mem_candidates hlt hfailover _ key)
  rw [← pool_withPool, isUp_pool, show (c.withPool _).conns[i]? = some e from hi] at hdown
  simpa using hdown

end

/-- **The realtime address of a key.** In every state of a client the address is that of a
connection which is alive after the call, and the key goes to this connection, without another
attempt to connect, as long as no connection is to be tried again; that of `getServerAddressByKey`,
if the connection that owns the key is alive; and none with failover only if no connection could be
reached. -/
theorem getRealtimeServerAddressByKey_spec (h : Reachable hash c) (key : Bytes)
    (answers : ℕ → Reconnect) :
    let name := (c.getRealtimeServerAddressByKey hash key answers).1
    let c' := (c.getRealtimeServerAddressByKey hash key answers).2
    (∀ a, name = some a → ∃ i e, (c.pool.route (hash .md5) c.connSelector key answers).conn = some i ∧
      c'.conns[i]? = some e ∧ e.name = a ∧ e.conn.alive = true) ∧
    (∀ answers', c'.pool.Waiting answers' →
      (c'.pool.route (hash .md5) c'.connSelector key answers').conn =
        (c.pool.route (hash .md5) c.connSelector key answers).conn ∧
      c'.getRealtimeServerAddressByKey hash key answers' = (name, c')) ∧
    (c.pool.isUp (c.connSelector.owner (hash .md5) key) = true →
      name = c.getServerAddressByKey hash key ∧ c' = c) ∧
    (c.connSelector.useFailover = true → name = none → ∀ e ∈ c'.conns, e.conn.alive = false) := by
  refine ⟨fun a ha => ?_, fun answers' => realtime_again h, fun hup => ?_, realtime_none h⟩
  · obtain ⟨i, hi, hnamed⟩ := Option.bind_eq_some_iff.1 ha
    obtain ⟨e, he, halive⟩ := exists_realtime h hi
    have hname := c.name_withPool (c.pool.route (hash .md5) c.connSelector key answers) i
    rw [← hname, show (c.withPool _).conns[i]? = some e from he] at hnamed
    exact ⟨i, e, hi, he, Option.some.inj hnamed, halive⟩
  · exact Prod.mk.inj (realtime_of_up h hup)

/-- The server cannot be reached at the time 1, and is not tried again before the time 6. -/
theorem getRealtimeServerAddressByKey_spec_one :
    let c := (({} : Client).init (fun _ => List.length) false [⟨ascii "a", 1, none⟩]).2
    let asked := c.getRealtimeServerAddressByKey (fun _ => List.length) (ascii "k") fun _ => ⟨1, none⟩
    asked.2.conns.map (·.conn.deadUntil) = [6] ∧
      asked.2.getRealtimeServerAddressByKey (fun _ => List.length) (ascii "k")
        (fun _ => ⟨5, some 3⟩) = asked := by
  intro c asked
  have h : Reachable (fun _ => List.length) c := .init .new false _
  have hconnAt : ∀ it, c.connSelector.connAt it = 0 := by
    intro it
    unfold KetamaSelector.connAt
    rcases hit : c.connSelector.continuum[it]? with _ | q
    · rfl
    · have hq := (KetamaSelector.continuum_perm _ _ _).mem_iff.1 (List.mem_of_getElem? hit)
      obtain ⟨s, -, hs, -⟩ := KetamaSelector.mem_points.1 hq
      exact Nat.lt_one_iff.1 (List.getElem?_eq_some_iff.1 hs).1
  have hcandidates : c.connSelector.candidates List.length (ascii "k") = [0] := by
    have howner : c.connSelector.owner List.length (ascii "k") = 0 := hconnAt _
    show c.connSelector.owner List.length (ascii "k") :: [] = [0]
    rw [howner]
  have hroute : c.pool.route List.length c.connSelector (ascii "k") (fun _ => ⟨1, none⟩) =
      ⟨[(0, ⟨1, none⟩)], none⟩ := by
    unfold ConnectionPool.route
    rw [KetamaSelector.getConn_eq_run h.ringOf.ring, hcandidates]
    rfl
  have hasked : asked.2.conns.map (·.conn) = [{ deadUntil := 6 }] := by
    show (c.withPool (c.pool.getConn _)).conns.map _ = _
    rw [hroute]
    rfl
  have hwaiting : asked.2.pool.Waiting fun _ => ⟨5, some 3⟩ := by
    intro _ d hd _
    change d ∈ asked.2.conns.map (·.conn) at hd
    rw [hasked] at hd
    obtain rfl := List.mem_singleton.1 hd
    exact (by decide : (5 : ℤ) < 6)
  refine ⟨?_, ((getRealtimeServerAddressByKey_spec h (ascii "k") fun _ => ⟨1, none⟩).2.1 _ hwaiting).2⟩
  rw [show asked.2.conns.map (·.conn.deadUntil) = (asked.2.conns.map (·.conn)).map (·.deadUntil) from
    (List.map_map).symm, hasked]
  rfl

end Client

end Libmc
