import Libmc.Dispatch

/-!
# What writing a request leaves alone

A command writes its request into the buffers of the connections, adds the keys that wait for a
reply, counts, and sets a mode. A property that these writes do not take away (`Loadable`) holds of
every connection when the command is dispatched, if trying to reconnect does not take it away
(`Request.forall_dispatch`).
-/

namespace Libmc

variable {Q : Connection → Prop} {c : Connection} {p : ConnectionPool}

namespace Connection

theorem tryReconnect_false (r : Reconnect) (c : Connection) :
    c.tryReconnect false r = if c.alive then c else c.attempt r := rfl

/-- A property of connections that writing a request does not take away. -/
structure Loadable (Q : Connection → Prop) : Prop where
  takeBuffer : ∀ c buf, Q c → Q (c.takeBuffer buf)
  takeNumber : ∀ c val, Q c → Q (c.takeNumber val)
  addRequestKey : ∀ c key, Q c → Q (c.addRequestKey key)
  count : ∀ c, Q c → Q c.count
  setParserMode : ∀ c md, Q c → Q (c.setParserMode md)
  expectReplies : ∀ c, Q c → Q c.expectReplies

/-- Writing a request leaves the socket and the retries alone. -/
theorem loadable_socket (P : Bool → ℤ → ℤ → Traffic → Prop) :
    Loadable fun c => P c.alive c.socketFd c.retires c.traffic :=
  ⟨fun _ _ h => h, fun _ _ h => h, fun _ _ h => h, fun _ h => h, fun _ _ h => h, fun _ h => h⟩

namespace Loadable

theorem takeNoreply (hQ : Loadable Q) (noreply : Bool) (key : Bytes) (h : Q c) :
    Q (c.takeNoreply noreply key) := by
  unfold Connection.takeNoreply
  split_ifs
  · exact hQ.takeBuffer _ _ h
  · exact hQ.addRequestKey _ _ h

theorem takeStorage (hQ : Loadable Q) (op : OpCode) (exptime : Int64) (noreply : Bool)
    (item : StorageItem) (h : Q c) : Q (c.takeStorage op exptime noreply item) := by
  have hword : Q (c.takeStorageKeyword op) := by
    unfold takeStorageKeyword
    split
    any_goals exact hQ.takeBuffer _ _ h
    exact h
  have hkey := hQ.takeBuffer _ [space] (hQ.takeBuffer _ item.key hword)
  have hflags := hQ.takeBuffer _ [space] (hQ.takeNumber _ (Int64.ofNat item.flags.toNat) hkey)
  have hexptime := hQ.takeBuffer _ [space] (hQ.takeNumber _ exptime hflags)
  have hbytes := hQ.takeNumber _ (Int64.ofNat item.val.length) hexptime
  unfold Connection.takeStorage
  dsimp only
  apply hQ.takeBuffer
  apply hQ.takeBuffer
  apply hQ.takeBuffer
  apply hQ.count
  apply hQ.takeNoreply
  split_ifs
  · exact hQ.takeNumber _ _ (hQ.takeBuffer _ _ hbytes)
  · exact hbytes

theorem takeRetrieval (hQ : Loadable Q) (op : OpCode) (key : Bytes) (h : Q c) :
    Q (c.takeRetrieval op key) := by
  have hcount := hQ.count c h
  unfold Connection.takeRetrieval
  dsimp only
  apply hQ.takeBuffer
  apply hQ.takeBuffer
  split_ifs
  · unfold takeRetrievalKeyword
    split
    · exact hQ.takeBuffer _ _ hcount
    · exact hQ.takeBuffer _ _ hcount
    · exact hcount
  · exact hcount

theorem takeDeletion (hQ : Loadable Q) (noreply : Bool) (key : Bytes) (h : Q c) :
    Q (c.takeDeletion noreply key) := by
  unfold Connection.takeDeletion
  apply hQ.takeBuffer
  apply hQ.count
  apply hQ.takeNoreply
  exact hQ.takeBuffer _ _ (hQ.takeBuffer _ _ h)

theorem takeTouch (hQ : Loadable Q) (exptime : Int64) (noreply : Bool) (key : Bytes) (h : Q c) :
    Q (c.takeTouch exptime noreply key) := by
  unfold Connection.takeTouch
  apply hQ.takeBuffer
  apply hQ.count
  apply hQ.takeNoreply
  apply hQ.takeNumber
  apply hQ.takeBuffer
  exact hQ.takeBuffer _ _ (hQ.takeBuffer _ _ h)

theorem takeIncrDecr (hQ : Loadable Q) (op : OpCode) (delta : UInt64) (noreply : Bool)
    (key : Bytes) (h : Q c) : Q (c.takeIncrDecr op delta noreply key) := by
  unfold Connection.takeIncrDecr
  apply hQ.takeBuffer
  apply hQ.count
  apply hQ.takeNoreply
  apply hQ.takeNumber
  apply hQ.takeBuffer
  apply hQ.takeBuffer
  unfold takeIncrDecrKeyword
  split
  · exact hQ.takeBuffer _ _ h
  · exact hQ.takeBuffer _ _ h
  · exact h

theorem startCounting (hQ : Loadable Q) (h : Q c) : Q c.startCounting := by
  unfold Connection.startCounting
  apply hQ.expectReplies
  split_ifs
  · exact hQ.setParserMode _ _ h
  · exact h

theorem startRetrieval (hQ : Loadable Q) (h : Q c) : Q c.startRetrieval := by
  unfold Connection.startRetrieval
  split_ifs
  · exact hQ.setParserMode _ _ (hQ.takeBuffer _ _ h)
  · exact h

theorem takeBroadcast (hQ : Loadable Q) (htry : ∀ c r, Q c → Q (c.tryReconnect false r))
    (cmd : Bytes) (noreply : Bool) (r : Reconnect) (h : Q c) :
    Q (c.takeBroadcast cmd noreply r) := by
  have htried := htry c r h
  unfold Connection.takeBroadcast
  dsimp only
  split_ifs
  · exact hQ.setParserMode _ _ (hQ.takeBuffer _ _ (hQ.takeBuffer _ _ htried))
  · exact hQ.setParserMode _ _ (hQ.takeBuffer _ _ (hQ.count _ (hQ.takeBuffer _ _ htried)))
  · exact htried

end Loadable

end Connection

open Connection

theorem Request.conn_dispatch {i : ℕ} (hQ : Loadable Q)
    (htry : ∀ c r, Q c → Q (c.tryReconnect false r)) (req : Request)
    (h : ∃ c, p.conns[i]? = some c ∧ Q c) : ∃ c, (req.dispatch p).conns[i]? = some c ∧ Q c := by
  have hitems : ∀ {ι : Type} (key : ι → Bytes) (take : ι → Connection → Connection)
      (start : Connection → Connection) (items : List (ι × Routed)),
      (∀ c x, Q c → Q (take x c)) → (∀ c, Q c → Q (start c)) →
      ∃ c, ((p.dispatchItems key take items).activate start).conns[i]? = some c ∧ Q c := by
    intro ι key take start items htake hstart
    obtain ⟨c, hc, hconn⟩ := @ConnectionPool.dispatchItems_conn p i ι key take (fun _ c => Q c) []
      (fun _ => htry) (fun _ c x _ => htake c x) items h
    refine ⟨start c, ?_, hstart c hconn⟩
    rw [ConnectionPool.activate_conns, hc]
    rfl
  cases req with
  | storage op exptime noreply items =>
    exact hitems _ _ _ items (fun _ x h => hQ.takeStorage op exptime noreply x h)
      fun _ h => hQ.startCounting h
  | retrieval op keys =>
    exact hitems _ _ _ keys (fun _ x h => hQ.takeRetrieval op x h) fun _ h => hQ.startRetrieval h
  | deletion noreply keys =>
    exact hitems _ _ _ keys (fun _ x h => hQ.takeDeletion noreply x h) fun _ h => hQ.startCounting h
  | touch exptime noreply keys =>
    exact hitems _ _ _ keys (fun _ x h => hQ.takeTouch exptime noreply x h)
      fun _ h => hQ.startCounting h
  | incrDecr op delta noreply key =>
    obtain ⟨c, hc, hconn⟩ := ConnectionPool.getConn_conn htry key.2 h
    show ∃ c, (p.dispatchIncrDecr op delta noreply key).conns[i]? = some c ∧ Q c
    unfold ConnectionPool.dispatchIncrDecr
    split_ifs
    · exact h
    · dsimp only
      cases key.2.conn with
      | none => exact ⟨c, hc, hconn⟩
      | some j =>
        dsimp only
        rw [ConnectionPool.modifyConn_conns, ConnectionPool.modifyConn_conns, hc]
        split_ifs
        · exact ⟨_, rfl, hQ.expectReplies _
            (hQ.setParserMode _ _ (hQ.takeIncrDecr op delta noreply key.1 hconn))⟩
        · exact ⟨c, rfl, hconn⟩
  | broadcast op answers =>
    obtain ⟨c, hc, hconn⟩ := h
    refine ⟨c.takeBroadcast op.1.word (decide (op.1 = .quit)) (answers i), ?_,
      hQ.takeBroadcast htry _ _ _ hconn⟩
    show (p.conns.mapIdx _)[i]? = _
    rw [List.getElem?_mapIdx, hc]
    rfl

/-- **Dispatching** takes away nothing that writing a request and trying to reconnect leave. -/
theorem Request.forall_dispatch (hQ : Loadable Q) (htry : ∀ c r, Q c → Q (c.tryReconnect false r))
    (req : Request) (h : ∀ c ∈ p.conns, Q c) : ∀ c ∈ (req.dispatch p).conns, Q c := by
  intro c hc
  obtain ⟨i, hi⟩ := List.mem_iff_getElem?.1 hc
  have hlt : i < p.conns.length := by
    rw [← req.dispatch_length p]
    exact (List.getElem?_eq_some_iff.1 hi).1
  obtain ⟨d, hd, hconn⟩ := req.conn_dispatch hQ htry
    ⟨_, List.getElem?_eq_getElem hlt, h _ (List.getElem_mem hlt)⟩
  obtain rfl := Option.some.inj (hi.symm.trans hd)
  exact hconn

end Libmc
