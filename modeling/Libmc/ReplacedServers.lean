import Libmc.PollSockets
import Libmc.UpdateServers

/-!
# Connections whose server is replaced

`updateServers` gives a connection its new address, marks it dead and resets it, so that nothing of
the old server is left and the new one can be tried at once. But `markDead` looks at connections
that are alive: a dead one keeps the time until which the old server was not to be tried, and one
with the descriptor 0 is not closed. In all other cases the update does what it should
(`updateServers_fresh_iff`).
-/

namespace Libmc

variable {hash : HashFunctionOption → Bytes → ℕ} {aliases : Bool} {now rv : ℤ} {l : List Server}
  {c c' : Client} {e : ServerConnection} {s : Server}

namespace Connection

/-- Nothing of a request or of its replies is left. -/
structure Emptied (c : Connection) : Prop where
  clean : c.Clean
  readLeft : c.parser.bufferReader.readLeft = 0
  received : ∀ b ∈ c.parser.bufferReader.dataBlockList, b.data = []
  state : c.parser.state = .start
  retrievalResults : c.parser.retrievalResults = []
  messageResults : c.parser.messageResults = []
  lineResults : c.parser.lineResults = []
  unsignedResults : c.parser.unsignedResults = []

/-- Closed and empty, and `tryReconnect` may connect. -/
structure Fresh (now : ℤ) (c : Connection) : Prop where
  alive : c.alive = false
  socketFd : c.socketFd < 0
  emptied : c.Emptied
  deadUntil : c.deadUntil ≤ now

/-- It has a descriptor that `close` closes, or it is dead and may be tried. -/
def Replaceable (now : ℤ) (c : Connection) : Prop :=
  (c.alive = true → c.socketFd ≠ 0) ∧ (c.alive = false → c.deadUntil ≤ now)

theorem emptied_reset (c : Connection) : c.reset.Emptied where
  clean := clean_reset c
  readLeft := rfl
  received b hb := by
    obtain ⟨b', -, rfl⟩ := List.mem_map.1 hb
    rfl
  state := rfl
  retrievalResults := rfl
  messageResults := rfl
  lineResults := rfl
  unsignedResults := rfl

theorem fresh_iff {c : Connection} (h : c.LiveFd) (now : ℤ) :
    ((c.markDead now).reset).Fresh now ↔ c.Replaceable now := by
  have hfresh : ((c.markDead now).reset).Fresh now ↔ (c.markDead now).alive = false ∧
      (c.markDead now).socketFd < 0 ∧ (c.markDead now).deadUntil ≤ now :=
    ⟨fun h => ⟨h.alive, h.socketFd, h.deadUntil⟩, fun h => ⟨h.1, h.2.1, emptied_reset _, h.2.2⟩⟩
  unfold Replaceable
  rw [hfresh]
  cases halive : c.alive with
  | true =>
    have hdeadUntil : (c.markDead now).deadUntil = now := by
      unfold markDead close
      rw [if_pos halive]
      split_ifs <;> rfl
    rw [hdeadUntil]
    rcases markDead_cases h now with ⟨hfd, hclosed⟩ | ⟨hfd, hsame⟩
    · exact iff_of_true ⟨hclosed.alive_eq, hclosed.socketFd_lt, le_rfl⟩ ⟨fun _ => hfd, nofun⟩
    · refine iff_of_false (fun hc => ?_) fun hc => hc.1 rfl hfd
      rw [hsame.alive_eq, halive] at hc
      exact Bool.noConfusion hc.1
  | false =>
    have hfd : c.socketFd < 0 := by
      by_contra hfd
      rw [h.2 (by omega)] at halive
      cases halive
    have hmark : c.markDead now = c := if_neg (by simp [halive])
    rw [hmark, halive]
    exact ⟨fun hc => ⟨nofun, fun _ => hc.2.2⟩, fun hc => ⟨rfl, hfd, hc.2 rfl⟩⟩

end Connection

namespace Client

/-! ### A pool with its servers -/

/-- What a command works on. -/
def pool (c : Client) : ConnectionPool := { conns := c.conns.map (·.conn) }

def withPool (p : ConnectionPool) (c : Client) : Client :=
  { c with conns := List.zipWith (fun e conn => { e with conn }) c.conns p.conns }

/-- The states of a client between the calls of its methods. `lookup` is
`getRealtimeServerAddressByKey`, which tries to reconnect. -/
inductive Reachable (hash : HashFunctionOption → Bytes → ℕ) : Client → Prop
  | new : Reachable hash {}
  | init {c : Client} (h : Reachable hash c) (aliases : Bool) (l : List Server) :
      Reachable hash (c.init hash aliases l).2
  | config {c : Client} (h : Reachable hash c) (s : Setting) : Reachable hash (c.config hash s)
  | lookup {c : Client} (h : Reachable hash c) (r : Routed) :
      Reachable hash (c.withPool (c.pool.getConn r))
  | command {c : Client} {p : ConnectionPool} {code : ErrCode} (h : Reachable hash c)
      (req : Request) (hwait : (req.dispatch c.pool).WaitPoll (fun _ _ _ => True) code p)
      (times : ℕ → ℤ) :
      Reachable hash (c.withPool (req.finish times p).reset)
  | updateServers {c c' : Client} {aliases : Bool} {l : List Server} {now rv : ℤ}
      (h : Reachable hash c) (hupdate : c.updateServers aliases l now = some (rv, c')) :
      Reachable hash c'

/-- No connection has anything left of a command, and it is alive as long as it has a descriptor. -/
def Sound (c : Client) : Prop := ∀ e ∈ c.conns, e.conn.Clean ∧ e.conn.LiveFd

theorem updateServers_same (h : c.updateServers aliases l now = some (rv, c')) (hrv : 0 < rv) :
    c' = c := by
  unfold updateServers at h
  by_cases hlen : c.conns.length ≠ l.length
  · rw [if_pos hlen] at h
    exact (Prod.mk.inj (Option.some.inj h)).2.symm
  · rw [if_neg hlen, Option.map_eq_some_iff] at h
    obtain ⟨differs, -, heq⟩ := h
    cases differs with
    | true => exact (Prod.mk.inj heq).2.symm
    | false =>
      obtain ⟨rfl, -⟩ := Prod.mk.inj heq
      omega

theorem updateServers_conn (h : c.updateServers aliases l now = some (rv, c')) (hrv : rv ≤ 0)
    {i : ℕ} {e' : ServerConnection} : c'.conns[i]? = some e' ↔ ∃ e s, c.conns[i]? = some e ∧
      l[i]? = some s ∧ e' = updateServer now e (argument aliases s) := by
  obtain ⟨-, -, hconns⟩ := updateServers_accepted h hrv
  rw [hconns, List.getElem?_zipWith_eq_some]
  simp only [List.getElem?_map, Option.map_eq_some_iff]
  constructor
  · rintro ⟨e, -, he, ⟨s, hs, rfl⟩, rfl⟩
    exact ⟨e, s, he, hs, rfl⟩
  · rintro ⟨e, s, he, hs, rfl⟩
    exact ⟨e, _, he, ⟨s, hs, rfl⟩, rfl⟩

/-- A property of connections that no method of a client takes away. -/
structure Durable (Q : Connection → Prop) : Prop where
  init : Q {}
  config : ∀ (d : Connection) (retryTimeout maxRetries : ℤ), Q d →
    Q { d with retryTimeout, maxRetries }
  lookup : ∀ (d : Connection) (r : Reconnect), Q d → Q (d.tryReconnect false r)
  command : ∀ {conns : List Connection} {p : ConnectionPool} {code : ErrCode} (req : Request)
    (times : ℕ → ℤ), (∀ d ∈ conns, Q d) →
      (req.dispatch { conns }).WaitPoll (fun _ _ _ => True) code p →
        ∀ d ∈ (req.finish times p).reset.conns, Q d
  updateServer : ∀ (d : Connection) (now : ℤ), Q d → Q (d.markDead now).reset

namespace Durable

variable {Q : Connection → Prop}

theorem forall_pool (h : ∀ e ∈ c.conns, Q e.conn) : ∀ d ∈ c.pool.conns, Q d := by
  intro d hd
  obtain ⟨e, he, rfl⟩ := List.mem_map.1 hd
  exact h e he

theorem forall_withPool {p : ConnectionPool} (h : ∀ d ∈ p.conns, Q d) (c : Client) :
    ∀ e ∈ (c.withPool p).conns, Q e.conn := by
  intro e he
  obtain ⟨i, hi⟩ := List.mem_iff_getElem?.1 he
  have hi : (List.zipWith (fun e conn => { e with conn }) c.conns p.conns)[i]? = some e := hi
  rw [List.getElem?_zipWith_eq_some] at hi
  obtain ⟨e', d, -, hd, rfl⟩ := hi
  exact h d (List.mem_of_getElem? hd)

theorem forall_config (hQ : Durable Q) (h : ∀ e ∈ c.conns, Q e.conn) (s : Setting) :
    ∀ e ∈ (c.config hash s).conns, Q e.conn := by
  have hmap : ∀ f : ServerConnection → ServerConnection, (∀ e, Q e.conn → Q (f e).conn) →
      ∀ e ∈ c.conns.map f, Q e.conn := by
    intro f hf e he
    obtain ⟨d, hd, rfl⟩ := List.mem_map.1 he
    exact hf d (h d hd)
  cases s with
  | connectTimeout timeout => exact hmap _ fun e he => he
  | retryTimeout timeout => exact hmap _ fun e he => hQ.config e.conn timeout e.conn.maxRetries he
  | maxRetries n => exact hmap _ fun e he => hQ.config e.conn e.conn.retryTimeout n he
  | pollTimeout => exact h
  | hashFunction => exact h
  | setFailover => exact h

theorem forall_updateServers (hQ : Durable Q) (h : ∀ e ∈ c.conns, Q e.conn)
    (hupdate : c.updateServers aliases l now = some (rv, c')) : ∀ e ∈ c'.conns, Q e.conn := by
  by_cases hrv : rv ≤ 0
  · intro e' he'
    obtain ⟨i, hi⟩ := List.mem_iff_getElem?.1 he'
    obtain ⟨e, s, he, -, rfl⟩ := (updateServers_conn hupdate hrv).1 hi
    have hconn := h e (List.mem_of_getElem? he)
    unfold Client.updateServer
    split_ifs
    · exact hconn
    · exact hQ.updateServer e.conn now hconn
  · obtain rfl := updateServers_same hupdate (by omega)
    exact h

end Durable

/-- **Between the calls** every connection has what no method takes away. -/
theorem Reachable.durable {Q : Connection → Prop} (h : Reachable hash c) (hQ : Durable Q) :
    ∀ e ∈ c.conns, Q e.conn := by
  induction h with
  | new => exact List.forall_mem_nil _
  | init _ aliases l =>
    intro e he
    obtain ⟨s, -, rfl⟩ := List.mem_map.1 he
    exact hQ.init
  | config _ s ih => exact hQ.forall_config ih s
  | lookup _ r ih =>
    have htried := ConnectionPool.forall_foldl_modifyConn
      (f := fun t => Connection.tryReconnect false t.2) Prod.fst
      (fun (t : ℕ × Reconnect) d hd => hQ.lookup d t.2 hd) r.tried (Durable.forall_pool ih)
    exact Durable.forall_withPool htried _
  | command _ req hwait times ih =>
    exact Durable.forall_withPool (hQ.command req times (Durable.forall_pool ih) hwait) _
  | updateServers _ hupdate ih => exact hQ.forall_updateServers ih hupdate

theorem durable_sound : Durable fun d => d.Clean ∧ d.LiveFd where
  init := by
    refine ⟨⟨rfl, rfl, rfl⟩, ?_⟩
    unfold Connection.LiveFd
    decide
  config _ _ _ h := ⟨h.1.of_sameWork ⟨rfl, rfl, rfl⟩, h.2⟩
  lookup _ r h := ⟨h.1.of_sameWork (Connection.sameWork_tryReconnect _ _ _), h.2.tryReconnect _ r⟩
  command {conns} _ _ req times h hwait := by
    have hclean : ConnectionPool.Clean { conns } := ⟨rfl, rfl, fun d hd => (h d hd).1⟩
    have hlive := req.live_command (fun d hd => (h d hd).2) hwait times
    intro d hd
    exact ⟨(req.clean_command hclean hwait times).conns d hd, hlive d hd⟩
  updateServer _ now h := ⟨Connection.clean_reset _, h.2.markDead now⟩

/-- Nothing is left of a command, and a connection is alive as long as it has a descriptor. -/
theorem Reachable.sound (h : Reachable hash c) : c.Sound := h.durable durable_sound

/-! ### An update -/

/-- What an update should do with a connection that is given a server: one whose host or port is new
is closed and empty and can be tried at once, and another is as before. -/
def Updated (now : ℤ) (e : ServerConnection) (s : Server) (e' : ServerConnection) : Prop :=
  if e.host = s.host ∧ e.port = s.port then e' = e else e'.conn.Fresh now

theorem Updated.fresh {e' : ServerConnection} (h : Updated now e s e')
    (hnew : ¬ (e.host = s.host ∧ e.port = s.port)) : e'.conn.Fresh now := by
  unfold Updated at h
  rwa [if_neg hnew] at h

theorem updated_iff (h : e.conn.LiveFd) (now : ℤ) (s : Server) :
    Updated now e s (updateServer now e s) ↔
      (¬ (e.host = s.host ∧ e.port = s.port) → e.conn.Replaceable now) := by
  unfold Updated updateServer
  split_ifs with hsame
  · exact iff_of_true rfl fun hnot => absurd hsame hnot
  · rw [forall_prop_of_true hsame]
    exact Connection.fresh_iff h now

/-- **An update of the servers** closes and empties every connection whose host or port is new and
lets it be tried at once, and leaves the others as they are, exactly if each of the former has a
descriptor other than 0 or may be tried anyway. -/
theorem updateServers_fresh_iff (hc : Reachable hash c)
    (h : c.updateServers aliases l now = some (rv, c')) (hrv : rv ≤ 0) :
    (∀ (i : ℕ) (e : ServerConnection) (s : Server) (e' : ServerConnection), c.conns[i]? = some e →
      l[i]? = some s → c'.conns[i]? = some e' → Updated now e s e') ↔
    ∀ (i : ℕ) (e : ServerConnection) (s : Server), c.conns[i]? = some e → l[i]? = some s →
      ¬ (e.host = s.host ∧ e.port = s.port) → e.conn.Replaceable now := by
  have hlive : ∀ (i : ℕ) (e : ServerConnection), c.conns[i]? = some e → e.conn.LiveFd :=
    fun i e he => (hc.sound e (List.mem_of_getElem? he)).2
  constructor
  · intro hall i e s he hs
    have he' := (updateServers_conn h hrv).2 ⟨e, s, he, hs, rfl⟩
    exact (updated_iff (hlive i e he) now (argument aliases s)).1 (hall i e s _ he hs he')
  · intro hall i e s e' he hs he'
    obtain ⟨d, t, hd, ht, rfl⟩ := (updateServers_conn h hrv).1 he'
    obtain rfl := Option.some.inj (he.symm.trans hd)
    obtain rfl := Option.some.inj (hs.symm.trans ht)
    exact (updated_iff (hlive i e he) now (argument aliases s)).2 (hall i e s he hs)

/-- The second of two servers that have not been tried is replaced. -/
theorem updateServers_fresh_second : ∃ c c' : Client, Reachable (fun _ => List.length) c ∧
    c.updateServers false [⟨ascii "a", 1, none⟩, ⟨ascii "c", 1, none⟩] 7 = some (-2, c') ∧
    ∀ (i : ℕ) (e : ServerConnection) (s : Server) (e' : ServerConnection), c.conns[i]? = some e →
      [(⟨ascii "a", 1, none⟩ : Server), ⟨ascii "c", 1, none⟩][i]? = some s →
        c'.conns[i]? = some e' → Updated 7 e s e' := by
  obtain ⟨c, hc, hconns⟩ : ∃ c : Client, Reachable (fun _ => List.length) c ∧
      c.conns = [ServerConnection.init ⟨ascii "a", 1, none⟩ {},
        ServerConnection.init ⟨ascii "b", 1, none⟩ {}] :=
    ⟨_, .init .new false [⟨ascii "a", 1, none⟩, ⟨ascii "b", 1, none⟩], rfl⟩
  obtain ⟨c', hupdate⟩ : ∃ c', c.updateServers false
      [⟨ascii "a", 1, none⟩, ⟨ascii "c", 1, none⟩] 7 = some (-2, c') := by
    unfold updateServers
    rw [hconns]
    exact ⟨_, rfl⟩
  refine ⟨c, c', hc, hupdate, (updateServers_fresh_iff hc hupdate (by decide)).2 ?_⟩
  intro i e s he _ _
  have hnew : e.conn = {} := by
    have hmem := List.mem_of_getElem? he
    rw [hconns] at hmem
    simp only [List.mem_cons, List.not_mem_nil, or_false] at hmem
    rcases hmem with rfl | rfl <;> rfl
  rw [hnew]
  exact ⟨nofun, fun _ => by decide⟩

/-- A server is not reached, and is replaced one second later: the new one is not tried for five
more seconds. -/
theorem not_updateServers_fresh : ¬ ∀ (hash : HashFunctionOption → Bytes → ℕ) (c c' : Client)
    (aliases : Bool) (l : List Server) (now rv : ℤ), Reachable hash c →
      c.updateServers aliases l now = some (rv, c') → rv ≤ 0 →
        ∀ (i : ℕ) (e : ServerConnection) (s : Server) (e' : ServerConnection),
          c.conns[i]? = some e → l[i]? = some s → c'.conns[i]? = some e' → Updated now e s e' := by
  intro h
  obtain ⟨c₀, hc₀, hconns₀⟩ : ∃ c : Client, Reachable (fun _ => List.length) c ∧
      c.conns = [ServerConnection.init ⟨ascii "a", 1, none⟩ {}] :=
    ⟨_, .init .new false [⟨ascii "a", 1, none⟩], rfl⟩
  obtain ⟨c, hc, hconns⟩ : ∃ c : Client, Reachable (fun _ => List.length) c ∧
      c.conns = [{ ServerConnection.init ⟨ascii "a", 1, none⟩ {} with
        conn := { deadUntil := 6 } }] := by
    refine ⟨_, hc₀.lookup { tried := [(0, ⟨1, none⟩)], conn := none }, ?_⟩
    unfold withPool pool
    rw [hconns₀]
    rfl
  obtain ⟨c', hupdate, hconns'⟩ : ∃ c', c.updateServers false [⟨ascii "b", 1, none⟩] 2 =
      some (-1, c') ∧ c'.conns.map (·.conn.deadUntil) = [6] := by
    unfold updateServers
    rw [hconns]
    exact ⟨_, rfl, rfl⟩
  have hfirst : (c'.conns.map (·.conn.deadUntil))[0]? = some 6 := by
    rw [hconns']
    rfl
  rw [List.getElem?_map, Option.map_eq_some_iff] at hfirst
  obtain ⟨e', he', hdead⟩ := hfirst
  have hupdated := h _ c c' false _ 2 (-1) hc hupdate (by decide) 0 _ _ e' (by rw [hconns]; rfl)
    rfl he'
  have := (hupdated.fresh (by decide)).deadUntil
  omega

end Client

end Libmc
