import Libmc.Ketama
import Libmc.Connection

/-!
# Servers and options of a client

`ConnectionPool::init` makes a connection for each server, and a ring of their names.
`updateServers` gives the connections other servers and leaves the ring as it is. Some options are
kept in the connections, which `init` makes anew. The hash functions are a parameter.
-/

namespace Libmc

/-- `MC_NI_MAXHOST`. -/
def maxHost : ℕ := 1025

/-- `MC_NI_MAXHOST + 1 + MC_NI_MAXSERV`. -/
def maxName : ℕ := maxHost + 1 + 32

/-- `snprintf(buf, size, "%s", s)`. -/
def snprintf (size : ℕ) (s : Bytes) : Bytes := s.take (size - 1)

/-- `isUnixSocket`. -/
def isUnixSocket (host : Bytes) : Bool := host.head? = some 47

/-- `hash_function_options_t`. -/
inductive HashFunctionOption
  | md5
  | fnv1_32
  | fnv1a_32
  | crc_32
  deriving DecidableEq, Repr

inductive Setting
  | pollTimeout (timeout : ℤ)
  | connectTimeout (timeout : ℤ)
  | retryTimeout (timeout : ℤ)
  | hashFunction (fn : HashFunctionOption)
  | maxRetries (maxRetries : ℤ)
  | setFailover (on : Bool)
  deriving DecidableEq, Repr

/-- A `Connection` with its server; its socket, request and replies are in `conn`. -/
structure ServerConnection where
  name : Bytes := []
  host : Bytes := []
  port : ℕ := 0
  hasAlias : Bool := false
  unixSocket : Bool := false
  connectTimeout : ℤ := 10
  conn : Connection := {}
  deriving DecidableEq, Repr

namespace ServerConnection

/-- `Connection::init`. Its result is -1. -/
def init (s : Server) (e : ServerConnection) : ServerConnection :=
  let host := snprintf maxHost s.host
  let unixSocket := isUnixSocket host
  { e with
    host
    port := s.port
    unixSocket
    hasAlias := s.aliasName.isSome
    name :=
      match s.aliasName with
      | none =>
        if unixSocket then snprintf maxName host
        else snprintf maxName (host ++ ascii ":" ++ Decimal.numeral s.port)
      | some aliasName => snprintf maxName aliasName }

/-- What the ring uses of a connection. -/
def server (e : ServerConnection) : Server where
  host := e.host
  port := e.port
  aliasName := if e.hasAlias then some e.name else none

end ServerConnection

/-- A `Client`: its connections, its ring, and the option that is in neither. -/
structure Client where
  conns : List ServerConnection := []
  connSelector : KetamaSelector := {}
  pollTimeout : ℤ := 300

namespace Client

variable (hash : HashFunctionOption → Bytes → ℕ)

/-- `Client::config`. -/
def config (s : Setting) (c : Client) : Client :=
  match s with
  | .pollTimeout timeout => { c with pollTimeout := timeout }
  | .connectTimeout timeout =>
    { c with conns := c.conns.map fun e => { e with connectTimeout := timeout } }
  | .retryTimeout timeout =>
    { c with conns := c.conns.map fun e => { e with conn := { e.conn with retryTimeout := timeout } } }
  | .hashFunction fn => { c with connSelector := { c.connSelector with hashFunction := some (hash fn) } }
  | .maxRetries maxRetries =>
    { c with conns := c.conns.map fun e => { e with conn := { e.conn with maxRetries } } }
  | .setFailover on => { c with connSelector := { c.connSelector with useFailover := on } }

/-- The arguments of a server: without an array of aliases there is none. -/
def argument (aliases : Bool) (s : Server) : Server :=
  { s with aliasName := if aliases then s.aliasName else none }

/-- `ConnectionPool::init`. `aliases` says whether the array of aliases is not `NULL`. -/
def init (aliases : Bool) (servers : List Server) (c : Client) : ℤ × Client :=
  let conns := servers.map fun s => ServerConnection.init (argument aliases s) {}
  (-(servers.length : ℤ),
    { c with
      conns
      connSelector :=
        c.connSelector.reset.addServers (hash .md5) (conns.map ServerConnection.server) })

/-- The loop of `updateServers` that compares the aliases. None if it reads an alias that is `NULL`;
otherwise it says whether one is different. -/
def aliasDiffers : List (ServerConnection × Server) → Option Bool
  | [] => some false
  | (e, s) :: rest =>
    if e.hasAlias then
      match s.aliasName with
      | none => none
      | some aliasName => if e.name ≠ aliasName then some true else aliasDiffers rest
    else aliasDiffers rest

/-- A round of the loop of `updateServers` that gives a connection its server. The result falls by
one, whether or not the server is new. -/
def updateServer (now : ℤ) (e : ServerConnection) (s : Server) : ServerConnection :=
  if e.host = s.host ∧ e.port = s.port then e
  else
    let e := e.init s
    { e with conn := (e.conn.markDead now).reset }

/-- `ConnectionPool::updateServers`; none if its behaviour is undefined. -/
def updateServers (aliases : Bool) (servers : List Server) (now : ℤ) (c : Client) :
    Option (ℤ × Client) :=
  if c.conns.length ≠ servers.length then some (1, c)
  else
    (if aliases then aliasDiffers (c.conns.zip servers) else some false).map fun differs =>
      if differs then (2, c)
      else
        (-(servers.length : ℤ),
          { c with
            conns := List.zipWith (updateServer now) c.conns (servers.map (argument aliases)) })

def servers (c : Client) : List Server := c.conns.map ServerConnection.server

end Client

/-! ### What a client keeps of its servers -/

namespace Server

/-- A server as it is kept, in buffers of limited size. -/
def stored (s : Server) : Server where
  host := snprintf maxHost s.host
  port := s.port
  aliasName := s.aliasName.map (snprintf maxName)

@[simp] theorem snprintf_snprintf (n : ℕ) (s : Bytes) : snprintf n (snprintf n s) = snprintf n s := by
  unfold snprintf
  rw [List.take_take, min_self]

@[simp] theorem stored_stored (s : Server) : s.stored.stored = s.stored := by
  unfold stored
  simp [Function.comp_def]

/-- A connection of this server takes over the other one in an update: it has the same alias, or
had none and gets another address with one. -/
def Takes (old new : Server) : Prop :=
  new.aliasName = old.aliasName ∨
    old.aliasName = none ∧ ¬ (new.host = old.host ∧ new.port = old.port)

end Server

variable {hash : HashFunctionOption → Bytes → ℕ} {aliases : Bool} {now rv : ℤ} {e : ServerConnection}
  {s : Server} {l : List Server} {c c' : Client}

@[simp] theorem ServerConnection.server_init (s : Server) (e : ServerConnection) :
    (e.init s).server = s.stored := by
  unfold ServerConnection.server ServerConnection.init Server.stored
  cases s.aliasName <;> rfl

namespace Client

@[simp] theorem servers_init (aliases : Bool) (l : List Server) (c : Client) :
    (c.init hash aliases l).2.servers = l.map fun s => (argument aliases s).stored := by
  unfold servers init
  rw [List.map_map]
  exact List.map_congr_left fun s _ => ServerConnection.server_init _ _

@[simp] theorem argument_true (s : Server) : argument true s = s := rfl

theorem server_updateServer (hs : s.stored = s) (halias : e.hasAlias → s.aliasName = some e.name)
    (now : ℤ) : (updateServer now e s).server = s ↔ e.server.Takes s := by
  unfold updateServer
  split_ifs with hsame
  · have hserver : e.server = s ↔ s.aliasName = e.server.aliasName := by
      constructor
      · rintro rfl
        rfl
      · intro h
        have : e.server = ⟨e.host, e.port, e.server.aliasName⟩ := rfl
        rw [this, hsame.1, hsame.2, ← h]
    rw [hserver]
    unfold Server.Takes
    constructor
    · exact .inl
    · rintro (h | ⟨-, h⟩)
      · exact h
      · exact absurd ⟨hsame.1.symm, hsame.2.symm⟩ h
  · refine iff_of_true ?_ ?_
    · show (e.init s).server = s
      rw [ServerConnection.server_init, hs]
    · unfold Server.Takes ServerConnection.server
      rcases h : e.hasAlias with _ | _
      · exact .inr ⟨rfl, fun h => hsame ⟨h.1.symm, h.2.symm⟩⟩
      · exact .inl (halias h)

theorem aliasDiffers_false {l : List (ServerConnection × Server)} (h : aliasDiffers l = some false) :
    ∀ x ∈ l, x.1.hasAlias → x.2.aliasName = some x.1.name := by
  induction l with
  | nil => exact fun x hx => absurd hx List.not_mem_nil
  | cons x l ih =>
    obtain ⟨e, s⟩ := x
    unfold aliasDiffers at h
    rw [List.forall_mem_cons]
    rcases halias : e.hasAlias with _ | _
    · rw [if_neg (by simp [halias])] at h
      exact ⟨fun h => (Bool.false_ne_true h).elim, ih h⟩
    · rw [if_pos halias] at h
      rcases hs : s.aliasName with _ | a
      · simp [hs] at h
      · simp only [hs] at h
        by_cases hne : e.name = a
        · rw [if_neg (not_not.2 hne)] at h
          exact ⟨fun _ => congrArg some hne.symm, ih h⟩
        · rw [if_pos hne] at h
          cases h

theorem aliasDiffers_true {l : List (ServerConnection × Server)} (h : aliasDiffers l = some true) :
    ∃ x ∈ l, ¬ x.1.server.Takes x.2 := by
  induction l with
  | nil => cases h
  | cons x l ih =>
    obtain ⟨e, s⟩ := x
    unfold aliasDiffers at h
    have htail : aliasDiffers l = some true → ∃ x ∈ (e, s) :: l, ¬ x.1.server.Takes x.2 := by
      intro h
      obtain ⟨x, hx, hdiffers⟩ := ih h
      exact ⟨x, List.mem_cons_of_mem _ hx, hdiffers⟩
    split_ifs at h with halias
    · rcases hs : s.aliasName with _ | a
      · simp [hs] at h
      · simp only [hs] at h
        split_ifs at h with hne
        · refine ⟨_, List.mem_cons_self, fun htakes => ?_⟩
          have hname : e.server.aliasName = some e.name := if_pos halias
          rcases htakes with h | ⟨h, -⟩
          · rw [hs, hname] at h
            exact hne (Option.some.inj h).symm
          · rw [hname] at h
            cases h
        · exact htail h
    · exact htail h

theorem servers_zipWith {conns : List ServerConnection} (hlen : conns.length = l.length)
    (hl : ∀ s ∈ l, s.stored = s)
    (halias : ∀ x ∈ conns.zip l, x.1.hasAlias → x.2.aliasName = some x.1.name) (now : ℤ) :
    (List.zipWith (updateServer now) conns l).map ServerConnection.server = l ↔
      List.Forall₂ Server.Takes (conns.map ServerConnection.server) l := by
  induction conns generalizing l with
  | nil =>
    obtain rfl := List.length_eq_zero_iff.1 hlen.symm
    simp
  | cons e conns ih =>
    cases l with
    | nil => cases hlen
    | cons s l =>
      rw [List.zip_cons_cons] at halias
      obtain ⟨hfirst, hrest⟩ := List.forall_mem_cons.1 halias
      obtain ⟨hs, hl⟩ := List.forall_mem_cons.1 hl
      rw [List.zipWith_cons_cons, List.map_cons, List.cons_eq_cons, List.map_cons,
        List.forall₂_cons, server_updateServer hs hfirst, ih (by simpa using hlen) hl hrest]

theorem forall₂_takes_refl (l : List Server) : List.Forall₂ Server.Takes l l := by
  rw [List.forall₂_same]
  exact fun s _ => .inl rfl

/-- **An update of a client.** It has the new servers afterwards exactly if each of its servers takes
the new one over; if the update is rejected the client is as before, and has other servers. -/
theorem updateServers_spec (hl : ∀ s ∈ l, s.stored = s)
    (h : c.updateServers true l now = some (rv, c')) :
    (c'.servers = l ↔ List.Forall₂ Server.Takes c.servers l) ∧
      (0 < rv → c' = c ∧ c.servers ≠ l) := by
  have hkept : ¬ List.Forall₂ Server.Takes c.servers l →
      (c.servers = l ↔ List.Forall₂ Server.Takes c.servers l) ∧ c.servers ≠ l := by
    intro hnot
    have hne : c.servers ≠ l := by
      rintro rfl
      exact hnot (forall₂_takes_refl _)
    exact ⟨iff_of_false hne hnot, hne⟩
  unfold updateServers at h
  by_cases hlen : c.conns.length ≠ l.length
  · rw [if_pos hlen] at h
    obtain ⟨rfl, rfl⟩ := Prod.mk.inj (Option.some.inj h)
    obtain ⟨hiff, hne⟩ := hkept fun htakes => hlen (by simpa [servers] using htakes.length_eq)
    exact ⟨hiff, fun _ => ⟨rfl, hne⟩⟩
  · rw [if_neg hlen, if_pos rfl, Option.map_eq_some_iff] at h
    rw [not_not] at hlen
    obtain ⟨differs, hdiffers, h⟩ := h
    cases differs with
    | true =>
      obtain ⟨rfl, rfl⟩ := Prod.mk.inj h
      obtain ⟨hiff, hne⟩ := hkept fun htakes => by
        obtain ⟨x, hx, hnot⟩ := aliasDiffers_true hdiffers
        refine hnot ?_
        have htakes' := (List.forall₂_map_left_iff.1 htakes)
        exact (List.forall₂_iff_zip.1 htakes').2 hx
      exact ⟨hiff, fun _ => ⟨rfl, hne⟩⟩
    | false =>
      obtain ⟨rfl, rfl⟩ := Prod.mk.inj h
      refine ⟨?_, fun hpos => ?_⟩
      · have hargs : l.map (argument true) = l := List.map_id l
        rw [hargs]
        exact servers_zipWith hlen hl (aliasDiffers_false hdiffers) now
      · omega

end Client

end Libmc
