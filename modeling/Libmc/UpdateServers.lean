import Libmc.ClientServers

/-!
# Updating the servers of a client

`updateServers` changes the addresses behind the places of the ring and leaves the ring as it is. So
an updated client finds a key by the names of the servers that it was built from, and a fresh client
by the names of its own: at the same address if the names at all places are the same
(`updateServers_routing`), and at another one if a name has moved (`exists_moved`).
-/

namespace Libmc

variable {hash : HashFunctionOption → Bytes → ℕ} {aliases aliases₀ : Bool} {now rv : ℤ}
  {l l₀ : List Server} {c c' d : Client} {key : Bytes}

/-! ### The names on the ring -/

/-- The text that the points of a server have in common. -/
def Server.ringName (s : Server) : Bytes :=
  match s.aliasName with
  | some name => name
  | none =>
    if s.port ≠ KetamaSelector.defaultPort then s.host ++ ascii ":" ++ Decimal.numeral s.port
    else s.host

namespace KetamaSelector

variable {hashMd5 : Bytes → ℕ} {ks ks' : KetamaSelector}

theorem sortHost_eq (s : Server) (pointerIdx : ℕ) :
    sortHost s pointerIdx = s.ringName ++ ascii "-" ++ Decimal.numeral pointerIdx := by
  unfold sortHost Server.ringName
  cases s.aliasName with
  | none =>
    dsimp only
    split_ifs <;> rfl
  | some name => rfl

theorem points_congr (h : l.map Server.ringName = l₀.map Server.ringName) :
    points hashMd5 l = points hashMd5 l₀ := by
  have hnames : ∀ l : List Server, points hashMd5 l =
      (l.map Server.ringName).zipIdx.flatMap fun x => (List.range pointerPerServer).map
        fun pointerIdx => ⟨hashMd5 (x.1 ++ ascii "-" ++ Decimal.numeral pointerIdx), x.2⟩ := by
    intro l
    unfold points serverPoints
    rw [List.zipIdx_map, List.flatMap_map]
    simp only [sortHost_eq]
    rfl
  rw [hnames, hnames, h]

/-- Without the liveness check only the ring and the hash function count. -/
theorem getConn_congr {σ : Type} (tryReconnect : ℕ → σ → Bool × σ) (s : σ)
    (hcontinuum : ks'.continuum = ks.continuum) (hn : ks'.nServers = ks.nServers)
    (hfn : ks'.hashFunction = ks.hashFunction) (key : Bytes) :
    (getConn tryReconnect hashMd5 ks' key false s).1 =
      (getConn tryReconnect hashMd5 ks key false s).1 := by
  have hconn : ∀ ks : KetamaSelector, (getConn tryReconnect hashMd5 ks key false s).1 =
      if (if ks.nServers = 0 then ks.endIt else ks.primaryIt hashMd5 key) = ks.endIt then none
      else some (ks.connAt (if ks.nServers = 0 then ks.endIt else ks.primaryIt hashMd5 key)) := by
    intro ks
    unfold getConn getServerIt
    by_cases h0 : ks.nServers = 0
    · rw [if_pos h0, if_pos h0]
    · rw [if_neg h0, if_neg h0]
      rfl
  have hprimary : ks'.primaryIt hashMd5 key = ks.primaryIt hashMd5 key := by
    unfold primaryIt wrap lowerBound endIt
    rw [hcontinuum, hn, hfn]
  rw [hconn, hconn, hprimary]
  unfold connAt endIt
  rw [hcontinuum, hn]

theorem getServer_eq {σ : Type} (tryReconnect : ℕ → σ → Bool × σ) (hashMd5 : Bytes → ℕ) (s : σ)
    (ks : KetamaSelector) (key : Bytes) : (getServer tryReconnect hashMd5 ks key false s).1 =
      ((getConn tryReconnect hashMd5 ks key false s).1.map Int.ofNat).getD (-1) := by
  unfold getServer getConn
  dsimp only
  split_ifs <;> rfl

end KetamaSelector

namespace Client

/-! ### Where a key goes -/

/-- The place of the connection that `getServerAddressByKey` takes. -/
def getConn (hash : HashFunctionOption → Bytes → ℕ) (key : Bytes) (c : Client) : Option ℕ :=
  (KetamaSelector.getConn (fun _ (s : Unit) => (true, s)) (hash .md5) c.connSelector key false ()).1

def addresses (c : Client) : List (Bytes × ℕ) := c.conns.map fun e => (e.host, e.port)

/-- Host and port to which a key is sent. -/
def address (hash : HashFunctionOption → Bytes → ℕ) (key : Bytes) (c : Client) :
    Option (Bytes × ℕ) := (c.getConn hash key).bind (c.addresses[·]?)

/-- A client that `init` has built from a list of servers, whatever has been configured since. -/
structure Built (hash : HashFunctionOption → Bytes → ℕ) (aliases : Bool) (l : List Server)
    (c : Client) : Prop where
  servers : c.servers = l.map fun s => (argument aliases s).stored
  continuum : c.connSelector.continuum =
    (KetamaSelector.addServers (hash .md5) ({} : KetamaSelector).reset c.servers).continuum
  nServers : c.connSelector.nServers = c.servers.length

/-- The names under which `init` puts the servers on the ring. -/
def ringNames (aliases : Bool) (l : List Server) : List Bytes :=
  l.map fun s => (argument aliases s).stored.ringName

theorem Built.ringNames (h : Built hash aliases l c) :
    c.servers.map Server.ringName = Client.ringNames aliases l := by
  rw [h.servers, List.map_map]
  rfl

theorem built_init (hash : HashFunctionOption → Bytes → ℕ) (aliases : Bool) (l : List Server)
    (c : Client) : Built hash aliases l (c.init hash aliases l).2 :=
  ⟨servers_init aliases l c, rfl, rfl⟩

theorem Built.getConn_congr (hc : Built hash aliases₀ l₀ c) (hd : Built hash aliases l d)
    (hfn : d.connSelector.hashFunction = c.connSelector.hashFunction)
    (hnames : d.servers.map Server.ringName = c.servers.map Server.ringName) (key : Bytes) :
    d.getConn hash key = c.getConn hash key := by
  have hlen : d.servers.length = c.servers.length := by
    simpa using congrArg List.length hnames
  refine KetamaSelector.getConn_congr _ _ ?_ ?_ hfn key
  · rw [hd.continuum, hc.continuum]
    unfold KetamaSelector.addServers
    dsimp only
    rw [KetamaSelector.points_congr hnames]
  · rw [hd.nServers, hc.nServers, hlen]

theorem Built.getConn_spec (h : Built hash aliases l c) (key : Bytes) :
    (c.servers = [] ∧ c.getConn hash key = none) ∨ ∃ p, KetamaSelector.IsPrimary (hash .md5)
      c.servers (c.connSelector.hashFunction.getD (hash .md5) key) p ∧
        c.getConn hash key = some p.connIdx := by
  have hcontinuum : c.connSelector.continuum =
      (KetamaSelector.addServers (hash .md5) c.connSelector.reset c.servers).continuum := h.continuum
  have hn : c.connSelector.nServers =
      (KetamaSelector.addServers (hash .md5) c.connSelector.reset c.servers).nServers := h.nServers
  have hring : c.getConn hash key = (KetamaSelector.getConn (fun _ (s : Unit) => (true, s))
      (hash .md5) (KetamaSelector.addServers (hash .md5) c.connSelector.reset c.servers) key
        false ()).1 := KetamaSelector.getConn_congr _ _ hcontinuum hn rfl key
  have hserver := KetamaSelector.getServer_eq (fun _ (s : Unit) => (true, s)) (hash .md5) ()
    (KetamaSelector.addServers (hash .md5) c.connSelector.reset c.servers) key
  rw [← hring] at hserver
  rcases KetamaSelector.getServer_spec (fun _ (s : Unit) => (true, s)) (hash .md5) c.connSelector
    c.servers key () with ⟨hnil, h1⟩ | ⟨p, hp, h1⟩
  · refine .inl ⟨hnil, ?_⟩
    rw [h1] at hserver
    rcases hi : c.getConn hash key with _ | i
    · rfl
    · rw [hi] at hserver
      change (-1 : ℤ) = (i : ℤ) at hserver
      omega
  · refine .inr ⟨p, hp, ?_⟩
    rw [h1] at hserver
    rcases hi : c.getConn hash key with _ | i
    · rw [hi] at hserver
      change (p.connIdx : ℤ) = -1 at hserver
      omega
    · rw [hi] at hserver
      change (p.connIdx : ℤ) = (i : ℤ) at hserver
      rw [Int.ofNat_inj.1 hserver]

theorem Built.getConn_cases (h : Built hash aliases l c) (key : Bytes) :
    (c.servers = [] ∧ c.getConn hash key = none) ∨
      ∃ i < c.servers.length, c.getConn hash key = some i := by
  rcases h.getConn_spec key with hnone | ⟨p, hp, hplace⟩
  · exact .inl hnone
  · obtain ⟨conn, -, hconn, -⟩ := KetamaSelector.mem_points.1 hp.1
    have := (List.getElem?_eq_some_iff.1 hconn).1
    exact .inr ⟨p.connIdx, by omega, hplace⟩

/-- The text of a point is a key that goes to its server, if no two points coincide. -/
theorem Built.getConn_point (h : Built hash aliases l c)
    (hdistinct : KetamaSelector.Distinct (hash .md5) c.servers)
    (hfn : c.connSelector.hashFunction = none) {i : ℕ} {s : Server} (hs : c.servers[i]? = some s) :
    c.getConn hash (KetamaSelector.sortHost s 0) = some i := by
  have hpoint : ⟨hash .md5 (KetamaSelector.sortHost s 0), i⟩ ∈
      KetamaSelector.points (hash .md5) c.servers :=
    KetamaSelector.mem_points.2 ⟨s, 0, hs, by decide, rfl⟩
  rcases h.getConn_spec (KetamaSelector.sortHost s 0) with ⟨hnil, -⟩ | ⟨p, hp, hplace⟩
  · rw [hnil] at hs
    cases hs
  · rw [hfn] at hp
    have hself := KetamaSelector.IsPrimary.of_mem hpoint
    rw [hplace, hp.unique (fun a ha b hb => List.inj_on_of_nodup_map hdistinct ha hb) hself]

/-! ### After an update -/

theorem updateServers_accepted (h : c.updateServers aliases l now = some (rv, c')) (hrv : rv ≤ 0) :
    c.conns.length = l.length ∧ c'.connSelector = c.connSelector ∧
      c'.conns = List.zipWith (updateServer now) c.conns (l.map (argument aliases)) := by
  unfold updateServers at h
  by_cases hlen : c.conns.length ≠ l.length
  · rw [if_pos hlen] at h
    obtain ⟨rfl, -⟩ := Prod.mk.inj (Option.some.inj h)
    omega
  · rw [if_neg hlen, Option.map_eq_some_iff] at h
    obtain ⟨differs, -, heq⟩ := h
    cases differs with
    | true =>
      obtain ⟨rfl, -⟩ := Prod.mk.inj heq
      omega
    | false =>
      obtain ⟨-, rfl⟩ := Prod.mk.inj heq
      exact ⟨not_not.1 hlen, rfl, rfl⟩

theorem addresses_update (hc : Built hash aliases₀ l₀ c)
    (h : c.updateServers aliases l now = some (rv, c')) (hrv : rv ≤ 0) :
    c'.addresses = l.map fun s => (snprintf maxHost s.host, s.port) := by
  obtain ⟨hlen, -, hconns⟩ := updateServers_accepted h hrv
  have hhost : ∀ e ∈ c.conns, snprintf maxHost e.host = e.host := by
    intro e he
    have hmem : e.server ∈ c.servers := List.mem_map_of_mem he
    rw [hc.servers] at hmem
    obtain ⟨s, -, hs⟩ := List.mem_map.1 hmem
    have : e.host = snprintf maxHost s.host := (congrArg Server.host hs).symm
    rw [this, Server.snprintf_snprintf]
  unfold addresses
  rw [hconns]
  clear hconns h hc
  generalize c.conns = conns at hlen hhost
  induction conns generalizing l with
  | nil =>
    obtain rfl := List.length_eq_zero_iff.1 hlen.symm
    rfl
  | cons e conns ih =>
    cases l with
    | nil => cases hlen
    | cons s l =>
      obtain ⟨hfirst, hrest⟩ := List.forall_mem_cons.1 hhost
      rw [List.map_cons, List.zipWith_cons_cons, List.map_cons, List.map_cons,
        ih (by simpa using hlen) hrest]
      refine congrArg (· :: _) ?_
      unfold updateServer
      split_ifs with hsame
      · change e.host = s.host ∧ e.port = s.port at hsame
        rw [← hsame.1, ← hsame.2, hfirst]
      · rfl

theorem Built.addresses (h : Built hash aliases l c) :
    c.addresses = l.map fun s => (snprintf maxHost s.host, s.port) := by
  have hservers : c.addresses = c.servers.map fun s => (s.host, s.port) := by
    unfold Client.addresses Client.servers
    rw [List.map_map]
    rfl
  rw [hservers, h.servers, List.map_map]
  rfl

/-- The places of an updated client are those of the client before, its addresses are new. -/
theorem address_update (hc : Built hash aliases₀ l₀ c)
    (h : c.updateServers aliases l now = some (rv, c')) (hrv : rv ≤ 0) (hd : Built hash aliases l d)
    (key : Bytes) : c'.address hash key = (c.getConn hash key).bind (d.addresses[·]?) := by
  obtain ⟨-, hselector, -⟩ := updateServers_accepted h hrv
  have hplace : c'.getConn hash key = c.getConn hash key := by
    unfold getConn
    rw [hselector]
  unfold address
  rw [hplace, addresses_update hc h hrv, hd.addresses]

/-- **Routing after an update.** An updated client sends every key to the same address as a fresh
client with the new servers and the same hash function, if the names are the same at every place or
all the new servers have one address. -/
theorem updateServers_routing (hc : Built hash aliases₀ l₀ c)
    (h : c.updateServers aliases l now = some (rv, c')) (hrv : rv ≤ 0)
    (hd : Built hash aliases l d)
    (hfn : d.connSelector.hashFunction = c.connSelector.hashFunction)
    (hservers : ringNames aliases₀ l₀ = ringNames aliases l ∨ ∀ s ∈ l, ∀ t ∈ l,
      snprintf maxHost s.host = snprintf maxHost t.host ∧ s.port = t.port) (key : Bytes) :
    c'.address hash key = d.address hash key := by
  rw [address_update hc h hrv hd]
  rcases hservers with hnames | hone
  · have hsame : d.servers.map Server.ringName = c.servers.map Server.ringName := by
      rw [hc.ringNames, hd.ringNames, hnames]
    rw [← hc.getConn_congr hd hfn hsame key]
    rfl
  · -- whatever the places are, the address behind them is the same
    have haddress : ∀ x ∈ d.addresses, ∀ y ∈ d.addresses, x = y := by
      rw [hd.addresses]
      intro x hx y hy
      obtain ⟨s, hs, rfl⟩ := List.mem_map.1 hx
      obtain ⟨t, ht, rfl⟩ := List.mem_map.1 hy
      exact Prod.ext (hone s hs t ht).1 (hone s hs t ht).2
    obtain ⟨hlen, -, -⟩ := updateServers_accepted h hrv
    have hclen : c.servers.length = d.addresses.length := by
      rw [hd.addresses, List.length_map, ← hlen]
      exact List.length_map _
    have hdlen : d.servers.length = d.addresses.length :=
      (List.length_map _).trans (List.length_map _).symm
    unfold address
    rcases hc.getConn_cases key with ⟨hnil, hnone⟩ | ⟨i, hi, hplace⟩
    · rcases hd.getConn_cases key with ⟨-, hnone'⟩ | ⟨j, hj, -⟩
      · rw [hnone, hnone']
      · rw [hdlen, ← hclen, hnil] at hj
        cases hj
    · rcases hd.getConn_cases key with ⟨hnil, -⟩ | ⟨j, hj, hplace'⟩
      · rw [hclen, ← hdlen, hnil] at hi
        cases hi
      · rw [hclen] at hi
        rw [hdlen] at hj
        rw [hplace, hplace', Option.bind_some, Option.bind_some, List.getElem?_eq_getElem hi,
          List.getElem?_eq_getElem hj, haddress _ (List.getElem_mem hi) _ (List.getElem_mem hj)]

/-- A name that goes to a place with another address takes its keys with it on the new ring only, if
no two points coincide. -/
theorem exists_moved (hc : Built hash aliases₀ l₀ c)
    (h : c.updateServers aliases l now = some (rv, c')) (hrv : rv ≤ 0)
    (hd : Built hash aliases l d) (hfn : c.connSelector.hashFunction = none)
    (hfn' : d.connSelector.hashFunction = none)
    (hdistinct : KetamaSelector.Distinct (hash .md5) c.servers)
    (hdistinct' : KetamaSelector.Distinct (hash .md5) d.servers) {i j : ℕ} {s t : Server}
    (hs : c.servers[i]? = some s) (ht : d.servers[j]? = some t) (hname : s.ringName = t.ringName)
    (hmoved : d.addresses[i]? ≠ d.addresses[j]?) :
    ∃ key, c'.address hash key ≠ d.address hash key := by
  refine ⟨KetamaSelector.sortHost s 0, ?_⟩
  have hsame : KetamaSelector.sortHost s 0 = KetamaSelector.sortHost t 0 := by
    rw [KetamaSelector.sortHost_eq, KetamaSelector.sortHost_eq, hname]
  have hnew : d.address hash (KetamaSelector.sortHost s 0) = d.addresses[j]? := by
    unfold address
    rw [hsame, hd.getConn_point hdistinct' hfn' ht]
    rfl
  rw [address_update hc h hrv hd, hc.getConn_point hdistinct hfn hs, hnew]
  exact hmoved

/-- A server with an alias moves and another stays: the ring has the same names. -/
theorem updateServers_routing_alias : ∃ c c' d : Client,
    Built (fun _ => List.length) true
      [⟨ascii "a", 1, some (ascii "x")⟩, ⟨ascii "c", 1, none⟩] c ∧
    c.updateServers true [⟨ascii "b", 1, some (ascii "x")⟩, ⟨ascii "c", 1, none⟩] 0 =
      some (-2, c') ∧
    Built (fun _ => List.length) true
      [⟨ascii "b", 1, some (ascii "x")⟩, ⟨ascii "c", 1, none⟩] d ∧
    ∀ key, c'.address (fun _ => List.length) key = d.address (fun _ => List.length) key := by
  obtain ⟨c, hc, hconns, hfn⟩ : ∃ c : Client,
      Built (fun _ => List.length) true
        [⟨ascii "a", 1, some (ascii "x")⟩, ⟨ascii "c", 1, none⟩] c ∧
      c.conns = [ServerConnection.init ⟨ascii "a", 1, some (ascii "x")⟩ {},
        ServerConnection.init ⟨ascii "c", 1, none⟩ {}] ∧
      c.connSelector.hashFunction = none := ⟨_, built_init _ _ _ {}, rfl, rfl⟩
  obtain ⟨d, hd, hfn'⟩ : ∃ d : Client,
      Built (fun _ => List.length) true
        [⟨ascii "b", 1, some (ascii "x")⟩, ⟨ascii "c", 1, none⟩] d ∧
      d.connSelector.hashFunction = none := ⟨_, built_init _ _ _ {}, rfl⟩
  have hupdate : c.updateServers true
      [⟨ascii "b", 1, some (ascii "x")⟩, ⟨ascii "c", 1, none⟩] 0 = some (-2,
        { c with
          conns := List.zipWith (updateServer 0) c.conns
            [⟨ascii "b", 1, some (ascii "x")⟩, ⟨ascii "c", 1, none⟩] }) := by
    unfold updateServers
    rw [hconns]
    rfl
  exact ⟨c, _, d, hc, hupdate, hd,
    updateServers_routing hc hupdate (by decide) hd (hfn'.trans hfn.symm) (.inl rfl)⟩

/-- Two servers without aliases change places: an updated client sends every key to the other one,
if the points of the two servers are distinct. -/
theorem updateServers_routing_swapped : ¬ ∃ hash : HashFunctionOption → Bytes → ℕ,
    KetamaSelector.Distinct (hash .md5) [⟨ascii "a", 11211, none⟩, ⟨ascii "b", 11211, none⟩] ∧
    ∀ (c c' d : Client) (l₀ l : List Server) (rv : ℤ), Built hash true l₀ c →
      c.updateServers true l 0 = some (rv, c') → rv ≤ 0 → Built hash true l d →
        d.connSelector.hashFunction = c.connSelector.hashFunction →
          ∀ key, c'.address hash key = d.address hash key := by
  rintro ⟨hash, hdistinct, h⟩
  obtain ⟨c, hc, hconns, hfn⟩ : ∃ c : Client,
      Built hash true [⟨ascii "a", 11211, none⟩, ⟨ascii "b", 11211, none⟩] c ∧
      c.conns = [ServerConnection.init ⟨ascii "a", 11211, none⟩ {},
        ServerConnection.init ⟨ascii "b", 11211, none⟩ {}] ∧
      c.connSelector.hashFunction = none := ⟨_, built_init _ _ _ {}, rfl, rfl⟩
  obtain ⟨d, hd, hfn'⟩ : ∃ d : Client,
      Built hash true [⟨ascii "b", 11211, none⟩, ⟨ascii "a", 11211, none⟩] d ∧
      d.connSelector.hashFunction = none := ⟨_, built_init _ _ _ {}, rfl⟩
  have hupdate : c.updateServers true [⟨ascii "b", 11211, none⟩, ⟨ascii "a", 11211, none⟩] 0 =
      some (-2,
        { c with
          conns := List.zipWith (updateServer 0) c.conns
            [⟨ascii "b", 11211, none⟩, ⟨ascii "a", 11211, none⟩] }) := by
    unfold updateServers
    rw [hconns]
    rfl
  have hrv : (-2 : ℤ) ≤ 0 := by decide
  have hcs : c.servers = [⟨ascii "a", 11211, none⟩, ⟨ascii "b", 11211, none⟩] := hc.servers
  have hds : d.servers = [⟨ascii "b", 11211, none⟩, ⟨ascii "a", 11211, none⟩] := hd.servers
  have hmoved : d.addresses[0]? ≠ d.addresses[1]? := by
    rw [hd.addresses]
    decide
  -- the first server has gone to the second place
  have hs : c.servers[0]? = some ⟨ascii "a", 11211, none⟩ := by rw [hcs]; rfl
  have ht : d.servers[1]? = some ⟨ascii "a", 11211, none⟩ := by rw [hds]; rfl
  obtain ⟨key, hkey⟩ := exists_moved hc hupdate hrv hd hfn hfn' (hcs ▸ hdistinct)
    (hds ▸ hdistinct.perm (.swap _ _ _)) hs ht rfl hmoved
  exact hkey (h c _ d _ _ _ hc hupdate hrv hd (hfn'.trans hfn.symm) key)

end Client

end Libmc
