import Libmc.ClientServers
import Libmc.Support.Run

/-!
# A pool of clients

`ClientPool` keeps the options and the servers that it is given, and clients that are set up with
them. The steps are the calls that change them, one after the other; where the code reads an alias
that is `NULL` there is no step. The clients have the servers of the last `init` or accepted
`updateServers` exactly as long as each existing client takes such servers over
(`clientPool_servers_iff`), and they work with the configured options exactly as long as no client
with connections is made while an option of the connections is set (`clientPool_options_iff`).
-/

namespace Libmc

/-- `m_opt_changed` and `m_opt_value`. -/
structure Options where
  pollTimeout : Option ℤ := none
  connectTimeout : Option ℤ := none
  retryTimeout : Option ℤ := none
  hashFunction : Option HashFunctionOption := none
  maxRetries : Option ℤ := none
  setFailover : Option Bool := none
  deriving DecidableEq, Repr

namespace Options

/-- An option is set. -/
def set (o : Options) : Setting → Options
  | .pollTimeout timeout => { o with pollTimeout := timeout }
  | .connectTimeout timeout => { o with connectTimeout := timeout }
  | .retryTimeout timeout => { o with retryTimeout := timeout }
  | .hashFunction fn => { o with hashFunction := fn }
  | .maxRetries maxRetries => { o with maxRetries := maxRetries }
  | .setFailover on => { o with setFailover := on }

/-- The options in the order of their numbers; none for those that are not changed. -/
def values (o : Options) : List (Option Setting) :=
  [o.pollTimeout.map .pollTimeout, o.connectTimeout.map .connectTimeout,
    o.retryTimeout.map .retryTimeout, o.hashFunction.map .hashFunction,
    o.maxRetries.map .maxRetries, o.setFailover.map .setFailover]

end Options

/-- `ClientPool`, without its locks. -/
structure ClientPool where
  options : Options := {}
  clients : List Client := []
  initialClients : ℕ := 1
  maxClients : ℕ := 4
  maxGrowth : ℕ := 4
  servers : List Server := []

/-- The calls that change a pool. `autoGrow` reads `m_locked`. -/
inductive PoolEvent
  | config (s : Setting)
  | configInitialClients (n : ℕ)
  | configMaxClients (n : ℕ)
  | configMaxGrowth (n : ℕ)
  | init (aliases : Bool) (servers : List Server) (now : ℤ)
  | updateServers (aliases : Bool) (servers : List Server) (now : ℤ)
  | autoGrow (locked : Bool)

namespace ClientPool

variable (hash : HashFunctionOption → Bytes → ℕ)

/-- `ClientPool::setup`. -/
def setup (p : ClientPool) (c : Client) : ℤ × Client :=
  (p.options.values.foldl (fun c s => s.elim c fun s => c.config hash s) c).init hash true p.servers

/-- `ClientPool::growPool`. The result is that of the last client. -/
def growPool (n : ℕ) (p : ClientPool) : ℤ × ClientPool :=
  (if n = 0 then 0 else (p.setup hash {}).1,
    { p with clients := p.clients ++ List.replicate n (p.setup hash {}).2 })

/-- The option `CFG_INITIAL_CLIENTS`. -/
def configInitialClients (n : ℕ) (p : ClientPool) : ClientPool :=
  let p := { p with initialClients := n, maxClients := if p.maxClients < n then n else p.maxClients }
  if p.clients.length < n then (p.growPool hash n).2 else p

/-- `duplicate_strings`, for hosts and aliases. -/
def duplicate (aliases : Bool) (servers : List Server) : List Server :=
  servers.map fun s => (Client.argument aliases s).stored

/-- `ClientPool::updateServers`. The result is the last one that is not 0. -/
def updateServers (aliases : Bool) (servers : List Server) (now : ℤ) (p : ClientPool) :
    Option (ℤ × ClientPool) :=
  let servers := duplicate aliases servers
  (p.clients.mapM (Client.updateServers true servers now)).map fun rs =>
    (rs.foldl (fun rv r => if r.1 ≠ 0 then r.1 else rv) 0,
      { p with servers, clients := rs.map (·.2) })

/-- `ClientPool::init`. -/
def init (aliases : Bool) (servers : List Server) (now : ℤ) (p : ClientPool) :
    Option (ℤ × ClientPool) :=
  (p.updateServers aliases servers now).map fun r => r.2.growPool hash r.2.initialClients

/-- By how many clients `autoGrow` grows the pool. -/
def growth (locked : Bool) (p : ClientPool) : ℕ :=
  if p.clients.length < p.maxClients ∧ locked then
    min (p.maxClients - p.clients.length) (min p.maxGrowth p.clients.length)
  else 0

/-- `ClientPool::autoGrow`. -/
def autoGrow (locked : Bool) (p : ClientPool) : ℤ × ClientPool :=
  if p.clients.length < p.maxClients ∧ locked then p.growPool hash (p.growth locked) else (0, p)

def exec (p : ClientPool) : PoolEvent → Option (ℤ × ClientPool)
  | .config s =>
    some (0, { p with options := p.options.set s, clients := p.clients.map (·.config hash s) })
  | .configInitialClients n => some (0, p.configInitialClients hash n)
  | .configMaxClients n => some (0, { p with maxClients := n })
  | .configMaxGrowth n => some (0, { p with maxGrowth := n })
  | .init aliases servers now => p.init hash aliases servers now
  | .updateServers aliases servers now => p.updateServers aliases servers now
  | .autoGrow locked => some (p.autoGrow hash locked)

end ClientPool

/-- A pool, and the servers of the last `init` or accepted `updateServers`; none before `init`. -/
structure PoolState where
  pool : ClientPool := {}
  agreed : Option (List Server) := none

namespace PoolState

/-- The servers after a call. -/
def agree (agreed : Option (List Server)) (rv : ℤ) : PoolEvent → Option (List Server)
  | .init aliases servers _ => some (ClientPool.duplicate aliases servers)
  | .updateServers aliases servers _ =>
    if rv ≤ 0 then agreed.map fun _ => ClientPool.duplicate aliases servers else agreed
  | _ => agreed

inductive Step (hash : HashFunctionOption → Bytes → ℕ) : PoolState → PoolEvent → PoolState → Prop
  | call {s : PoolState} {ev : PoolEvent} {rv : ℤ} {p : ClientPool}
      (h : s.pool.exec hash ev = some (rv, p)) : Step hash s ev ⟨p, agree s.agreed rv ev⟩

theorem step_of_exec {hash : HashFunctionOption → Bytes → ℕ} {s : PoolState} {rv : ℤ}
    {p : ClientPool} (ev : PoolEvent) (h : s.pool.exec hash ev = some (rv, p)) :
    Step hash s ev ⟨p, agree s.agreed rv ev⟩ := .call h

end PoolState

/-! ### What a call does to the clients -/

namespace ClientPool

variable {hash : HashFunctionOption → Bytes → ℕ} {p p' : ClientPool} {ev : PoolEvent} {rv : ℤ}
  {c c' : Client}

def optionsAfter (p : ClientPool) : PoolEvent → Options
  | .config s => p.options.set s
  | _ => p.options

/-- The servers that the pool keeps after a call. -/
def serversAfter (p : ClientPool) : PoolEvent → List Server
  | .init aliases servers _ => duplicate aliases servers
  | .updateServers aliases servers _ => duplicate aliases servers
  | _ => p.servers

def grown (p : ClientPool) : PoolEvent → ℕ
  | .configInitialClients n => if p.clients.length < n then n else 0
  | .init _ _ _ => p.initialClients
  | .autoGrow locked => p.growth locked
  | _ => 0

/-- A client before and after a call. -/
def Kept (hash : HashFunctionOption → Bytes → ℕ) (p : ClientPool) (ev : PoolEvent)
    (c c' : Client) : Prop :=
  match ev with
  | .config s => c' = c.config hash s
  | .init _ _ now => ∃ rv, c.updateServers true (p.serversAfter ev) now = some (rv, c')
  | .updateServers _ _ now => ∃ rv, c.updateServers true (p.serversAfter ev) now = some (rv, c')
  | _ => c' = c

/-- What a call does: it changes the clients one by one, and makes new ones with the options and the
servers that the pool then has. -/
structure Called (hash : HashFunctionOption → Bytes → ℕ) (p : ClientPool) (ev : PoolEvent)
    (p' : ClientPool) : Prop where
  options : p'.options = p.optionsAfter ev
  servers : p'.servers = p.serversAfter ev
  clients : ∃ kept, List.Forall₂ (Kept hash p ev) p.clients kept ∧
    p'.clients = kept ++ List.replicate (p.grown ev) (p'.setup hash {}).2

theorem forall₂_of_mapM {α β : Type} {f : α → Option β} {l : List α} {rs : List β}
    (h : l.mapM f = some rs) : List.Forall₂ (fun a b => f a = some b) l rs := by
  induction l generalizing rs with
  | nil =>
    rw [List.mapM_nil] at h
    obtain rfl := Option.some.inj h
    exact .nil
  | cons a l ih =>
    rw [List.mapM_cons] at h
    simp only [Option.bind_eq_bind, Option.bind_eq_some_iff, Option.pure_def] at h
    obtain ⟨b, hb, bs, hbs, heq⟩ := h
    obtain rfl := Option.some.inj heq
    exact .cons hb (ih hbs)

theorem exists_left {α β : Type} {R : α → β → Prop} {l : List α} {l' : List β}
    (h : List.Forall₂ R l l') {b : β} (hb : b ∈ l') : ∃ a ∈ l, R a b := by
  induction h with
  | nil => cases hb
  | @cons a b' l l' hab _ ih =>
    rcases List.mem_cons.1 hb with rfl | hb
    · exact ⟨a, List.mem_cons_self, hab⟩
    · obtain ⟨a', ha', h⟩ := ih hb
      exact ⟨a', List.mem_cons_of_mem _ ha', h⟩

theorem exists_right {α β : Type} {R : α → β → Prop} {l : List α} {l' : List β}
    (h : List.Forall₂ R l l') {a : α} (ha : a ∈ l) : ∃ b ∈ l', R a b := by
  obtain ⟨b, hb, hab⟩ := exists_left h.flip ha
  exact ⟨b, hb, hab⟩

theorem kept_refl (hkept : ∀ c, Kept hash p ev c c) :
    List.Forall₂ (Kept hash p ev) p.clients p.clients :=
  List.forall₂_same.2 fun c _ => hkept c

/-- **The cases of a call.** -/
theorem exec_called (h : p.exec hash ev = some (rv, p')) : Called hash p ev p' := by
  cases ev with
  | config s =>
    obtain ⟨rfl, rfl⟩ := Prod.mk.inj (Option.some.inj h)
    refine ⟨rfl, rfl, _, ?_, (List.append_nil _).symm⟩
    rw [List.forall₂_map_right_iff, List.forall₂_same]
    exact fun c _ => rfl
  | configInitialClients n =>
    obtain ⟨rfl, rfl⟩ := Prod.mk.inj (Option.some.inj h)
    by_cases hn : p.clients.length < n
    · have hgrown : p.grown (.configInitialClients n) = n := if_pos hn
      unfold configInitialClients
      dsimp only
      rw [if_pos hn]
      refine ⟨rfl, rfl, p.clients, kept_refl fun c => rfl, ?_⟩
      rw [hgrown]
      rfl
    · have hgrown : p.grown (.configInitialClients n) = 0 := if_neg hn
      unfold configInitialClients
      dsimp only
      rw [if_neg hn]
      refine ⟨rfl, rfl, p.clients, kept_refl fun c => rfl, ?_⟩
      rw [hgrown]
      exact (List.append_nil _).symm
  | configMaxClients n =>
    obtain ⟨rfl, rfl⟩ := Prod.mk.inj (Option.some.inj h)
    exact ⟨rfl, rfl, p.clients, kept_refl fun c => rfl, (List.append_nil _).symm⟩
  | configMaxGrowth n =>
    obtain ⟨rfl, rfl⟩ := Prod.mk.inj (Option.some.inj h)
    exact ⟨rfl, rfl, p.clients, kept_refl fun c => rfl, (List.append_nil _).symm⟩
  | init aliases servers now =>
    obtain ⟨r, hr, heq⟩ := Option.map_eq_some_iff.1 h
    obtain ⟨rs, hrs, rfl⟩ := Option.map_eq_some_iff.1 hr
    obtain ⟨rfl, rfl⟩ := Prod.mk.inj heq
    refine ⟨rfl, rfl, rs.map (·.2), ?_, rfl⟩
    rw [List.forall₂_map_right_iff]
    exact (forall₂_of_mapM hrs).imp fun c r hc => ⟨r.1, hc⟩
  | updateServers aliases servers now =>
    obtain ⟨rs, hrs, heq⟩ := Option.map_eq_some_iff.1 h
    obtain ⟨rfl, rfl⟩ := Prod.mk.inj heq
    refine ⟨rfl, rfl, rs.map (·.2), ?_, (List.append_nil _).symm⟩
    rw [List.forall₂_map_right_iff]
    exact (forall₂_of_mapM hrs).imp fun c r hc => ⟨r.1, hc⟩
  | autoGrow locked =>
    have heq : p.autoGrow hash locked = (rv, p') := Option.some.inj h
    unfold autoGrow at heq
    split_ifs at heq with hgrow
    · obtain ⟨rfl, rfl⟩ := Prod.mk.inj heq
      exact ⟨rfl, rfl, p.clients, kept_refl fun c => rfl, rfl⟩
    · obtain ⟨rfl, rfl⟩ := Prod.mk.inj heq
      refine ⟨rfl, rfl, p.clients, kept_refl fun c => rfl, ?_⟩
      have hzero : p.grown (.autoGrow locked) = 0 := if_neg hgrow
      rw [hzero]
      exact (List.append_nil _).symm

theorem updateServers_rejected {aliases : Bool} {servers : List Server} {now : ℤ}
    (h : p.updateServers aliases servers now = some (rv, p')) (hrv : 0 < rv) :
    ∃ c ∈ p.clients, ∃ rv' c', 0 < rv' ∧
      c.updateServers true (duplicate aliases servers) now = some (rv', c') := by
  obtain ⟨rs, hrs, heq⟩ := Option.map_eq_some_iff.1 h
  have hlast : ∀ (l : List (ℤ × Client)) (rv₀ : ℤ),
      0 < l.foldl (fun rv r => if r.1 ≠ 0 then r.1 else rv) rv₀ → 0 < rv₀ ∨ ∃ r ∈ l, 0 < r.1 := by
    intro l
    induction l with
    | nil => exact fun rv₀ h => .inl h
    | cons r l ih =>
      intro rv₀ h
      rcases ih _ h with h | ⟨r', hr', h⟩
      · change 0 < (if r.1 ≠ 0 then r.1 else rv₀) at h
        split_ifs at h with h0
        · exact .inr ⟨r, List.mem_cons_self, h⟩
        · exact .inl h
      · exact .inr ⟨r', List.mem_cons_of_mem _ hr', h⟩
  rcases hlast rs 0 (by rw [(Prod.mk.inj heq).1]; exact hrv) with h0 | ⟨r, hr, hpos⟩
  · omega
  · obtain ⟨c, hc, hcr⟩ := exists_left (forall₂_of_mapM hrs) hr
    exact ⟨c, hc, r.1, r.2, hpos, hcr⟩

theorem duplicate_stored (aliases : Bool) (servers : List Server) :
    ∀ s ∈ duplicate aliases servers, s.stored = s := by
  intro s hs
  obtain ⟨s', -, rfl⟩ := List.mem_map.1 hs
  exact Server.stored_stored _

theorem setup_servers (hp : ∀ s ∈ p.servers, s.stored = s) :
    (p.setup hash {}).2.servers = p.servers := by
  unfold setup
  rw [Client.servers_init]
  exact (List.map_congr_left hp).trans (List.map_id _)

end ClientPool

/-! ### The servers of the clients -/

theorem Client.servers_config (hash : HashFunctionOption → Bytes → ℕ) (s : Setting) (c : Client) :
    (c.config hash s).servers = c.servers := by
  unfold Client.servers
  cases s with
  | pollTimeout => rfl
  | connectTimeout timeout =>
    show (c.conns.map _).map _ = _
    rw [List.map_map]
    rfl
  | retryTimeout timeout =>
    show (c.conns.map _).map _ = _
    rw [List.map_map]
    rfl
  | hashFunction => rfl
  | maxRetries maxRetries =>
    show (c.conns.map _).map _ = _
    rw [List.map_map]
    rfl
  | setFailover => rfl

namespace PoolState

open ClientPool

variable {hash : HashFunctionOption → Bytes → ℕ} {s s' : PoolState} {ev : PoolEvent}
  {tr : List (Transition PoolState PoolEvent)}

/-- The clients have the servers that are agreed on, and so will new ones. -/
def Agrees (s : PoolState) : Prop :=
  ∀ l, s.agreed = some l → s.pool.servers = l ∧ ∀ c ∈ s.pool.clients, c.servers = l

def AllTake (s : PoolState) (aliases : Bool) (servers : List Server) : Prop :=
  ∀ c ∈ s.pool.clients, List.Forall₂ Server.Takes c.servers (duplicate aliases servers)

/-- The condition on a call. -/
def TakenOver (s : PoolState) : PoolEvent → Prop
  | .init aliases servers _ => s.AllTake aliases servers
  | .updateServers aliases servers _ => s.agreed ≠ none → s.AllTake aliases servers
  | _ => True

structure Agreeing (s : PoolState) : Prop where
  agrees : s.Agrees
  stored : ∀ x ∈ s.pool.servers, x.stored = x

theorem stored_serversAfter (h : ∀ x ∈ s.pool.servers, x.stored = x) (ev : PoolEvent) :
    ∀ x ∈ s.pool.serversAfter ev, x.stored = x := by
  cases ev with
  | init => exact duplicate_stored _ _
  | updateServers => exact duplicate_stored _ _
  | _ => exact h

theorem agrees_of_kept {p : ClientPool} {agreed : Option (List Server)} (h : s.Agreeing)
    (hcall : Called hash s.pool ev p) (hagreed : agreed = s.agreed)
    (hservers : s.pool.serversAfter ev = s.pool.servers)
    (hkept : ∀ c c', Kept hash s.pool ev c c' → c'.servers = c.servers) :
    Agrees ⟨p, agreed⟩ := by
  rintro l hl
  obtain ⟨hlist, hclients⟩ := h.agrees l (hagreed.symm.trans hl)
  have hp : p.servers = l := hcall.servers.trans (hservers.trans hlist)
  refine ⟨hp, fun c hc => ?_⟩
  obtain ⟨kept, hall, heq⟩ := hcall.clients
  have hmem : c ∈ kept ++ List.replicate (s.pool.grown ev) (p.setup hash {}).2 := heq ▸ hc
  rcases List.mem_append.1 hmem with hmem | hmem
  · obtain ⟨d, hd, hdc⟩ := exists_left hall hmem
    rw [hkept d c hdc]
    exact hclients d hd
  · rw [(List.mem_replicate.1 hmem).2, setup_servers, hp]
    rw [hcall.servers, hservers]
    exact h.stored

/-- New servers are agreed on exactly if every client takes them over. -/
theorem agrees_iff_allTake {p : ClientPool} {aliases : Bool} {servers : List Server} (now : ℤ)
    (hcall : Called hash s.pool ev p)
    (hservers : s.pool.serversAfter ev = duplicate aliases servers)
    (hkept : ∀ c c', Kept hash s.pool ev c c' →
      ∃ rv, c.updateServers true (duplicate aliases servers) now = some (rv, c')) :
    Agrees ⟨p, some (duplicate aliases servers)⟩ ↔ s.AllTake aliases servers := by
  have hp : p.servers = duplicate aliases servers := hcall.servers.trans hservers
  have hstored := duplicate_stored aliases servers
  obtain ⟨kept, hall, heq⟩ := hcall.clients
  have htakes : ∀ c c', Kept hash s.pool ev c c' →
      (c'.servers = duplicate aliases servers ↔
        List.Forall₂ Server.Takes c.servers (duplicate aliases servers)) := by
    intro c c' hc
    obtain ⟨rv, hrv⟩ := hkept c c' hc
    exact (Client.updateServers_spec hstored hrv).1
  constructor
  · intro hagrees c hc
    obtain ⟨-, hclients⟩ := hagrees _ rfl
    obtain ⟨d, hd, hcd⟩ := exists_right hall hc
    refine (htakes c d hcd).1 (hclients d ?_)
    show d ∈ p.clients
    rw [heq]
    exact List.mem_append_left _ hd
  · rintro htake l ⟨⟩
    refine ⟨hp, fun c hc => ?_⟩
    have hmem : c ∈ kept ++ List.replicate (s.pool.grown ev) (p.setup hash {}).2 := heq ▸ hc
    rcases List.mem_append.1 hmem with hmem | hmem
    · obtain ⟨d, hd, hdc⟩ := exists_left hall hmem
      exact (htakes d c hdc).2 (htake d hd)
    · rw [(List.mem_replicate.1 hmem).2, setup_servers (hp ▸ hstored), hp]

theorem agrees_iff_takenOver (h : s.Agreeing) (hstep : Step hash s ev s') :
    s'.Agrees ↔ s.TakenOver ev := by
  obtain ⟨hexec⟩ := hstep
  have hcall := exec_called hexec
  cases ev with
  | config x =>
    refine iff_of_true (agrees_of_kept h hcall rfl rfl ?_) trivial
    rintro c _ rfl
    exact Client.servers_config hash x c
  | init aliases servers now => exact agrees_iff_allTake now hcall rfl fun c c' hc => hc
  | updateServers aliases servers now =>
    rename_i rv p
    rcases hagreed : s.agreed with _ | l
    · refine iff_of_true (fun l hl => ?_) fun h => absurd hagreed h
      simp [agree] at hl
    · by_cases hrv : rv ≤ 0
      · have hnew : agree s.agreed rv (.updateServers aliases servers now) =
            some (duplicate aliases servers) := by simp [agree, hrv, hagreed]
        rw [← hagreed, hnew]
        have hiff := agrees_iff_allTake now hcall rfl fun c c' hc => hc
        exact hiff.trans ⟨fun h _ => h, fun h => h (by simp [hagreed])⟩
      · -- a client has rejected servers that are not its own, and the pool keeps them
        have hold : agree s.agreed rv (.updateServers aliases servers now) = some l := by
          simp [agree, hrv, hagreed]
        obtain ⟨c, hc, rv', c', hpos, hc'⟩ := updateServers_rejected hexec (by omega)
        obtain ⟨hiff, hkept⟩ := Client.updateServers_spec (duplicate_stored aliases servers) hc'
        obtain ⟨rfl, hne⟩ := hkept hpos
        have hl : c'.servers = l := (h.agrees l hagreed).2 _ hc
        rw [← hagreed, hold]
        refine iff_of_false (fun hagrees => ?_) fun htake => ?_
        · exact hne (hl.trans ((hagrees l rfl).1.symm.trans hcall.servers))
        · exact hne (hiff.2 (htake (by simp [hagreed]) _ hc))
  | configInitialClients n =>
    exact iff_of_true (agrees_of_kept h hcall rfl rfl fun c c' hc => congrArg _ hc) trivial
  | configMaxClients n =>
    exact iff_of_true (agrees_of_kept h hcall rfl rfl fun c c' hc => congrArg _ hc) trivial
  | configMaxGrowth n =>
    exact iff_of_true (agrees_of_kept h hcall rfl rfl fun c c' hc => congrArg _ hc) trivial
  | autoGrow locked =>
    exact iff_of_true (agrees_of_kept h hcall rfl rfl fun c c' hc => congrArg _ hc) trivial

theorem stored_step (h : ∀ x ∈ s.pool.servers, x.stored = x) (hstep : Step hash s ev s') :
    ∀ x ∈ s'.pool.servers, x.stored = x := by
  obtain ⟨hexec⟩ := hstep
  rw [(exec_called hexec).servers]
  exact stored_serversAfter h ev

/-- **The servers of the clients.** In a run of calls all clients have, after each call since
`init`, the servers of the last `init` or accepted `updateServers`, and the pool keeps them for new
clients, exactly if every client takes over the servers of each such call. -/
theorem clientPool_servers_iff (h : Run (Step hash) {} tr s) :
    (∀ x ∈ tr, x.after.Agrees) ↔ ∀ x ∈ tr, x.before.TakenOver x.event := by
  refine h.forall_iff (I := Agreeing) (P := fun x => x.after.Agrees)
    ⟨fun l hl => (Option.some_ne_none l hl.symm).elim, fun x hx => absurd hx List.not_mem_nil⟩ ?_ ?_
  · intro s ev s' hs hstep htaken
    have hagrees := (agrees_iff_takenOver hs hstep).2 htaken
    exact ⟨⟨hagrees, stored_step hs.stored hstep⟩, hagrees⟩
  · intro s ev s' hs hstep hnot hagrees
    exact hnot ((agrees_iff_takenOver hs hstep).1 hagrees)

/-- A pool that has grown takes another server. -/
theorem clientPool_servers_grown : ∃ (tr : List (Transition PoolState PoolEvent)) (s : PoolState),
    Run (Step fun _ _ => 0) {} tr s ∧ s.agreed = some [⟨ascii "b", 1, none⟩] ∧
      s.pool.clients.length = 2 ∧ ∀ x ∈ tr, x.after.Agrees := by
  have hinit : Run (Step fun _ _ => 0) {} _ _ :=
    .snoc .nil (step_of_exec (.init true [⟨ascii "a", 1, none⟩] 0) rfl)
  have hgrow := hinit.snoc (step_of_exec (.autoGrow true) rfl)
  have hrun := hgrow.snoc (step_of_exec (.updateServers true [⟨ascii "b", 1, none⟩] 0) rfl)
  refine ⟨_, _, hrun, rfl, rfl, (clientPool_servers_iff hrun).2 fun x hx => ?_⟩
  simp only [List.nil_append, List.cons_append, List.mem_cons, List.not_mem_nil, or_false] at hx
  rcases hx with rfl | rfl | rfl
  · exact fun c hc => absurd hc List.not_mem_nil
  · trivial
  · refine fun _ c hc => ?_
    have hservers : c.servers = [⟨ascii "a", 1, none⟩] := by
      rcases List.mem_cons.1 hc with rfl | hc
      · rfl
      · rw [List.mem_singleton.1 hc]
        rfl
    rw [hservers]
    exact .cons (.inl rfl) .nil
/-- A second server is rejected by the only client, and kept for the next one. -/
theorem clientPool_servers_rejected : ¬ ∃ hash, ∀ (tr : List (Transition PoolState PoolEvent))
    (s : PoolState), Run (Step hash) {} tr s → ∀ x ∈ tr, x.after.Agrees := by
  rintro ⟨hash, h⟩
  have hinit : Run (Step hash) {} _ _ :=
    .snoc .nil (step_of_exec (.init true [⟨ascii "a", 1, none⟩] 0) rfl)
  have hrun := hinit.snoc
    (step_of_exec (.updateServers true [⟨ascii "a", 1, none⟩, ⟨ascii "b", 1, none⟩] 0) rfl)
  obtain ⟨hlist, -⟩ := h _ _ hrun _ (List.mem_append_right _ (List.mem_singleton_self _)) _ rfl
  have hlength : 2 = 1 := congrArg List.length hlist
  omega

end PoolState

/-! ### The options of the clients -/

/-- A connection works with the options that are set, and with the defaults of the others. -/
structure ServerConnection.Works (o : Options) (e : ServerConnection) : Prop where
  connectTimeout_eq : e.connectTimeout = o.connectTimeout.getD ({} : ServerConnection).connectTimeout
  retryTimeout_eq : e.conn.retryTimeout = o.retryTimeout.getD ({} : Connection).retryTimeout
  maxRetries_eq : e.conn.maxRetries = o.maxRetries.getD ({} : Connection).maxRetries

/-- A client works with the options that are set, and with the defaults of the others. -/
structure Client.Works (hash : HashFunctionOption → Bytes → ℕ) (o : Options) (c : Client) :
    Prop where
  pollTimeout_eq : c.pollTimeout = o.pollTimeout.getD ({} : Client).pollTimeout
  hashFunction_eq : c.connSelector.hashFunction = o.hashFunction.map hash
  useFailover_eq : c.connSelector.useFailover = o.setFailover.getD ({} : KetamaSelector).useFailover
  conns : ∀ e ∈ c.conns, e.Works o

variable {hash : HashFunctionOption → Bytes → ℕ} {o : Options} {c c' : Client} {now rv : ℤ}

theorem Client.Works.config (h : c.Works hash o) (s : Setting) :
    (c.config hash s).Works hash (o.set s) := by
  have hmap : ∀ (o' : Options) (f : ServerConnection → ServerConnection),
      (∀ e, e.Works o → (f e).Works o') → ∀ e ∈ c.conns.map f, e.Works o' := by
    intro o' f hf e he
    obtain ⟨d, hd, rfl⟩ := List.mem_map.1 he
    exact hf d (h.conns d hd)
  cases s with
  | pollTimeout timeout =>
    exact ⟨rfl, h.hashFunction_eq, h.useFailover_eq, fun e he =>
      ⟨(h.conns e he).1, (h.conns e he).2, (h.conns e he).3⟩⟩
  | connectTimeout timeout =>
    exact ⟨h.pollTimeout_eq, h.hashFunction_eq, h.useFailover_eq,
      hmap _ _ fun e he => ⟨rfl, he.2, he.3⟩⟩
  | retryTimeout timeout =>
    exact ⟨h.pollTimeout_eq, h.hashFunction_eq, h.useFailover_eq,
      hmap _ _ fun e he => ⟨he.1, rfl, he.3⟩⟩
  | hashFunction fn =>
    exact ⟨h.pollTimeout_eq, rfl, h.useFailover_eq, fun e he =>
      ⟨(h.conns e he).1, (h.conns e he).2, (h.conns e he).3⟩⟩
  | maxRetries maxRetries =>
    exact ⟨h.pollTimeout_eq, h.hashFunction_eq, h.useFailover_eq,
      hmap _ _ fun e he => ⟨he.1, he.2, rfl⟩⟩
  | setFailover on =>
    exact ⟨h.pollTimeout_eq, h.hashFunction_eq, rfl, fun e he =>
      ⟨(h.conns e he).1, (h.conns e he).2, (h.conns e he).3⟩⟩

theorem ServerConnection.Works.updateServer {e : ServerConnection} (h : e.Works o) (now : ℤ)
    (s : Server) : (Client.updateServer now e s).Works o := by
  have hdead : ((e.conn.markDead now).reset.retryTimeout = e.conn.retryTimeout) ∧
      (e.conn.markDead now).reset.maxRetries = e.conn.maxRetries := by
    unfold Connection.markDead Connection.close
    split_ifs <;> exact ⟨rfl, rfl⟩
  unfold Client.updateServer
  split_ifs
  · exact h
  · exact ⟨h.1, hdead.1.trans h.2, hdead.2.trans h.3⟩

theorem Client.Works.updateServers {aliases : Bool} {l : List Server} (h : c.Works hash o)
    (hupdate : c.updateServers aliases l now = some (rv, c')) : c'.Works hash o := by
  unfold Client.updateServers at hupdate
  by_cases hlen : c.conns.length ≠ l.length
  · rw [if_pos hlen] at hupdate
    obtain ⟨-, rfl⟩ := Prod.mk.inj (Option.some.inj hupdate)
    exact h
  · rw [if_neg hlen, Option.map_eq_some_iff] at hupdate
    obtain ⟨differs, -, heq⟩ := hupdate
    cases differs with
    | true =>
      obtain ⟨-, rfl⟩ := Prod.mk.inj heq
      exact h
    | false =>
      obtain ⟨-, rfl⟩ := Prod.mk.inj heq
      refine ⟨h.pollTimeout_eq, h.hashFunction_eq, h.useFailover_eq, fun e he => ?_⟩
      have hmem : e ∈ List.zipWith (Client.updateServer now) c.conns (l.map (argument aliases)) := he
      rw [← List.map_uncurry_zip_eq_zipWith] at hmem
      obtain ⟨⟨d, s⟩, hd, rfl⟩ := List.mem_map.1 hmem
      exact (h.conns d (List.of_mem_zip hd).1).updateServer now s

namespace ClientPool

/-- A client that is set up works with the options of a client; its connections have the defaults. -/
theorem setup_works_iff (hash : HashFunctionOption → Bytes → ℕ) (p : ClientPool) :
    (p.setup hash {}).2.Works hash p.options ↔
    p.servers = [] ∨ ({} : ServerConnection).Works p.options := by
  have hoptions : ∀ o : Options,
      let c := o.values.foldl (fun c s => s.elim c fun s => c.config hash s) ({} : Client)
      c.pollTimeout = o.pollTimeout.getD ({} : Client).pollTimeout ∧
        c.connSelector.hashFunction = o.hashFunction.map hash ∧
        c.connSelector.useFailover = o.setFailover.getD ({} : KetamaSelector).useFailover := by
    rintro ⟨_ | _, _ | _, _ | _, _ | _, _ | _, _ | _⟩ <;> exact ⟨rfl, rfl, rfl⟩
  obtain ⟨hpoll, hfn, hfailover⟩ := hoptions p.options
  have hconns : (p.setup hash {}).2.conns =
      p.servers.map fun s => ServerConnection.init (Client.argument true s) {} := rfl
  have hdefault : ∀ s : Server, (ServerConnection.init s {}).Works p.options ↔
      ({} : ServerConnection).Works p.options :=
    fun s => ⟨fun h => ⟨h.1, h.2, h.3⟩, fun h => ⟨h.1, h.2, h.3⟩⟩
  constructor
  · intro h
    rcases hl : p.servers with _ | ⟨s, l⟩
    · exact .inl rfl
    · refine .inr ((hdefault s).1 (h.conns _ ?_))
      rw [hconns, hl]
      exact List.mem_cons_self
  · intro h
    refine ⟨hpoll, hfn, hfailover, fun e he => ?_⟩
    rw [hconns] at he
    obtain ⟨s, hs, rfl⟩ := List.mem_map.1 he
    rcases h with h | h
    · rw [h] at hs
      cases hs
    · exact (hdefault _).2 h

end ClientPool

namespace PoolState

variable {s s' : PoolState} {ev : PoolEvent} {tr : List (Transition PoolState PoolEvent)}

def setting : PoolEvent → Option Setting
  | .config s => some s
  | _ => none

/-- All clients work with the options that are set. -/
def Works (hash : HashFunctionOption → Bytes → ℕ) (s : PoolState) : Prop :=
  ∀ c ∈ s.pool.clients, c.Works hash s.pool.options

/-- A call makes no client with connections while an option of the connections is set. -/
def NothingMissed (s : PoolState) (ev : PoolEvent) : Prop :=
  s.pool.grown ev = 0 ∨ s.pool.serversAfter ev = [] ∨
    ({} : ServerConnection).Works (s.pool.optionsAfter ev)

theorem works_iff_nothingMissed (h : s.Works hash) (hstep : Step hash s ev s') :
    s'.Works hash ↔ s.NothingMissed ev := by
  obtain ⟨hexec⟩ := hstep
  rename_i rv p
  have hcall := ClientPool.exec_called hexec
  obtain ⟨kept, hall, heq⟩ := hcall.clients
  have hkept : ∀ c ∈ kept, c.Works hash (s.pool.optionsAfter ev) := by
    intro c hc
    obtain ⟨d, hd, hdc⟩ := ClientPool.exists_left hall hc
    have hworks := h d hd
    cases ev with
    | config x =>
      obtain rfl : c = d.config hash x := hdc
      exact hworks.config x
    | init aliases servers now =>
      obtain ⟨rv, hrv⟩ := hdc
      exact hworks.updateServers hrv
    | updateServers aliases servers now =>
      obtain ⟨rv, hrv⟩ := hdc
      exact hworks.updateServers hrv
    | _ =>
      obtain rfl : c = d := hdc
      exact hworks
  show (∀ c ∈ p.clients, c.Works hash p.options) ↔ _
  have hnew := ClientPool.setup_works_iff hash p
  rw [hcall.servers, hcall.options] at hnew
  rw [heq, hcall.options]
  unfold NothingMissed
  by_cases hzero : s.pool.grown ev = 0
  · refine iff_of_true ?_ (.inl hzero)
    rw [hzero]
    simpa using hkept
  · rw [or_iff_right hzero, ← hnew, List.forall_mem_append]
    constructor
    · rintro ⟨-, hall⟩
      exact hall _ (List.mem_replicate.2 ⟨hzero, rfl⟩)
    · intro hw
      refine ⟨hkept, fun c hc => ?_⟩
      rw [(List.mem_replicate.1 hc).2]
      exact hw

theorem options_eq (h : Run (Step hash) {} tr s) :
    s.pool.options = (tr.filterMap fun x => setting x.event).foldl Options.set {} := by
  induction h with
  | nil => rfl
  | @snoc tr s s' ev _ hs ih =>
    obtain ⟨hexec⟩ := hs
    rw [List.filterMap_append, List.foldl_append, ← ih]
    show ClientPool.options _ = _
    rw [(ClientPool.exec_called hexec).options]
    cases ev <;> rfl

/-- **The options of the clients.** The pool keeps the last value that is configured for each option.
In a run of calls all clients and their connections work with these values, and with the defaults of
the other options, after each call, exactly if no call makes a client with connections while a value
other than the default is set for an option of the connections. -/
theorem clientPool_options_iff (h : Run (Step hash) {} tr s) :
    s.pool.options = (tr.filterMap fun x => setting x.event).foldl Options.set {} ∧
      ((∀ x ∈ tr, x.after.Works hash) ↔ ∀ x ∈ tr, x.before.NothingMissed x.event) := by
  refine ⟨options_eq h, ?_⟩
  refine h.forall_iff (I := Works hash) (P := fun x => x.after.Works hash)
    (fun c hc => absurd hc List.not_mem_nil) ?_ ?_
  · intro s ev s' hs hstep hmissed
    have hworks := (works_iff_nothingMissed hs hstep).2 hmissed
    exact ⟨hworks, hworks⟩
  · intro s ev s' hs hstep hnot hworks
    exact hnot ((works_iff_nothingMissed hs hstep).1 hworks)

/-- A hash function that is set before `init`, and a timeout that is set when the pool has grown. -/
theorem clientPool_options_grown : ∃ (tr : List (Transition PoolState PoolEvent)) (s : PoolState),
    Run (Step fun _ _ => 0) {} tr s ∧ s.pool.options.connectTimeout = some 100 ∧
      s.pool.clients.length = 2 ∧ ∀ x ∈ tr, x.after.Works fun _ _ => 0 := by
  have hconfig : Run (Step fun _ _ => 0) {} _ _ :=
    .snoc .nil (step_of_exec (.config (.hashFunction .fnv1a_32)) rfl)
  have hinit := hconfig.snoc (step_of_exec (.init true [⟨ascii "a", 1, none⟩] 0) rfl)
  have hgrow := hinit.snoc (step_of_exec (.autoGrow true) rfl)
  have hrun := hgrow.snoc (step_of_exec (.config (.connectTimeout 100)) rfl)
  refine ⟨_, _, hrun, rfl, rfl, (clientPool_options_iff hrun).2.2 fun x hx => ?_⟩
  simp only [List.nil_append, List.cons_append, List.mem_cons, List.not_mem_nil, or_false] at hx
  rcases hx with rfl | rfl | rfl | rfl
  · exact .inl rfl
  · exact .inr (.inr ⟨rfl, rfl, rfl⟩)
  · exact .inr (.inr ⟨rfl, rfl, rfl⟩)
  · exact .inl rfl
/-- A timeout that is set before `init` does not reach the connections. -/
theorem clientPool_options_missed : ¬ ∃ hash, ∀ (tr : List (Transition PoolState PoolEvent))
    (s : PoolState), Run (Step hash) {} tr s → ∀ x ∈ tr, x.after.Works hash := by
  rintro ⟨hash, h⟩
  have hconfig : Run (Step hash) {} _ _ := .snoc .nil (step_of_exec (.config (.connectTimeout 100)) rfl)
  have hrun := hconfig.snoc (step_of_exec (.init true [⟨ascii "a", 1, none⟩] 0) rfl)
  have hworks := h _ _ hrun _ (List.mem_append_right _ (List.mem_singleton_self _)) _
    List.mem_cons_self
  have hconn := (hworks.conns _ List.mem_cons_self).connectTimeout_eq
  have hvalue : (10 : ℤ) = 100 := hconn
  omega

end PoolState

end Libmc
