import Libmc.ClientPool
import Libmc.LockPool
import Libmc.Support.Locking

/-!
# The locks of a pool of clients

Threads call `config`, `init`, `updateServers`, `_acquire` and `_release`, and `_acquire` starts
threads that call `autoGrow`. A place is where a thread is between two operations on locks. `config`
takes `m_acquiring_growth` while it holds `m_pool_lock`; `init` and `autoGrow` take them the other
way round. There is a deadlock exactly when the two meet (`clientPool_deadlock_iff`).
-/

namespace Libmc

/-- The locks of `ClientPool` and `LockPool`. -/
inductive PoolLock
  | pool
  | growth
  | fifo
  | worker (i : ℕ)
  deriving DecidableEq, Repr

/-- The options of `ClientPool::config`. -/
inductive ConfigOption
  | client (s : Setting)
  | initialClients (n : ℕ)
  | maxClients (n : ℕ)
  | maxGrowth (n : ℕ)
  deriving DecidableEq, Repr

/-- An option of the pool, for which `config` takes `m_acquiring_growth`. -/
def ConfigOption.OfPool : ConfigOption → Prop
  | client _ => False
  | _ => True

inductive Place
  | idle
  -- `config`: before its locks, after the first one, after both
  | config (opt : ConfigOption)
  | configLocked (opt : ConfigOption)
  | configGrowth (opt : ConfigOption)
  -- `updateServers`, which `init` calls too: before `m_pool_lock` and `m_fifo_access`, before and
  -- after the lock of a worker, after the last worker
  | update (init : Bool) (servers : List Server) (now : ℤ)
  | updateFifo (init : Bool) (now : ℤ)
  | updateWorker (init : Bool) (now : ℤ) (i : ℕ)
  | updateClient (init : Bool) (now : ℤ) (i : ℕ)
  | updateDone (init : Bool)
  -- `init`, before each of its locks
  | initGrowth
  | initPool
  -- `autoGrow`, before each of its locks
  | autoGrow
  | autoGrowCheck
  | autoGrowPool
  -- `addWorkers`, called by `growPool`, before and after `m_fifo_access`
  | grow (n : ℕ)
  | growAdd (n : ℕ)
  -- `_acquire`: around `m_acquiring_growth`, around `m_fifo_access`, in `wait`, after it, before the
  -- lock of the worker
  | acquire
  | acquireCheck
  | acquireFifo
  | acquireSection
  | acquireWait
  | resumeFifo
  | resumeSection
  | acquireLock (i : ℕ)
  -- with a client, and `_release` around `m_fifo_access`
  | client (i : ℕ)
  | releaseFifo (i : ℕ)
  | releaseSection (i : ℕ)

namespace Place

def holds : Place → List (PoolLock × LockMode)
  | configLocked _ => [(.pool, .exclusive)]
  | configGrowth _ => [(.pool, .exclusive), (.growth, .exclusive)]
  | updateFifo _ _ => [(.pool, .exclusive)]
  | updateWorker _ _ _ => [(.pool, .exclusive), (.fifo, .exclusive)]
  | updateClient _ _ i => [(.pool, .exclusive), (.fifo, .exclusive), (.worker i, .exclusive)]
  | updateDone _ => [(.pool, .exclusive), (.fifo, .exclusive)]
  | initPool => [(.growth, .exclusive)]
  | autoGrowCheck => [(.growth, .exclusive)]
  | autoGrowPool => [(.growth, .exclusive)]
  | grow _ => [(.growth, .exclusive), (.pool, .exclusive)]
  | growAdd _ => [(.growth, .exclusive), (.pool, .exclusive), (.fifo, .exclusive)]
  | acquireCheck => [(.growth, .shared)]
  | acquireSection => [(.fifo, .exclusive)]
  | resumeSection => [(.fifo, .exclusive)]
  | client i => [(.worker i, .exclusive)]
  | releaseSection _ => [(.fifo, .exclusive)]
  | _ => []

def wants : Place → Option (PoolLock × LockMode)
  | config _ => some (.pool, .exclusive)
  | configLocked (.client _) => none
  | configLocked _ => some (.growth, .exclusive)
  | update _ _ _ => some (.pool, .exclusive)
  | updateFifo _ _ => some (.fifo, .exclusive)
  | updateWorker _ _ i => some (.worker i, .exclusive)
  | initGrowth => some (.growth, .exclusive)
  | initPool => some (.pool, .exclusive)
  | autoGrow => some (.growth, .exclusive)
  | autoGrowPool => some (.pool, .exclusive)
  | grow _ => some (.fifo, .exclusive)
  | acquire => some (.growth, .shared)
  | acquireFifo => some (.fifo, .exclusive)
  | resumeFifo => some (.fifo, .exclusive)
  | acquireLock i => some (.worker i, .exclusive)
  | releaseFifo _ => some (.fifo, .exclusive)
  | _ => none

end Place

def poolLocking : Locking Place PoolLock := ⟨Place.holds, Place.wants⟩

structure PoolShared (T : Type) where
  pool : ClientPool := {}
  lockPool : LockPool T := {}

namespace PoolShared

variable {T : Type} [DecidableEq T]

/-- `ClientPool::shouldGrowUnsafe`. -/
def shouldGrowUnsafe (s : PoolShared T) : Bool :=
  s.pool.clients.length < s.pool.maxClients && s.lockPool.locked

/-- The loop of `updateServers` before its round for a client. -/
def updateNext (init : Bool) (now : ℤ) (i : ℕ) (s : PoolShared T) : Place :=
  if i < s.pool.clients.length then .updateWorker init now i else .updateDone init

/-- `growPool`, until it calls `addWorkers`. -/
def growPool (hash : HashFunctionOption → Bytes → ℕ) (n : ℕ) (s : PoolShared T) : PoolShared T :=
  { s with pool := (s.pool.growPool hash n).2 }

/-- The `switch` of `config`. -/
def configure (hash : HashFunctionOption → Bytes → ℕ) (s : PoolShared T) :
    ConfigOption → Place × PoolShared T
  | .client x => (.idle,
      { s with
        pool :=
          { s.pool with
            options := s.pool.options.set x
            clients := s.pool.clients.map (·.config hash x) } })
  | .initialClients n =>
    let s :=
      { s with
        pool :=
          { s.pool with
            initialClients := n
            maxClients := if s.pool.maxClients < n then n else s.pool.maxClients } }
    if s.pool.clients.length < n then (.grow n, s.growPool hash n) else (.idle, s)
  | .maxClients n => (.idle, { s with pool := { s.pool with maxClients := n } })
  | .maxGrowth n => (.idle, { s with pool := { s.pool with maxGrowth := n } })

end PoolShared

/-- What a thread does when it has got the lock it waits for. -/
inductive Local {T : Type} [DecidableEq T] (hash : HashFunctionOption → Bytes → ℕ) (t : T) :
    Place → PoolShared T → Place → PoolShared T → Prop
  | callConfig (opt s) : Local hash t .idle s (.config opt) s
  | callInit (aliases servers now s) :
      Local hash t .idle s (.update true (ClientPool.duplicate aliases servers) now) s
  | callUpdate (aliases servers now s) :
      Local hash t .idle s (.update false (ClientPool.duplicate aliases servers) now) s
  | callAcquire (s) : Local hash t .idle s .acquire s
  | config (opt s) : Local hash t (.config opt) s (.configLocked opt) s
  | configClient (x s) : Local hash t (.configLocked (.client x)) s .idle
      (s.configure hash (.client x)).2
  | configGrowth (opt s) (h : opt.OfPool) :
      Local hash t (.configLocked opt) s (.configGrowth opt) s
  | configPool (opt s) (h : opt.OfPool) :
      Local hash t (.configGrowth opt) s (s.configure hash opt).1 (s.configure hash opt).2
  | update (init servers now s) : Local hash t (.update init servers now) s (.updateFifo init now)
      { s with pool := { s.pool with servers } }
  | updateFifo (init now s) : Local hash t (.updateFifo init now) s (s.updateNext init now 0) s
  | updateWorker (init now i s) :
      Local hash t (.updateWorker init now i) s (.updateClient init now i) s
  | updateClient (init now i s) {rv : ℤ} {c c' : Client} (hc : s.pool.clients[i]? = some c)
      (h : c.updateServers true s.pool.servers now = some (rv, c')) :
      Local hash t (.updateClient init now i) s (s.updateNext init now (i + 1))
        { s with pool := { s.pool with clients := s.pool.clients.set i c' } }
  | updateDone (init s) :
      Local hash t (.updateDone init) s (if init then .initGrowth else .idle) s
  | initGrowth (s) : Local hash t .initGrowth s .initPool s
  | initPool (s) : Local hash t .initPool s (.grow s.pool.initialClients)
      (s.growPool hash s.pool.initialClients)
  | autoGrow (s) : Local hash t .autoGrow s .autoGrowCheck s
  | autoGrowCheck (s) : Local hash t .autoGrowCheck s
      (if s.shouldGrowUnsafe then .autoGrowPool else .idle) s
  | autoGrowPool (s) : Local hash t .autoGrowPool s (.grow (s.pool.growth true))
      (s.growPool hash (s.pool.growth true))
  | grow (n s) : Local hash t (.grow n) s (.growAdd n) s
  | growAdd (n s) : Local hash t (.growAdd n) s .idle
      { s with lockPool := s.lockPool.addWorkers n }
  | acquire (s) : Local hash t .acquire s .acquireCheck s
  | acquireCheck (s) (h : s.shouldGrowUnsafe = false) : Local hash t .acquireCheck s .acquireFifo s
  | acquireFifo (s) : Local hash t .acquireFifo s .acquireSection s
  | acquireWait (s) {p : LockPool T} (hl : s.lockPool.locked = true)
      (h : s.lockPool.acquireWorker t = some p) :
      Local hash t .acquireSection s .acquireWait { s with lockPool := p }
  | acquireWorker (s) {p : LockPool T} {i : ℕ} (hl : s.lockPool.locked = false)
      (h : s.lockPool.acquireWorker t = some p) (hi : p.held.head? = some (i, t)) :
      Local hash t .acquireSection s (.acquireLock i) { s with lockPool := p }
  | wake (s) : Local hash t .acquireWait s .resumeFifo s
  | resumeFifo (s) : Local hash t .resumeFifo s .resumeSection s
  | resume (s) {p : LockPool T} {i : ℕ} (h : s.lockPool.resume t = some p)
      (hi : p.held.head? = some (i, t)) :
      Local hash t .resumeSection s (.acquireLock i) { s with lockPool := p }
  | acquireLock (i s) : Local hash t (.acquireLock i) s (.client i) s
  | release (i s) : Local hash t (.client i) s (.releaseFifo i) s
  | releaseFifo (i s) : Local hash t (.releaseFifo i) s (.releaseSection i) s
  | releaseSection (i s) : Local hash t (.releaseSection i) s .idle
      { s with lockPool := s.lockPool.releaseWorker i t }

structure PoolThreads (T : Type) where
  place : T → Place := fun _ => .idle
  shared : PoolShared T := {}

namespace PoolThreads

variable {T : Type} [DecidableEq T] {hash : HashFunctionOption → Bytes → ℕ} {s s' : PoolThreads T}
  {t u v : T} {x y : Place} {sh sh' : PoolShared T}

/-- A thread moves when the lock that it waits for is granted. `_acquire` starts a thread to grow the
pool. -/
inductive Step (hash : HashFunctionOption → Bytes → ℕ) :
    PoolThreads T → T → PoolThreads T → Prop
  | move {s : PoolThreads T} {t : T} {pc : Place} {shared : PoolShared T}
      (hgrant : ∀ l m, poolLocking.wants (s.place t) = some (l, m) →
        poolLocking.Grants s.place l m)
      (h : Local hash t (s.place t) s.shared pc shared) :
      Step hash s t ⟨Function.update s.place t pc, shared⟩
  | grow {s : PoolThreads T} {t u : T} (ht : s.place t = .acquireCheck)
      (h : s.shared.shouldGrowUnsafe = true) (hu : s.place u = .idle) :
      Step hash s t
        { s with place := Function.update (Function.update s.place t .acquireFifo) u .autoGrow }

/-- Some threads wait for each other in a circle. -/
def Deadlocked (s : PoolThreads T) : Prop := poolLocking.Deadlocked s.place

/-- `config` holds `m_pool_lock` and waits for `m_acquiring_growth`. -/
def AtConfig (x : Place) : Prop := ∃ opt : ConfigOption, opt.OfPool ∧ x = .configLocked opt

/-- `init` or `autoGrow` holds `m_acquiring_growth` and waits for `m_pool_lock`. -/
def AtGrowth (x : Place) : Prop := x = .initPool ∨ x = .autoGrowPool

/-- The next step of a thread does not make `config` meet `init` or `autoGrow`. -/
def Apart (s : PoolThreads T) (t : T) : Prop :=
  match s.place t with
  | .config opt => opt.OfPool → ∀ u, ¬ AtGrowth (s.place u)
  | .initGrowth => ∀ u, ¬ AtConfig (s.place u)
  | .autoGrowCheck => s.shared.shouldGrowUnsafe → ∀ u, ¬ AtConfig (s.place u)
  | _ => True

/-! ### What a thread holds -/

omit [DecidableEq T] in
theorem configure_fst (hash : HashFunctionOption → Bytes → ℕ) (sh : PoolShared T)
    (opt : ConfigOption) :
    (sh.configure hash opt).1 = .idle ∨ ∃ n, (sh.configure hash opt).1 = .grow n := by
  cases opt with
  | initialClients n =>
    unfold PoolShared.configure
    by_cases hn : sh.pool.clients.length < n
    · dsimp only
      rw [if_pos hn]
      exact .inr ⟨n, rfl⟩
    · dsimp only
      rw [if_neg hn]
      exact .inl rfl
  | _ => exact .inl rfl

omit [DecidableEq T] in
theorem updateNext_cases (init : Bool) (now : ℤ) (i : ℕ) (sh : PoolShared T) :
    sh.updateNext init now i = .updateWorker init now i ∨
      sh.updateNext init now i = .updateDone init := by
  unfold PoolShared.updateNext
  split_ifs
  · exact .inl rfl
  · exact .inr rfl

/-- A thread takes no lock but the one that it has waited for. -/
theorem follows_of_local (h : Local hash t x sh y sh') : poolLocking.Follows x y := by
  intro l hl
  change l ∈ y.holds at hl
  show l ∈ x.holds ∨ x.wants = some l
  cases h with
  | configGrowth opt _ h =>
    cases opt with
    | client => exact h.elim
    | _ =>
      simp only [Place.holds, Place.wants, List.mem_cons, Option.some.injEq] at hl ⊢
      tauto
  | configPool opt =>
    rcases configure_fst hash sh opt with heq | ⟨n, heq⟩
    · rw [heq] at hl
      cases hl
    · rw [heq] at hl
      simp only [Place.holds, List.mem_cons] at hl ⊢
      tauto
  | updateFifo | updateClient =>
    unfold PoolShared.updateNext at hl
    split_ifs at hl <;>
      simp only [Place.holds, Place.wants, List.mem_cons, Option.some.injEq] at hl ⊢ <;> tauto
  | updateDone init | autoGrowCheck =>
    split_ifs at hl <;> simp_all [Place.holds]
  | _ =>
    simp only [Place.holds, Place.wants, List.mem_cons, Option.some.injEq, List.not_mem_nil] at hl ⊢
    try tauto

theorem config_of_local (h : Local hash t x sh y sh') (hy : AtConfig y) :
    ∃ opt : ConfigOption, opt.OfPool ∧ x = .config opt := by
  obtain ⟨opt, hopt, heq⟩ := hy
  cases h with
  | config opt' =>
    obtain rfl : opt' = opt := by simpa using heq
    exact ⟨opt', hopt, rfl⟩
  | configPool opt' =>
    rcases configure_fst hash sh opt' with h | ⟨n, h⟩
    · cases h.symm.trans heq
    · cases h.symm.trans heq
  | updateFifo init now =>
    rcases updateNext_cases init now 0 sh with h | h
    · cases h.symm.trans heq
    · cases h.symm.trans heq
  | updateClient init now i =>
    rcases updateNext_cases init now (i + 1) sh with h | h
    · cases h.symm.trans heq
    · cases h.symm.trans heq
  | updateDone init =>
    cases init <;> cases heq
  | autoGrowCheck =>
    split_ifs at heq
  | _ => cases heq

theorem growth_of_local (h : Local hash t x sh y sh') (hy : AtGrowth y) :
    x = .initGrowth ∨ x = .autoGrowCheck ∧ sh.shouldGrowUnsafe = true := by
  cases h with
  | initGrowth => exact .inl rfl
  | autoGrowCheck =>
    by_cases hgrow : sh.shouldGrowUnsafe = true
    · exact .inr ⟨rfl, hgrow⟩
    · rw [if_neg hgrow] at hy
      rcases hy with h | h <;> cases h
  | configPool opt =>
    rcases configure_fst hash sh opt with h | ⟨n, h⟩ <;>
      · rw [h] at hy
        rcases hy with h | h <;> cases h
  | updateFifo init now =>
    rcases updateNext_cases init now 0 sh with h | h <;>
      · rw [h] at hy
        rcases hy with h | h <;> cases h
  | updateClient init now i =>
    rcases updateNext_cases init now (i + 1) sh with h | h <;>
      · rw [h] at hy
        rcases hy with h | h <;> cases h
  | updateDone init =>
    cases init <;> rcases hy with h | h <;> cases h
  | _ => rcases hy with h | h <;> cases h

/-! ### The order of the locks -/

/-- The order in which all threads but one take locks. -/
def lockRank : PoolLock → ℕ
  | .growth => 0
  | .pool => 1
  | .fifo => 2
  | .worker _ => 3

/-- The rank of a thread that waits; `config` comes last while it holds `m_pool_lock`. -/
def rank : Place → ℕ
  | .configLocked _ => 4
  | x => (x.wants.map fun l => lockRank l.1).getD 0

theorem rank_eq (h : ∀ opt, x ≠ .configLocked opt) :
    rank x = (x.wants.map fun l => lockRank l.1).getD 0 := by
  cases x with
  | configLocked opt => exact absurd rfl (h opt)
  | _ => rfl

theorem rank_of_wants {l : PoolLock} {m : LockMode} (h : x.wants = some (l, m)) :
    rank x = lockRank l ∨ l = .growth ∧ AtConfig x := by
  by_cases hx : ∃ opt, x = .configLocked opt
  · obtain ⟨opt, rfl⟩ := hx
    by_cases hopt : opt.OfPool
    · have hl : (PoolLock.growth, LockMode.exclusive) = (l, m) := by
        cases opt <;> first | exact hopt.elim | exact Option.some.inj h
      exact .inr ⟨(Prod.mk.inj hl).1.symm, opt, hopt, rfl⟩
    · cases opt with
      | client => cases h
      | _ => exact (hopt trivial).elim
  · left
    rw [rank_eq fun opt heq => hx ⟨opt, heq⟩, h]
    rfl

theorem rank_of_holds {l : PoolLock} {m : LockMode} (h : (l, m) ∈ x.holds) (hx : x.wants ≠ none) :
    lockRank l < rank x := by
  cases x <;> simp_all [Place.holds, Place.wants, rank, lockRank] <;> rcases h with h | h <;> simp [h]

/-- Who waits with `m_acquiring_growth`, holds `m_pool_lock` too or is about to take it. -/
theorem pool_of_growth {m : LockMode} (h : (.growth, m) ∈ x.holds) (hx : x.wants ≠ none) :
    AtGrowth x ∨ (.pool, .exclusive) ∈ x.holds := by
  cases x <;> simp_all [Place.holds, Place.wants, AtGrowth]

/-- The invariant of a run in which `config` does not meet `init` or `autoGrow`. -/
structure Inv (s : PoolThreads T) : Prop where
  exclusion : poolLocking.Exclusion s.place
  apart : ∀ t u, AtConfig (s.place t) → ¬ AtGrowth (s.place u)

omit [DecidableEq T] in
/-- Along a chain of threads that wait the rank goes up. -/
theorem Inv.rank_lt (h : s.Inv) (htu : poolLocking.WaitsFor s.place t u)
    (huv : poolLocking.WaitsFor s.place u v) : rank (s.place t) < rank (s.place u) := by
  obtain ⟨l, m, m', hwant, hhold, -⟩ := htu
  obtain ⟨l', m'', -, hwant', -⟩ := huv
  have hwaits : (s.place u).wants ≠ none := fun hnone => by
    cases hwant'.symm.trans hnone
  rcases rank_of_wants hwant with heq | ⟨rfl, hconfig⟩
  · rw [heq]
    exact rank_of_holds hhold hwaits
  · -- `config` waits for a thread that is not waiting
    exfalso
    rcases pool_of_growth hhold hwaits with hgrowth | hpool
    · exact h.apart t u hconfig hgrowth
    · obtain ⟨opt, hopt, hplace⟩ := hconfig
      have hmine : (.pool, .exclusive) ∈ (s.place t).holds := by
        rw [hplace]
        exact List.mem_singleton_self _
      have hne : t ≠ u := by
        rintro rfl
        rw [hplace] at hhold
        cases List.mem_singleton.1 hhold
      exact h.exclusion t u .pool _ _ hne hmine hpool (.inl rfl)

omit [DecidableEq T] in
theorem Inv.not_deadlocked (h : s.Inv) : ¬ s.Deadlocked :=
  Locking.not_deadlocked (fun t => rank (s.place t)) fun _ _ _ htu huv => h.rank_lt htu huv

omit [DecidableEq T] in
/-- `config` and a thread that is about to grow the pool wait for each other. -/
theorem deadlocked_of_meet (ht : AtConfig (s.place t)) (hu : AtGrowth (s.place u)) :
    s.Deadlocked := by
  obtain ⟨opt, hopt, hplace⟩ := ht
  have hwant : (s.place t).wants = some (.growth, .exclusive) := by
    rw [hplace]
    cases opt with
    | client => exact hopt.elim
    | _ => rfl
  have hhold : (.pool, .exclusive) ∈ (s.place t).holds := by
    rw [hplace]
    exact List.mem_singleton_self _
  obtain ⟨hwant', hhold'⟩ : (s.place u).wants = some (.pool, .exclusive) ∧
      (.growth, .exclusive) ∈ (s.place u).holds := by
    rcases hu with h | h <;>
      · rw [h]
        exact ⟨rfl, List.mem_singleton_self _⟩
  exact Locking.deadlocked_of_pair (t := t) (u := u) ⟨_, _, _, hwant, hhold', .inl rfl⟩
    ⟨_, _, _, hwant', hhold, .inl rfl⟩

/-! ### Runs -/

omit [DecidableEq T] in
theorem inv_init : ({} : PoolThreads T).Inv where
  exclusion := fun t u l m m' _ h => by cases h
  apart := by
    rintro t u ⟨opt, -, h⟩
    cases h

theorem Inv.step (h : s.Inv) (hstep : Step hash s t s') (hapart : s.Apart t) : s'.Inv := by
  cases hstep with
  | @move pc shared hgrant hlocal =>
    refine ⟨h.exclusion.update (follows_of_local hlocal) hgrant, fun u v hu hv => ?_⟩
    -- the thread that moves is not the one that makes the two meet
    have hconfig : AtConfig pc → ∀ v, ¬ AtGrowth (s.place v) := by
      intro hpc
      obtain ⟨opt, hopt, hplace⟩ := config_of_local hlocal hpc
      unfold Apart at hapart
      rw [hplace] at hapart
      exact hapart hopt
    have hgrowth : AtGrowth pc → ∀ u, ¬ AtConfig (s.place u) := by
      intro hpc
      unfold Apart at hapart
      rcases growth_of_local hlocal hpc with hplace | ⟨hplace, hgrow⟩
      · rw [hplace] at hapart
        exact hapart
      · rw [hplace] at hapart
        exact hapart hgrow
    simp only [Function.update_apply] at hu hv
    split_ifs at hu hv
    · obtain ⟨opt, -, rfl⟩ := hu
      rcases hv with hv | hv <;> cases hv
    · exact hconfig hu v hv
    · exact hgrowth hv u hu
    · exact h.apart u v hu hv
  | @grow w ht hgrow hw =>
    have hfifo : poolLocking.Exclusion (Function.update s.place t .acquireFifo) := by
      refine h.exclusion.update (fun l hl => by cases hl) fun l m hwant => ?_
      rw [ht] at hwant
      cases hwant
    have hne : w ≠ t := by
      rintro rfl
      cases ht.symm.trans hw
    refine ⟨hfifo.update (fun l hl => by cases hl) fun l m hwant => ?_, fun u v hu hv => ?_⟩
    · rw [Function.update_of_ne hne, hw] at hwant
      cases hwant
    · have hold : ∀ (P : Place → Prop) (u : T), ¬ P .autoGrow → ¬ P .acquireFifo →
          P (Function.update (Function.update s.place t .acquireFifo) w .autoGrow u) →
            P (s.place u) := by
        intro P u h1 h2 hP
        simp only [Function.update_apply] at hP
        split_ifs at hP
        · exact (h1 hP).elim
        · exact (h2 hP).elim
        · exact hP
      refine h.apart u v (hold AtConfig u ?_ ?_ hu) (hold AtGrowth v ?_ ?_ hv)
      · rintro ⟨opt, -, h⟩
        cases h
      · rintro ⟨opt, -, h⟩
        cases h
      · rintro (h | h) <;> cases h
      · rintro (h | h) <;> cases h

/-- A step that makes `config` meet `init` or `autoGrow` ends in a deadlock. -/
theorem deadlocked_of_not_apart (hstep : Step hash s t s') (hapart : ¬ s.Apart t) :
    s'.Deadlocked := by
  cases hstep with
  | @move pc shared hgrant hlocal =>
    have hself : Function.update s.place t pc t = pc := Function.update_self ..
    have hother : ∀ u, s.place u ≠ s.place t → Function.update s.place t pc u = s.place u :=
      fun u hu => Function.update_of_ne (fun h => hu (by rw [h])) ..
    unfold Apart at hapart
    generalize hx : s.place t = x at hlocal hapart hother
    cases hlocal with
    | config opt =>
      push Not at hapart
      obtain ⟨hopt, u, hu⟩ := hapart
      refine deadlocked_of_meet (t := t) (u := u) ?_ ?_
      · exact ⟨opt, hopt, hself⟩
      · show AtGrowth (Function.update s.place t _ u)
        rw [hother u fun h => by rw [h] at hu; rcases hu with hu | hu <;> cases hu]
        exact hu
    | initGrowth =>
      push Not at hapart
      obtain ⟨u, hu⟩ := hapart
      refine deadlocked_of_meet (t := u) (u := t) ?_ (.inl hself)
      show AtConfig (Function.update s.place t _ u)
      rw [hother u fun h => by rw [h] at hu; obtain ⟨opt, -, hu⟩ := hu; cases hu]
      exact hu
    | autoGrowCheck =>
      push Not at hapart
      obtain ⟨hgrow, u, hu⟩ := hapart
      rw [if_pos hgrow] at hself hother ⊢
      refine deadlocked_of_meet (t := u) (u := t) ?_ (.inr hself)
      show AtConfig (Function.update s.place t _ u)
      rw [hother u fun h => by rw [h] at hu; obtain ⟨opt, -, hu⟩ := hu; cases hu]
      exact hu
    | _ => exact (hapart trivial).elim
  | grow ht =>
    unfold Apart at hapart
    rw [ht] at hapart
    exact (hapart trivial).elim

/-- **The locks of the pool.** In a run of the threads of a pool there is never a deadlock exactly if
`config` never takes `m_pool_lock` for an option of the pool while `init` or `autoGrow` holds
`m_acquiring_growth` and is about to take `m_pool_lock`, and these never come there while `config`
is about to take `m_acquiring_growth`. -/
theorem clientPool_deadlock_iff {tr : List (Transition (PoolThreads T) T)}
    (h : Run (Step hash) {} tr s) :
    (∀ x ∈ tr, ¬ x.after.Deadlocked) ↔ ∀ x ∈ tr, x.before.Apart x.event := by
  refine h.forall_iff (I := Inv) (P := fun x => ¬ x.after.Deadlocked) inv_init ?_ ?_
  · intro s t s' hs hstep hapart
    have hinv := hs.step hstep hapart
    exact ⟨hinv, hinv.not_deadlocked⟩
  · intro s t s' _ hstep hapart hnot
    exact hnot (deadlocked_of_not_apart hstep hapart)

omit [DecidableEq T] in
theorem grants_of_free {l : PoolLock} {m : LockMode}
    (h : ∀ u, l ∉ (s.place u).holds.map Prod.fst) : poolLocking.Grants s.place l m :=
  fun u _ hm => (h u (List.mem_map_of_mem hm)).elim

/-- `init` waits for `m_pool_lock`, which `config` holds for an option of the clients. -/
theorem clientPool_deadlock_met : ∃ (tr : List (Transition (PoolThreads Bool) Bool))
    (s : PoolThreads Bool), Run (Step fun _ _ => 0) {} tr s ∧ s.place true = .initPool ∧
      s.place false = .configLocked (.client (.pollTimeout 5)) ∧
        ∀ x ∈ tr, ¬ x.after.Deadlocked := by
  have hcall : Run (Step fun _ _ => 0) ({} : PoolThreads Bool) _ _ :=
    .snoc .nil (.move (t := true) (fun l m h => by cases h) (.callInit true [] 0 _))
  have hpool := hcall.snoc (.move (t := true)
    (fun l m h => by cases h; exact grants_of_free (by decide)) (.update _ _ _ _))
  have hfifo := hpool.snoc (.move (t := true)
    (fun l m h => by cases h; exact grants_of_free (by decide)) (.updateFifo _ _ _))
  have hdone := hfifo.snoc (.move (t := true) (fun l m h => by cases h) (.updateDone _ _))
  have hgrowth := hdone.snoc (.move (t := true)
    (fun l m h => by cases h; exact grants_of_free (by decide)) (.initGrowth _))
  have hconfig := hgrowth.snoc (.move (t := false) (fun l m h => by cases h)
    (.callConfig (.client (.pollTimeout 5)) _))
  have hrun := hconfig.snoc (.move (t := false)
    (fun l m h => by cases h; exact grants_of_free (by decide)) (.config _ _))
  refine ⟨_, _, hrun, rfl, rfl, (clientPool_deadlock_iff hrun).2 fun x hx => ?_⟩
  simp only [List.nil_append, List.cons_append, List.mem_cons, List.not_mem_nil, or_false] at hx
  rcases hx with rfl | rfl | rfl | rfl | rfl | rfl | rfl
  · trivial
  · trivial
  · trivial
  · trivial
  · rintro (_ | _) ⟨opt, -, h⟩ <;> cases h
  · trivial
  · exact fun h => h.elim
/-- One thread calls `init`, another one `config` when the first has got `m_acquiring_growth`. -/
theorem clientPool_deadlocks : ¬ ∀ (tr : List (Transition (PoolThreads Bool) Bool))
    (s : PoolThreads Bool), Run (Step fun _ _ => 0) {} tr s → ∀ x ∈ tr, ¬ x.after.Deadlocked := by
  intro h
  have hcall : Run (Step fun _ _ => 0) ({} : PoolThreads Bool) _ _ :=
    .snoc .nil (.move (t := true) (fun l m h => by cases h) (.callInit true [] 0 _))
  have hpool := hcall.snoc (.move (t := true)
    (fun l m h => by cases h; exact grants_of_free (by decide)) (.update _ _ _ _))
  have hfifo := hpool.snoc (.move (t := true)
    (fun l m h => by cases h; exact grants_of_free (by decide)) (.updateFifo _ _ _))
  have hdone := hfifo.snoc (.move (t := true) (fun l m h => by cases h) (.updateDone _ _))
  have hgrowth := hdone.snoc (.move (t := true)
    (fun l m h => by cases h; exact grants_of_free (by decide)) (.initGrowth _))
  have hconfig := hgrowth.snoc (.move (t := false) (fun l m h => by cases h)
    (.callConfig (.maxClients 5) _))
  have hrun := hconfig.snoc (.move (t := false)
    (fun l m h => by cases h; exact grants_of_free (by decide)) (.config _ _))
  refine h _ _ hrun _ (List.mem_append_right _ (List.mem_singleton_self _)) ?_
  exact deadlocked_of_meet (t := false) (u := true) ⟨.maxClients 5, trivial, rfl⟩ (.inl rfl)

end PoolThreads

end Libmc
