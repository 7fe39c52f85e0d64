import Libmc.ClientPool

/-!
# The size of a pool of clients

`growPool` grows a pool by a number of clients. `autoGrow` gives it the clients that are missing at
most, but `init` and the option `CFG_INITIAL_CLIENTS` give it the size that the pool is to have. So the
pool has the right size exactly as long as these two find it empty, or `init` has room for as many
clients again (`clientPool_size_iff`).
-/

namespace Libmc

namespace ClientPool

variable {hash : HashFunctionOption → Bytes → ℕ} {p p' : ClientPool} {ev : PoolEvent} {rv : ℤ}

/-- The limit after a call. -/
def limitAfter (p : ClientPool) : PoolEvent → ℕ
  | .configInitialClients n => max p.maxClients n
  | .configMaxClients n => n
  | _ => p.maxClients

theorem length_exec (h : p.exec hash ev = some (rv, p')) :
    p'.clients.length = p.clients.length + p.grown ev := by
  obtain ⟨kept, hkept, heq⟩ := (exec_called h).clients
  rw [heq, List.length_append, List.length_replicate, hkept.length_eq]

theorem maxClients_exec (h : p.exec hash ev = some (rv, p')) : p'.maxClients = p.limitAfter ev := by
  cases ev with
  | configInitialClients n =>
    obtain ⟨rfl, rfl⟩ := Prod.mk.inj (Option.some.inj h)
    have hmax : (if p.maxClients < n then n else p.maxClients) = max p.maxClients n := by
      split_ifs <;> omega
    unfold configInitialClients limitAfter
    dsimp only
    split
    · exact hmax
    · exact hmax
  | init aliases servers now =>
    obtain ⟨r, hr, heq⟩ := Option.map_eq_some_iff.1 h
    obtain ⟨rs, -, rfl⟩ := Option.map_eq_some_iff.1 hr
    obtain ⟨rfl, rfl⟩ := Prod.mk.inj heq
    rfl
  | updateServers aliases servers now =>
    obtain ⟨rs, -, heq⟩ := Option.map_eq_some_iff.1 h
    obtain ⟨rfl, rfl⟩ := Prod.mk.inj heq
    rfl
  | autoGrow locked =>
    have hp : p' = (p.autoGrow hash locked).2 := (congrArg Prod.snd (Option.some.inj h)).symm
    rw [hp]
    unfold autoGrow
    split
    · rfl
    · rfl
  | _ =>
    obtain ⟨rfl, rfl⟩ := Prod.mk.inj (Option.some.inj h)
    rfl

theorem growth_le (locked : Bool) (h : p.clients.length ≤ p.maxClients) :
    p.clients.length + p.growth locked ≤ p.maxClients := by
  unfold growth
  split
  · omega
  · exact h

end ClientPool

namespace PoolState

variable {hash : HashFunctionOption → Bytes → ℕ} {s s' : PoolState} {ev : PoolEvent}
  {tr : List (Transition PoolState PoolEvent)}

/-- Sizes are positive, and the limit is not set below the size of the pool. -/
def Asked (s : PoolState) : PoolEvent → Prop
  | .configInitialClients n => 0 < n
  | .configMaxClients n => 0 < n ∧ s.pool.clients.length ≤ n
  | .configMaxGrowth n => 0 < n
  | _ => True

/-- The pool is not above its limit, and has the size that it is to be raised to. -/
structure Sized (t : Transition PoolState PoolEvent) : Prop where
  le : t.after.pool.clients.length ≤ t.after.pool.maxClients
  raised : ∀ n, t.event = .configInitialClients n → t.before.pool.clients.length < n →
    t.after.pool.clients.length = n

/-- The pool is raised only if it is empty, and `init` has room for its clients. -/
def Room (s : PoolState) : PoolEvent → Prop
  | .configInitialClients n => s.pool.clients.length < n → s.pool.clients = []
  | .init _ _ _ => s.pool.clients.length + s.pool.initialClients ≤ s.pool.maxClients
  | _ => True

theorem step_length (h : Step hash s ev s') :
    s'.pool.clients.length = s.pool.clients.length + s.pool.grown ev := by
  obtain ⟨hexec⟩ := h
  exact ClientPool.length_exec hexec

theorem step_maxClients (h : Step hash s ev s') : s'.pool.maxClients = s.pool.limitAfter ev := by
  obtain ⟨hexec⟩ := h
  exact ClientPool.maxClients_exec hexec

theorem sized_of_ne (hstep : Step hash s ev s') (hev : ∀ n, ev ≠ .configInitialClients n) :
    Sized ⟨s, ev, s'⟩ ↔ s.pool.clients.length + s.pool.grown ev ≤ s.pool.limitAfter ev := by
  rw [← step_length hstep, ← step_maxClients hstep]
  exact ⟨Sized.le, fun hle => ⟨hle, fun n hn => absurd hn (hev n)⟩⟩

/-- The initial size is set: only an empty pool gets it. -/
theorem sized_configInitialClients {n : ℕ} (h : s.pool.clients.length ≤ s.pool.maxClients)
    (hstep : Step hash s (.configInitialClients n) s') :
    Sized ⟨s, .configInitialClients n, s'⟩ ↔ (s.pool.clients.length < n → s.pool.clients = []) := by
  have hlen : s'.pool.clients.length =
      s.pool.clients.length + if s.pool.clients.length < n then n else 0 := step_length hstep
  have hmax : s'.pool.maxClients = max s.pool.maxClients n := step_maxClients hstep
  constructor
  · intro hsized hlt
    have hn : s'.pool.clients.length = n := hsized.raised n rfl hlt
    rw [if_pos hlt] at hlen
    exact List.length_eq_zero_iff.1 (by omega)
  · intro hempty
    have hboth : s'.pool.clients.length ≤ s'.pool.maxClients ∧
        (s.pool.clients.length < n → s'.pool.clients.length = n) := by
      split_ifs at hlen with hlt
      · rw [hempty hlt, List.length_nil, Nat.zero_add] at hlen
        omega
      · omega
    refine ⟨hboth.1, fun m hm => ?_⟩
    obtain rfl : n = m := PoolEvent.configInitialClients.inj hm
    exact hboth.2

theorem sized_iff (h : s.pool.clients.length ≤ s.pool.maxClients) (hstep : Step hash s ev s')
    (hasked : s.Asked ev) : Sized ⟨s, ev, s'⟩ ↔ s.Room ev := by
  cases ev with
  | configInitialClients n => exact sized_configInitialClients h hstep
  | init aliases servers now => exact sized_of_ne hstep nofun
  | configMaxClients n => exact iff_of_true ((sized_of_ne hstep nofun).2 hasked.2) trivial
  | autoGrow locked =>
    exact iff_of_true ((sized_of_ne hstep nofun).2 (ClientPool.growth_le locked h)) trivial
  | _ => exact iff_of_true ((sized_of_ne hstep nofun).2 h) trivial

/-- **The size of a pool.** In a run in which the sizes are positive and the limit is not set below the
size of the pool, the pool is never above its limit and has the size that it is raised to, exactly if
it is raised only while it is empty and `init` always has room for the initial clients. -/
theorem clientPool_size_iff {s : PoolState} (h : Run (Step hash) {} tr s)
    (hasked : ∀ t ∈ tr, t.before.Asked t.event) :
    (∀ t ∈ tr, Sized t) ↔ ∀ t ∈ tr, t.before.Room t.event := by
  refine (h.restrict hasked).forall_iff
    (I := fun s => s.pool.clients.length ≤ s.pool.maxClients) (by decide) ?_ ?_
  · rintro s ev s' hs ⟨hstep, hev⟩ hroom
    have hsized := (sized_iff hs hstep hev).2 hroom
    exact ⟨hsized.le, hsized⟩
  · rintro s ev s' hs ⟨hstep, hev⟩ hnot hsized
    exact hnot ((sized_iff hs hstep hev).1 hsized)

/-- The pool gets its initial clients, and grows up to its limit. -/
theorem clientPool_size_four : ∃ (tr : List (Transition PoolState PoolEvent)) (s : PoolState),
    Run (Step fun _ _ => 0) {} tr s ∧ s.pool.clients.length = 4 ∧ ∀ t ∈ tr, Sized t := by
  have hinitial : Run (Step fun _ _ => 0) {} _ _ :=
    .snoc .nil (step_of_exec (.configInitialClients 2) rfl)
  have hgrown := hinitial.snoc (step_of_exec (.autoGrow true) rfl)
  have hrun := hgrown.snoc (step_of_exec (.autoGrow true) rfl)
  refine ⟨_, _, hrun, rfl, (clientPool_size_iff hrun fun t ht => ?_).2 fun t ht => ?_⟩
  · simp only [List.nil_append, List.cons_append, List.mem_cons, List.not_mem_nil, or_false] at ht
    rcases ht with rfl | rfl | rfl
    · exact Nat.two_pos
    · trivial
    · trivial
  · simp only [List.nil_append, List.cons_append, List.mem_cons, List.not_mem_nil, or_false] at ht
    rcases ht with rfl | rfl | rfl
    · exact fun _ => rfl
    · trivial
    · trivial
/-- A pool with one client gets two more when it is to have two. -/
theorem clientPool_size_three : ¬ ∃ hash, ∀ (tr : List (Transition PoolState PoolEvent))
    (s : PoolState), Run (Step hash) {} tr s → (∀ t ∈ tr, t.before.Asked t.event) →
      ∀ t ∈ tr, Sized t := by
  rintro ⟨hash, h⟩
  have hinit : Run (Step hash) {} _ _ := .snoc .nil (step_of_exec (.init true [] 0) rfl)
  have hrun := hinit.snoc (step_of_exec (.configInitialClients 2) rfl)
  have hsized := h _ _ hrun (fun t ht => by
    rcases List.mem_pair.1 ht with rfl | rfl
    · trivial
    · exact Nat.two_pos) _ (List.mem_append_right _ (List.mem_singleton_self _))
  have htwo : 3 = 2 := hsized.raised 2 rfl (Nat.lt_succ_self 1)
  omega

end PoolState

end Libmc
