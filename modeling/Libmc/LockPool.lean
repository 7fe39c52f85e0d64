import Libmc.Support.Run

/-!
# Handing out workers

A `LockPool` is a list of free workers under a lock that lets threads in one after the other. The
steps are the sections under `m_fifo_access`: a thread calls `acquireWorker` and gets a worker or
waits, a thread that waits resumes, a thread gives its worker back, and workers are added. `wait`
may return without a call of `notify_all`, and the code does not look why it has returned. Where
nobody resumes so, the pool is safe and fair (`lockPool_fair`); one thread that does is enough to
break it (`lockPool_safe_iff`).
-/

namespace Libmc

/-- A thread runs, or it is in `wait`, before or after a call of `notify_all` on its condition
variable. -/
inductive LockStatus
  | running
  | waiting
  | notified
  deriving DecidableEq, Repr

/-- `OrderedLock` and `LockPool`. A condition variable is the thread that waits for it. `held` says
which thread has got which worker; the code does not store it. -/
structure LockPool (T : Type) where
  fifoLocks : List T := []
  locked : Bool := true
  available : List ℕ := []
  threadWorkers : ℕ := 0
  status : T → LockStatus := fun _ => .running
  held : List (ℕ × T) := []

inductive LockEvent (T : Type)
  | acquire (t : T)
  | resume (t : T)
  | release (worker : ℕ) (t : T)
  | add (n : ℕ)

namespace LockPool

variable {T : Type} [DecidableEq T]

/-- `notify_all` on the condition variable of a thread. -/
def notifyAll (t : T) (p : LockPool T) : LockPool T :=
  if p.status t = .waiting then { p with status := Function.update p.status t .notified } else p

/-- `OrderedLock::unlock`. -/
def unlock (p : LockPool T) : LockPool T :=
  match p.fifoLocks with
  | [] => { p with locked := false }
  | t :: _ => p.notifyAll t

/-- `acquireWorker` after `lock`; none if the deque is empty, where `front` is undefined. -/
def takeWorker (t : T) (p : LockPool T) : Option (LockPool T) :=
  match p.available with
  | [] => none
  | res :: rest =>
    let p := { p with available := rest, held := (res, t) :: p.held }
    some (if rest = [] then p else p.unlock)

/-- `LockPool::acquireWorker`, until it waits or returns. -/
def acquireWorker (t : T) (p : LockPool T) : Option (LockPool T) :=
  if p.locked then
    some
      { p with
        fifoLocks := p.fifoLocks ++ [t]
        status := Function.update p.status t .waiting }
  else takeWorker t { p with locked := true }

/-- `LockPool::acquireWorker` after `wait`. -/
def resume (t : T) (p : LockPool T) : Option (LockPool T) :=
  match p.fifoLocks with
  | [] => none
  | _ :: rest =>
    takeWorker t { p with fifoLocks := rest, status := Function.update p.status t .running }

/-- `LockPool::releaseWorker`. -/
def releaseWorker (worker : ℕ) (t : T) (p : LockPool T) : LockPool T :=
  unlock { p with available := worker :: p.available, held := p.held.erase (worker, t) }

/-- `LockPool::addWorkers`. -/
def addWorkers (n : ℕ) (p : LockPool T) : LockPool T :=
  unlock
    { p with
      available := p.available ++ List.range' p.threadWorkers n
      threadWorkers := p.threadWorkers + n }

/-- When a section can run: a thread that waits does nothing but resume, and a worker is given back
by the thread that has got it. -/
def Enabled (p : LockPool T) : LockEvent T → Prop
  | .acquire t => p.status t = .running
  | .resume t => p.status t ≠ .running
  | .release worker t => p.status t = .running ∧ (worker, t) ∈ p.held
  | .add n => 1 ≤ n

/-- A section; none if its behaviour is undefined. -/
def exec (p : LockPool T) : LockEvent T → Option (LockPool T)
  | .acquire t => p.acquireWorker t
  | .resume t => p.resume t
  | .release worker t => some (p.releaseWorker worker t)
  | .add n => some (p.addWorkers n)

inductive Step : Option (LockPool T) → LockEvent T → Option (LockPool T) → Prop
  | exec (p : LockPool T) (ev : LockEvent T) (hen : p.Enabled ev) : Step (some p) ev (p.exec ev)

/-- A thread that resumes has been notified. -/
def Notified (r : Option (LockPool T)) (ev : LockEvent T) : Prop :=
  ∀ p t, r = some p → ev = .resume t → p.status t = .notified

/-! ### The invariant -/

/-- What holds before the lock is passed on. -/
structure Pending (p : LockPool T) : Prop where
  waits : ∀ t, t ∈ p.fifoLocks ↔ p.status t ≠ .running
  nodup : p.fifoLocks.Nodup
  front : ∀ t, p.status t = .notified → p.fifoLocks.head? = some t
  locked : p.locked = false → p.fifoLocks = []
  workers : ∀ w, p.available.count w + (p.held.map Prod.fst).count w =
    if w < p.threadWorkers then 1 else 0

/-- The invariant: the first thread that waits is notified as long as a worker is free, and the
lock is open if nobody waits for it. -/
structure Inv (p : LockPool T) : Prop extends Pending p where
  notified_iff : ∀ t, p.status t = .notified ↔ p.fifoLocks.head? = some t ∧ p.available ≠ []
  open_iff : p.locked = false ↔ p.fifoLocks = [] ∧ p.available ≠ []

variable {p p' : LockPool T} {t u : T} {w n : ℕ}

@[simp] theorem unlock_fifoLocks (p : LockPool T) : p.unlock.fifoLocks = p.fifoLocks := by
  unfold unlock notifyAll
  split
  · rfl
  · split_ifs <;> rfl

@[simp] theorem unlock_available (p : LockPool T) : p.unlock.available = p.available := by
  unfold unlock notifyAll
  split
  · rfl
  · split_ifs <;> rfl

@[simp] theorem unlock_held (p : LockPool T) : p.unlock.held = p.held := by
  unfold unlock notifyAll
  split
  · rfl
  · split_ifs <;> rfl

@[simp] theorem unlock_threadWorkers (p : LockPool T) :
    p.unlock.threadWorkers = p.threadWorkers := by
  unfold unlock notifyAll
  split
  · rfl
  · split_ifs <;> rfl

theorem Pending.unlock (h : p.Pending) (hfree : p.available ≠ []) : p.unlock.Inv := by
  rcases hq : p.fifoLocks with _ | ⟨t, rest⟩
  · have heq : p.unlock = { p with locked := false } := by
      unfold LockPool.unlock
      rw [hq]
    have hnone : ∀ u, p.status u ≠ .notified := fun u hu => by
      have := h.front u hu
      rw [hq] at this
      cases this
    rw [heq]
    exact
      { waits := h.waits
        nodup := h.nodup
        front := h.front
        locked := fun _ => hq
        workers := h.workers
        notified_iff := fun u => by simp [hq, hnone u]
        open_iff := by simp [hq, hfree] }
  · have hwait : p.status t ≠ .running := (h.waits t).1 (by simp [hq])
    have hlocked : p.locked = true := by
      by_contra hopen
      have := h.locked (by simpa using hopen)
      rw [hq] at this
      cases this
    -- afterwards the first thread is notified, and no other
    have hnotify : p.unlock = p.notifyAll t := by
      unfold LockPool.unlock
      rw [hq]
    obtain ⟨heq, hstatus⟩ : p.unlock = { p with status := p.unlock.status } ∧
        p.unlock.status = Function.update p.status t .notified := by
      rw [hnotify]
      unfold notifyAll
      split_ifs with hst
      · exact ⟨rfl, rfl⟩
      · have hnotified : p.status t = .notified := by
          cases hs : p.status t with
          | running => exact absurd hs hwait
          | waiting => exact absurd hs hst
          | notified => rfl
        exact ⟨rfl, by rw [← hnotified, Function.update_eq_self]⟩
    have hnot : ∀ u, p.unlock.status u = .notified ↔ t = u := by
      intro u
      rw [hstatus, Function.update_apply]
      by_cases hu : u = t
      · simp [hu]
      · rw [if_neg hu]
        refine iff_of_false (fun hn => ?_) (Ne.symm hu)
        have := h.front u hn
        rw [hq] at this
        exact hu (Option.some.inj this).symm
    have hrun : ∀ u, p.unlock.status u ≠ .running ↔ p.status u ≠ .running := by
      intro u
      rw [hstatus, Function.update_apply]
      split_ifs with hu
      · simp [hu, hwait]
      · rfl
    rw [heq]
    exact
      { waits := fun u => (h.waits u).trans (hrun u).symm
        nodup := h.nodup
        front := fun u hu => by
          show p.fifoLocks.head? = some u
          rw [hq, (hnot u).1 hu]
          rfl
        locked := h.locked
        workers := h.workers
        notified_iff := fun u => (hnot u).trans (by simp [hq, hfree])
        open_iff := by simp [hlocked, hq] }

omit [DecidableEq T] in
theorem Pending.inv (h : p.Pending) (hnone : p.available = []) (hlocked : p.locked = true)
    (hnot : ∀ t, p.status t ≠ .notified) : p.Inv where
  toPending := h
  notified_iff t := by simp [hnone, hnot t]
  open_iff := by simp [hnone, hlocked]

omit [DecidableEq T] in
theorem inv_empty : ({} : LockPool T).Inv where
  waits := by simp
  nodup := List.nodup_nil
  front := by simp
  locked := by simp
  workers := by simp
  notified_iff := by simp
  open_iff := by simp

/-- A thread that has the lock takes a worker, and passes the lock on if another one is free. -/
theorem Pending.takeWorker (h : p.Pending) (hfree : p.available ≠ []) (hlocked : p.locked = true)
    (hnot : ∀ u, p.status u ≠ .notified) (t : T) :
    ∃ p', p.takeWorker t = some p' ∧ p'.Inv ∧ p'.fifoLocks = p.fifoLocks := by
  rcases ha : p.available with _ | ⟨res, rest⟩
  · exact absurd ha hfree
  · have hpending : Pending { p with available := rest, held := (res, t) :: p.held } :=
      { waits := h.waits
        nodup := h.nodup
        front := h.front
        locked := h.locked
        workers := fun w => by
          have := h.workers w
          rw [ha, List.count_cons] at this
          show rest.count w + (res :: p.held.map Prod.fst).count w =
            if w < p.threadWorkers then 1 else 0
          rw [List.count_cons]
          exact Eq.trans (by omega) this }
    refine ⟨_, by unfold LockPool.takeWorker; rw [ha], ?_, ?_⟩
    · split_ifs with hrest
      · exact hpending.inv hrest hlocked hnot
      · exact hpending.unlock hrest
    · split_ifs
      · rfl
      · exact unlock_fifoLocks _

/-! ### What the sections do -/

theorem Inv.acquire_open (h : p.Inv) (hopen : p.locked = false) (t : T) :
    ∃ p', p.acquireWorker t = some p' ∧ p'.Inv ∧ p'.fifoLocks = p.fifoLocks := by
  obtain ⟨hq, hfree⟩ := h.open_iff.1 hopen
  have hnot : ∀ u, p.status u ≠ .notified := fun u hu => by
    have := ((h.notified_iff u).1 hu).1
    rw [hq] at this
    cases this
  have hpending : Pending { p with locked := true } :=
    { waits := h.waits
      nodup := h.nodup
      front := h.front
      locked := fun hl => by cases hl
      workers := h.workers }
  unfold acquireWorker
  rw [if_neg (by simp [hopen])]
  exact hpending.takeWorker hfree rfl hnot t

theorem Inv.acquire_closed (h : p.Inv) (hlocked : p.locked = true) (ht : p.status t = .running) :
    ∃ p', p.acquireWorker t = some p' ∧ p'.Inv ∧ p'.fifoLocks = p.fifoLocks ++ [t] := by
  have hnew : t ∉ p.fifoLocks := fun hmem => (h.waits t).1 hmem ht
  refine ⟨_, if_pos hlocked, ?_, rfl⟩
  have hnot : ∀ u, Function.update p.status t .waiting u = .notified ↔ p.status u = .notified := by
    intro u
    rw [Function.update_apply]
    split_ifs with hu
    · simp [hu, ht]
    · rfl
  -- a worker is free only if there is a first thread, which stays the first one
  have hhead : ∀ u, p.available ≠ [] →
      ((p.fifoLocks ++ [t]).head? = some u ↔ p.fifoLocks.head? = some u) := by
    intro u hfree
    rcases hq : p.fifoLocks with _ | ⟨v, rest⟩
    · have := h.open_iff.2 ⟨hq, hfree⟩
      rw [hlocked] at this
      cases this
    · simp
  exact
    { waits := fun u => by
        show u ∈ p.fifoLocks ++ [t] ↔ Function.update p.status t .waiting u ≠ .running
        rw [Function.update_apply, List.mem_append, List.mem_singleton]
        split_ifs with hu
        · simp [hu]
        · simp [hu, h.waits u]
      nodup := by
        rw [List.nodup_append]
        exact ⟨h.nodup, List.nodup_singleton t,
          by simpa using fun u hu (hut : u = t) => hnew (hut ▸ hu)⟩
      front := fun u hu => by
        obtain ⟨hfirst, hfree⟩ := (h.notified_iff u).1 ((hnot u).1 hu)
        exact (hhead u hfree).2 hfirst
      locked := fun hl => by
        have : p.locked = false := hl
        rw [hlocked] at this
        cases this
      workers := h.workers
      notified_iff := fun u => by
        refine (hnot u).trans ((h.notified_iff u).trans ?_)
        refine and_congr_left fun hfree => ?_
        exact (hhead u hfree).symm
      open_iff := by simp [hlocked] }

/-- A thread that is notified is the first one, and gets a worker. -/
theorem Inv.resume (h : p.Inv) (ht : p.status t = .notified) :
    ∃ p', p.resume t = some p' ∧ p'.Inv ∧ p.fifoLocks = t :: p'.fifoLocks := by
  obtain ⟨hfirst, hfree⟩ := (h.notified_iff t).1 ht
  obtain ⟨rest, hq⟩ : ∃ rest, p.fifoLocks = t :: rest := by
    rcases hq : p.fifoLocks with _ | ⟨u, rest⟩
    · rw [hq] at hfirst
      cases hfirst
    · rw [hq] at hfirst
      exact ⟨rest, by rw [Option.some.inj hfirst]⟩
  have hnodup := h.nodup
  rw [hq, List.nodup_cons] at hnodup
  have hlocked : p.locked = true := by
    by_contra hopen
    have := h.locked (by simpa using hopen)
    rw [hq] at this
    cases this
  have hnot : ∀ u, Function.update p.status t .running u ≠ .notified := by
    intro u hu
    rw [Function.update_apply] at hu
    split_ifs at hu with hut
    have := h.front u hu
    rw [hq] at this
    exact hut (Option.some.inj this).symm
  have hpending : Pending
      { p with fifoLocks := rest, status := Function.update p.status t .running } :=
    { waits := fun u => by
        show u ∈ rest ↔ Function.update p.status t .running u ≠ .running
        have hu := h.waits u
        rw [hq, List.mem_cons] at hu
        rw [Function.update_apply]
        split_ifs with hut
        · simp [hut, hnodup.1]
        · rw [← hu]
          simp [hut]
      nodup := hnodup.2
      front := fun u hu => absurd hu (hnot u)
      locked := fun hl => by
        have : p.locked = false := hl
        rw [hlocked] at this
        cases this
      workers := h.workers }
  obtain ⟨p', hp', hinv, hrest⟩ := hpending.takeWorker hfree hlocked hnot t
  refine ⟨p', ?_, hinv, ?_⟩
  · unfold LockPool.resume
    rw [hq]
    exact hp'
  · rw [hrest]
    exact hq

theorem Inv.releaseWorker (h : p.Inv) (hheld : (w, t) ∈ p.held) :
    (p.releaseWorker w t).Inv := by
  refine Pending.unlock ?_ (List.cons_ne_nil _ _)
  exact
    { waits := h.waits
      nodup := h.nodup
      front := h.front
      locked := h.locked
      workers := fun v => by
        have hv := h.workers v
        have herase : (p.held.map Prod.fst).Perm (w :: (p.held.erase (w, t)).map Prod.fst) :=
          (List.perm_cons_erase hheld).map Prod.fst
        rw [herase.count_eq, List.count_cons] at hv
        show (w :: p.available).count v + ((p.held.erase (w, t)).map Prod.fst).count v = _
        rw [List.count_cons]
        exact Eq.trans (by omega) hv }

theorem Inv.addWorkers (h : p.Inv) (hn : 1 ≤ n) : (p.addWorkers n).Inv := by
  refine Pending.unlock ?_ ?_
  · exact
      { waits := h.waits
        nodup := h.nodup
        front := h.front
        locked := h.locked
        workers := fun v => by
          have hv := h.workers v
          have hnew : (List.range' p.threadWorkers n).count v =
              if p.threadWorkers ≤ v ∧ v < p.threadWorkers + n then 1 else 0 := by
            rw [List.Nodup.count List.nodup_range']
            simp [List.mem_range'_1]
          show (p.available ++ List.range' p.threadWorkers n).count v +
            (p.held.map Prod.fst).count v = if v < p.threadWorkers + n then 1 else 0
          rw [List.count_append, hnew]
          split_ifs at hv ⊢ <;> omega }
  · intro hnil
    have := congrArg List.length hnil
    simp only [List.length_append, List.length_range', List.length_nil] at this
    omega

/-- The step lemma: with a notified thread every section is defined, and keeps the invariant. -/
theorem Inv.exec (h : p.Inv) {ev : LockEvent T} (hen : p.Enabled ev)
    (hnotified : Notified (some p) ev) : ∃ p', p.exec ev = some p' ∧ p'.Inv := by
  cases ev with
  | acquire t =>
    rcases hl : p.locked with _ | _
    · obtain ⟨p', hp', hinv, -⟩ := h.acquire_open hl t
      exact ⟨p', hp', hinv⟩
    · obtain ⟨p', hp', hinv, -⟩ := h.acquire_closed hl hen
      exact ⟨p', hp', hinv⟩
  | resume t =>
    obtain ⟨p', hp', hinv, -⟩ := h.resume (hnotified p t rfl rfl)
    exact ⟨p', hp', hinv⟩
  | release worker t => exact ⟨_, rfl, h.releaseWorker hen.2⟩
  | add n => exact ⟨_, rfl, h.addWorkers hen⟩

/-! ### Runs -/

/-- The thread that calls `acquireWorker` in a step. -/
def arrives (x : Transition (Option (LockPool T)) (LockEvent T)) : Option T :=
  match x.event with
  | .acquire t => some t
  | _ => none

/-- The thread that gets a worker in a step. -/
def obtains (x : Transition (Option (LockPool T)) (LockEvent T)) : Option T :=
  match x.event with
  | .acquire t => if x.before.any (·.locked) then none else some t
  | .resume t => some t
  | _ => none

/-- A step is safe: no worker is popped when there is none, a thread that resumes removes its own
entry of the queue, and no worker is held by two threads. -/
def Safe (x : Transition (Option (LockPool T)) (LockEvent T)) : Prop :=
  ∃ p p', x.before = some p ∧ x.after = some p' ∧
    (∀ t, x.event = .resume t → p.fifoLocks = t :: p'.fifoLocks) ∧
    ∀ w t u, (w, t) ∈ p'.held → (w, u) ∈ p'.held → t = u

variable {tr : List (Transition (Option (LockPool T)) (LockEvent T))} {r : Option (LockPool T)}

omit [DecidableEq T] in
theorem Inv.held_unique (h : p.Inv) (ht : (w, t) ∈ p.held) (hu : (w, u) ∈ p.held) : t = u := by
  by_contra hne
  have hw := h.workers w
  have hpair : [(w, t), (w, u)].Subperm p.held := by
    refine List.subperm_of_subset (by simp [hne]) ?_
    intro x hx
    rcases List.mem_pair.1 hx with rfl | rfl
    · exact ht
    · exact hu
  obtain ⟨l, hl, hsub⟩ := hpair
  have hcount : 2 ≤ (p.held.map Prod.fst).count w := by
    have h2 : ([(w, t), (w, u)].map Prod.fst).count w = 2 := by simp
    rw [← h2, ← (hl.map Prod.fst).count_eq]
    exact (hsub.map Prod.fst).count_le w
  split_ifs at hw <;> omega

/-- The threads that have called are those that have got a worker and then those that wait. -/
theorem arrived_eq (h : Run Step (some {}) tr r)
    (hnotified : ∀ x ∈ tr, Notified x.before x.event) :
    ∃ p, r = some p ∧ p.Inv ∧ tr.filterMap arrives = tr.filterMap obtains ++ p.fifoLocks := by
  induction h with
  | nil => exact ⟨{}, rfl, inv_empty, rfl⟩
  | @snoc tr r r' ev _ hs ih =>
    obtain ⟨hprev, hlast⟩ := List.forall_mem_append.1 hnotified
    obtain ⟨p, rfl, hinv, hqueue⟩ := ih hprev
    have hn := hlast _ (List.mem_singleton_self _)
    obtain ⟨_, _, hen⟩ := hs
    have hfilter : ∀ f : Transition (Option (LockPool T)) (LockEvent T) → Option T,
        List.filterMap f (tr ++ [⟨some p, ev, p.exec ev⟩]) =
          tr.filterMap f ++ (f ⟨some p, ev, p.exec ev⟩).toList := by
      intro f
      rw [List.filterMap_append, List.filterMap_cons, List.filterMap_nil]
      cases f ⟨some p, ev, p.exec ev⟩ <;> rfl
    rw [hfilter, hfilter, hqueue]
    cases ev with
    | acquire t =>
      rcases hl : p.locked with _ | _
      · obtain ⟨p', hp', hinv', hq⟩ := hinv.acquire_open hl t
        refine ⟨p', hp', hinv', ?_⟩
        have hnil := (hinv.open_iff.1 hl).1
        simp [arrives, obtains, hl, hq, hnil]
      · obtain ⟨p', hp', hinv', hq⟩ := hinv.acquire_closed hl hen
        refine ⟨p', hp', hinv', ?_⟩
        simp [arrives, obtains, hl, hq]
    | resume t =>
      obtain ⟨p', hp', hinv', hq⟩ := hinv.resume (hn p t rfl rfl)
      refine ⟨p', hp', hinv', ?_⟩
      simp [arrives, obtains, hq]
    | release worker t =>
      refine ⟨_, rfl, hinv.releaseWorker hen.2, ?_⟩
      simp [arrives, obtains, LockPool.releaseWorker]
    | add n =>
      refine ⟨_, rfl, hinv.addWorkers hen, ?_⟩
      simp [arrives, obtains, LockPool.addWorkers]

/-- **Workers are handed out in turn.** In every run in which a thread resumes only after a
notification: no worker is popped when there is none; every worker is free, once, or held by one
thread; the threads get workers in the order in which they have called; and as long as a worker is
free and a thread waits, the first one is notified. -/
theorem lockPool_fair (h : Run Step (some {}) tr r)
    (hnotified : ∀ x ∈ tr, Notified x.before x.event) :
    ∃ p, r = some p ∧
      (∀ w < p.threadWorkers, p.available.count w + (p.held.map Prod.fst).count w = 1) ∧
      tr.filterMap arrives = tr.filterMap obtains ++ p.fifoLocks ∧
      ∀ t, p.available ≠ [] → p.fifoLocks.head? = some t → p.status t = .notified := by
  obtain ⟨p, rfl, hinv, hqueue⟩ := arrived_eq h hnotified
  refine ⟨p, rfl, fun w hw => ?_, hqueue, fun t hfree hfirst => ?_⟩
  · rw [hinv.workers w, if_pos hw]
  · exact (hinv.notified_iff t).2 ⟨hfirst, hfree⟩

/-- The pool after a section, unless its behaviour is undefined before. -/
def execSome (r : Option (LockPool T)) (ev : LockEvent T) : Option (LockPool T) :=
  r.bind (·.exec ev)

instance (p : LockPool T) (ev : LockEvent T) : Decidable (p.Enabled ev) :=
  match ev with
  | .acquire t => inferInstanceAs (Decidable (p.status t = .running))
  | .resume t => inferInstanceAs (Decidable (p.status t ≠ .running))
  | .release worker t => inferInstanceAs (Decidable (p.status t = .running ∧ (worker, t) ∈ p.held))
  | .add n => inferInstanceAs (Decidable (1 ≤ n))

theorem run_of_enabled {evs : List (LockEvent T)}
    (h : ∀ x ∈ Transition.trace execSome (some {}) evs, x.before.any (·.Enabled x.event)) :
    Run Step (some {}) (Transition.trace execSome (some {}) evs) (evs.foldl execSome (some {})) := by
  refine Run.nil.trace fun x hx => ?_
  obtain ⟨p, hp, hen⟩ := (Option.any_eq_true _ _).1 (h x hx)
  rw [Transition.after_of_mem_trace hx, hp]
  exact .exec p x.event (of_decide_eq_true hen)

/-- Two threads wait before there are workers, and one worker is given back. -/
def queueTwo : List (LockEvent ℕ) :=
  [.acquire 0, .acquire 1, .add 2, .resume 0, .resume 1, .release 0 0]

theorem queueTwo_run : Run Step (some {}) (Transition.trace execSome (some {}) queueTwo)
    (queueTwo.foldl execSome (some {})) := run_of_enabled (by decide)

theorem queueTwo_notified : ∀ x ∈ Transition.trace execSome (some {}) queueTwo,
    Notified x.before x.event := by
  have hstatus : ∀ x ∈ Transition.trace execSome (some ({} : LockPool ℕ)) queueTwo,
      ∀ p ∈ x.before, ∀ t ∈ (match x.event with | .resume t => some t | _ => none),
        p.status t = .notified := by decide
  intro x hx p t hp hev
  exact hstatus x hx p hp t (by rw [hev]; rfl)

theorem lockPool_fair_queueTwo :
    ∃ p : LockPool ℕ, queueTwo.foldl execSome (some {}) = some p ∧
      (∀ w < p.threadWorkers, p.available.count w + (p.held.map Prod.fst).count w = 1) ∧
      (Transition.trace execSome (some {}) queueTwo).filterMap arrives =
        (Transition.trace execSome (some {}) queueTwo).filterMap obtains ++ p.fifoLocks ∧
      (∀ t, p.available ≠ [] → p.fifoLocks.head? = some t → p.status t = .notified) ∧
      p.threadWorkers = 2 ∧ p.held = [(1, 1)] := by
  obtain ⟨p, hp, hworkers, hqueue, hfirst⟩ := lockPool_fair queueTwo_run queueTwo_notified
  have hpool : (queueTwo.foldl execSome (some {})).map (fun p => (p.threadWorkers, p.held)) =
      some (2, [(1, 1)]) := by decide
  rw [hp] at hpool
  obtain ⟨hthreads, hheld⟩ := Prod.mk.inj (Option.some.inj hpool)
  exact ⟨p, hp, hworkers, hqueue, hfirst, hthreads, hheld⟩

/-- **A thread that resumes by itself.** A run of the pool is safe exactly if every thread that
resumes in it has been notified. -/
theorem lockPool_safe_iff (h : Run Step (some {}) tr r) :
    (∀ x ∈ tr, Safe x) ↔ ∀ x ∈ tr, Notified x.before x.event := by
  refine h.forall_iff (I := fun r => ∃ p, r = some p ∧ p.Inv) ⟨{}, rfl, inv_empty⟩ ?_ ?_
  · rintro _ ev _ ⟨p, rfl, hinv⟩ ⟨_, _, hen⟩ hn
    obtain ⟨p', hp', hinv'⟩ := hinv.exec hen hn
    refine ⟨⟨p', hp', hinv'⟩, p, p', rfl, hp', fun t ht => ?_, fun w t u => hinv'.held_unique⟩
    obtain rfl : ev = .resume t := ht
    obtain ⟨q, hq, -, hfirst⟩ := hinv.resume (hn p t rfl rfl)
    obtain rfl := Option.some.inj (hq.symm.trans hp')
    exact hfirst
  · rintro _ ev _ ⟨p, rfl, hinv⟩ ⟨_, _, hen⟩ hn ⟨q, p', hbefore, hafter, hown, -⟩
    obtain rfl : p = q := Option.some.inj hbefore
    obtain ⟨t, rfl, ht⟩ : ∃ t, ev = .resume t ∧ p.status t ≠ .notified := by
      unfold Notified at hn
      push Not at hn
      obtain ⟨q, t, hq, hev, ht⟩ := hn
      obtain rfl : p = q := Option.some.inj hq
      exact ⟨t, hev, ht⟩
    -- if the thread is the first one, no worker is free
    have hfirst : p.fifoLocks = t :: p'.fifoLocks := hown t rfl
    have hnone : p.available = [] := by
      by_contra hfree
      exact ht ((hinv.notified_iff t).2 ⟨by rw [hfirst]; rfl, hfree⟩)
    have hexec : p.exec (.resume t) = none := by
      show p.resume t = none
      unfold LockPool.resume takeWorker
      rw [hfirst]
      simp only [hnone]
    cases hexec.symm.trans hafter

theorem lockPool_safe_queueTwo : ∃ (tr : List (Transition (Option (LockPool ℕ)) (LockEvent ℕ)))
    (r : Option (LockPool ℕ)), Run Step (some {}) tr r ∧ tr.map (·.event) = queueTwo ∧
      ∀ x ∈ tr, Safe x :=
  ⟨_, _, queueTwo_run, rfl, (lockPool_safe_iff queueTwo_run).2 queueTwo_notified⟩

/-- A thread that waits in an empty pool and resumes by itself pops a worker where there is none. -/
theorem lockPool_not_safe : ¬ ∀ (tr : List (Transition (Option (LockPool ℕ)) (LockEvent ℕ)))
    (r : Option (LockPool ℕ)), Run Step (some {}) tr r → ∀ x ∈ tr, Safe x := by
  intro h
  have hwait : Run Step (some ({} : LockPool ℕ)) [⟨some {}, .acquire 0, exec {} (.acquire 0)⟩]
      (exec {} (.acquire 0)) := .snoc .nil (.exec {} (.acquire 0) rfl)
  have hrun := hwait.snoc (.exec _ (.resume 0) (by simp [Enabled]))
  obtain ⟨_, p', -, hp', -⟩ := h _ _ hrun _ (List.mem_append_right _ (List.mem_singleton_self _))
  have hundefined : (none : Option (LockPool ℕ)) = some p' := hp'
  cases hundefined

end LockPool

end Libmc
