import Libmc.GoClient
import Libmc.GoPoolAccounts

/-!
# Which connections golibmc uses again

An operation has a connection from `client.conn` and gives it back with the `err` that its deferred
function sees. With named results this is the error that the caller gets; without them it is `nil`, so
a connection that has just failed is put back for the next caller. `lastErr` records what the last
operation on a connection has returned. In every run in which only operations with named results fail
on their connections none of these is used again (`recycles_no_bad_conn`).
-/

namespace Libmc.Golibmc

open Processes

variable {α : Type} {cl : Settings} {e : Ended α} {errCode : ErrCode} {err : Option Error}

/-! ### Operations -/

/-- The error that the caller gets, and the one that `putConn` gets. -/
def Ended.errors (e : Ended α) : Option Error × Option Error :=
  (e.returned.bind (·.2), e.deferred)

/-- An operation on a connection, with what C gives. `store` is for `Set`, `Add`, `Replace`, `Append`,
`Prepend` and `Cas`, `incrOrDecr` for `Incr` and `Decr`, and `getOrGets` for `Get` and `Gets`. -/
inductive Call
  | store (errCode : ErrCode) (results : List MessageResult)
  | delete (errCode : ErrCode) (results : List MessageResult)
  | touch (errCode : ErrCode) (results : List MessageResult)
  | incrOrDecr (errCode : ErrCode) (results : List (Option ℕ))
  | getOrGets (gets : Bool) (key : Bytes) (errCode : ErrCode) (results : List Retrieved)
  | getMulti (keys : List Bytes) (errCode : ErrCode) (results : List Retrieved)
  | setMulti (keys : List Bytes) (errCode : ErrCode) (results : List MessageResult)
  | deleteMulti (keys : List Bytes) (errCode : ErrCode) (results : List MessageResult)
  | version (errCode : ErrCode) (results : List BroadcastResult)
  | stats (errCode : ErrCode) (results : List BroadcastResult)
  | flushAll (errCode : ErrCode) (results : List BroadcastResult)

namespace Call

/-- How an operation ends. -/
def errors (cl : Settings) : Call → Option Error × Option Error
  | store errCode results => (cl.store errCode results).errors
  | delete errCode results => (cl.delete errCode results).errors
  | touch errCode results => (cl.touch errCode results).errors
  | incrOrDecr errCode results => (cl.incrOrDecr errCode results).errors
  | getOrGets gets key errCode results => (Golibmc.getOrGets gets key errCode results).errors
  -- `&cKeys[0]` panics if there are no keys
  | getMulti keys errCode results =>
    if keys = [] then (none, none) else (cl.getMulti keys errCode results).errors
  | setMulti keys errCode results => (cl.setMulti keys errCode results).errors
  | deleteMulti keys errCode results =>
    if keys = [] then (none, none) else (cl.deleteMulti keys errCode results).errors
  | version errCode results => (Golibmc.version errCode results).errors
  | stats errCode results => (Golibmc.stats errCode results).errors
  | flushAll errCode results => (Golibmc.flushAll errCode results).errors

/-- The code of an operation whose results have no names. -/
def unnamedCode : Call → Option ErrCode
  | store errCode _ => some errCode
  | delete errCode _ => some errCode
  | touch errCode _ => some errCode
  | incrOrDecr errCode _ => some errCode
  | version errCode _ => some errCode
  | stats errCode _ => some errCode
  | flushAll errCode _ => some errCode
  | _ => none

/-- The codes of `badConnErrors`. -/
def badCodes : List ErrCode := [.mcServerErr, .sendErr, .connPollErr, .recvErr]

/-- The connection has not failed, or the results of the operation have names. -/
def Safe (call : Call) : Prop := ∀ errCode ∈ call.unnamedCode, errCode ∉ badCodes

end Call

/-! ### Errors -/

theorem isBadConnErr_networkError :
    isBadConnErr (some (networkError errCode)) = true ↔ errCode ∈ Call.badCodes := by
  cases errCode <;> decide

/-- The caller gets the error that `putConn` gets, unless there is a panic. -/
def Ended.Named (e : Ended α) : Prop := ∀ a err, e.returned = some (a, err) → e.deferred = err

theorem named_named (a : α) (err : Option Error) : (Ended.named a err).Named := fun _ _ h =>
  (Prod.mk.inj (Option.some.inj h)).2

theorem named_panicked (err : Option Error) : (Ended.panicked err : Ended α).Named := nofun

theorem Ended.Named.errors_eq (h : e.Named) : e.errors.1 = none ∨ e.errors.1 = e.errors.2 := by
  unfold errors
  cases hret : e.returned with
  | none => exact .inl rfl
  | some p => exact .inr (h p.1 p.2 hret).symm

theorem named_getD {x : Option (Ended α)} (hx : ∀ e' ∈ x, e'.Named) (he : e.Named) :
    (x.getD e).Named := by
  cases x with
  | none => exact he
  | some e' => exact hx e' rfl

theorem named_getOrGets (gets : Bool) (key : Bytes) (errCode : ErrCode) (results : List Retrieved) :
    (getOrGets gets key errCode results).Named := by
  unfold getOrGets
  split_ifs
  · exact named_named _ _
  · refine named_getD (fun e he => ?_) (named_named _ _)
    obtain ⟨rst, -, rfl⟩ := Option.map_eq_some_iff.1 he
    refine named_getD (fun e he => ?_) (named_panicked _)
    obtain ⟨value, -, rfl⟩ := Option.map_eq_some_iff.1 he
    exact named_named _ _

theorem named_reportFailed (removePrefix : Bytes → Bytes) (types : MessageResultType → Bool)
    (results : List MessageResult) (keys : List Bytes) (err : Error) :
    (reportFailed removePrefix types results keys err).Named := by
  unfold reportFailed
  split
  · exact named_named _ _
  · exact named_panicked _

theorem named_setMulti (keys : List Bytes) (errCode : ErrCode) (results : List MessageResult) :
    (cl.setMulti keys errCode results).Named := by
  unfold Settings.setMulti
  split
  · exact named_named _ _
  · exact named_reportFailed _ _ _ _ _

theorem named_deleteMulti (keys : List Bytes) (errCode : ErrCode) (results : List MessageResult) :
    (cl.deleteMulti keys errCode results).Named := by
  unfold Settings.deleteMulti
  split
  · exact named_named _ _
  · split
    · exact named_named _ _
    · exact named_reportFailed _ _ _ _ _

theorem named_getMulti (keys : List Bytes) (errCode : ErrCode) (results : List Retrieved) :
    (cl.getMulti keys errCode results).Named := by
  unfold Settings.getMulti
  dsimp only
  split
  · exact named_named _ _
  · exact named_panicked _

/-- An error that an operation returns is bad only if it is the error of a code. -/
def Ended.BadOnly (errCode : ErrCode) (e : Ended α) : Prop :=
  isBadConnErr e.errors.1 = true → errCode ∈ Call.badCodes

theorem badOnly_unnamed {a : α} (h : isBadConnErr err = true → errCode ∈ Call.badCodes) :
    (Ended.unnamed a err).BadOnly errCode := h

theorem bad_messageError {answer : MessageResultType → Option (Option Error)}
    {results : List MessageResult} (hanswer : ∀ type_ err, answer type_ = some err →
      isBadConnErr err = false) (h : isBadConnErr (cl.messageError answer errCode results) = true) :
    errCode ∈ Call.badCodes := by
  unfold Settings.messageError at h
  split at h
  · split at h
    · cases h
    · split at h
      · next rst =>
        cases hrst : answer rst.type_ with
        | none =>
          rw [hrst] at h
          exact isBadConnErr_networkError.1 h
        | some err =>
          rw [hrst, Option.getD_some, hanswer _ _ hrst] at h
          cases h
      · exact isBadConnErr_networkError.1 h
  · split at h
    · exact absurd h (by decide)
    · exact isBadConnErr_networkError.1 h

theorem bad_broadcastError (h : isBadConnErr (broadcastError errCode) = true) :
    errCode ∈ Call.badCodes := by
  unfold broadcastError at h
  split at h
  · cases h
  · exact isBadConnErr_networkError.1 h

theorem badOnly_store (errCode : ErrCode) (results : List MessageResult) :
    (cl.store errCode results).BadOnly errCode :=
  badOnly_unnamed <| bad_messageError fun type_ err h => by
    cases type_ <;> cases h <;> decide

theorem badOnly_delete (errCode : ErrCode) (results : List MessageResult) :
    (cl.delete errCode results).BadOnly errCode :=
  badOnly_unnamed <| bad_messageError fun type_ err h => by
    cases type_ <;> cases h <;> decide

theorem badOnly_touch (errCode : ErrCode) (results : List MessageResult) :
    (cl.touch errCode results).BadOnly errCode :=
  badOnly_unnamed <| bad_messageError fun type_ err h => by
    cases type_ <;> cases h <;> decide

theorem badOnly_incrOrDecr (errCode : ErrCode) (results : List (Option ℕ)) :
    (cl.incrOrDecr errCode results).BadOnly errCode := by
  unfold Settings.incrOrDecr
  split
  · split
    · exact badOnly_unnamed nofun
    · split
      · exact badOnly_unnamed fun h => absurd h (by decide)
      · exact badOnly_unnamed nofun
      · exact badOnly_unnamed isBadConnErr_networkError.1
  · split
    · exact badOnly_unnamed fun h => absurd h (by decide)
    · exact badOnly_unnamed isBadConnErr_networkError.1

theorem badOnly_broadcastEnded {β : Type} (errCode : ErrCode) (rv : Option (Bytes → Option β)) :
    (broadcastEnded errCode rv).BadOnly errCode := by
  cases rv with
  | none => exact fun h => by cases h
  | some rv => exact badOnly_unnamed bad_broadcastError

theorem badOnly_flushAll (errCode : ErrCode) (results : List BroadcastResult) :
    (flushAll errCode results).BadOnly errCode := by
  unfold flushAll
  dsimp only
  split
  · exact badOnly_unnamed fun h => absurd h (by decide)
  · exact badOnly_unnamed bad_broadcastError

/-- `putConn` is told that the connection is bad if the caller is. -/
theorem Call.Safe.bad {call : Call} (h : call.Safe)
    (hbad : isBadConnErr (call.errors cl).1 = true) :
    isBadConnErr (call.errors cl).2 = true := by
  have hnamed : ∀ {α : Type} {e : Ended α}, e.Named → isBadConnErr e.errors.1 = true →
      isBadConnErr e.errors.2 = true := fun he hbad => by
    rcases he.errors_eq with hnone | heq
    · rw [hnone] at hbad
      cases hbad
    · rw [← heq]
      exact hbad
  cases call with
  | getOrGets => exact hnamed (named_getOrGets _ _ _ _) hbad
  | setMulti => exact hnamed (named_setMulti _ _ _) hbad
  | getMulti keys =>
    unfold errors at *
    dsimp only at *
    split_ifs at *
    · exact hbad
    · exact hnamed (named_getMulti _ _ _) hbad
  | deleteMulti keys =>
    unfold errors at *
    dsimp only at *
    split_ifs at *
    · exact hbad
    · exact hnamed (named_deleteMulti _ _ _) hbad
  | store errCode => exact absurd (badOnly_store _ _ hbad) (h errCode rfl)
  | delete errCode => exact absurd (badOnly_delete _ _ hbad) (h errCode rfl)
  | touch errCode => exact absurd (badOnly_touch _ _ hbad) (h errCode rfl)
  | incrOrDecr errCode => exact absurd (badOnly_incrOrDecr _ _ hbad) (h errCode rfl)
  | version errCode => exact absurd (badOnly_broadcastEnded _ _ hbad) (h errCode rfl)
  | stats errCode => exact absurd (badOnly_broadcastEnded _ _ hbad) (h errCode rfl)
  | flushAll errCode => exact absurd (badOnly_flushAll _ _ hbad) (h errCode rfl)

/-! ### The pool and its operations -/

/-- A pool with the error that the last operation on each connection has returned to its caller. -/
structure Recycling where
  pool : Pool := {}
  lastErr : ℕ → Option Error := fun _ => none

/-- What happens in a step: an operation of a goroutine, or anything else. -/
inductive RecycleEvent
  | pool (ev : PoolEvent)
  | operation (i : ℕ) (call : Call)

/-- The operation of the step does not hide a failure of its connection. -/
def RecycleEvent.Safe : RecycleEvent → Prop
  | pool _ => True
  | operation _ call => call.Safe

namespace Recycling

variable {s s' : Recycling} {ev : RecycleEvent} {g g' : Goroutine} {c c' : Client}
  {started : List Goroutine} {cn i : ℕ} {call : Call}

/-- A step of the pool, where a goroutine that holds a connection goes on with an operation and the
error that `putConn` gets. -/
inductive Step (cl : Settings) : Recycling → RecycleEvent → Recycling → Prop
  | pool {s : Recycling} {ev : PoolEvent} {p : Pool} (h : s.pool.Step ev p)
      (hother : ∀ i cn, ev = .go i → s.pool.procs[i]? ≠ some (.holding cn)) :
      Step cl s (.pool ev) { s with pool := p }
  | operation {s : Recycling} {i cn : ℕ} (call : Call)
      (hi : s.pool.procs[i]? = some (.holding cn)) :
      Step cl s (.operation i call)
        { pool := ⟨s.pool.client,
            move s.pool.procs i (.putting cn (isBadConnErr (call.errors cl).2) false) []⟩
          lastErr := Function.update s.lastErr cn (call.errors cl).1 }

theorem Step.pool_step (h : Step cl s ev s') : ∃ ev', s.pool.Step ev' s'.pool := by
  cases h with
  | pool h _ => exact ⟨_, h⟩
  | operation call hi => exact ⟨_, .go hi (.use _ _)⟩

theorem pool_run {tr : List (Transition Recycling RecycleEvent)} (h : Run (Step cl) s tr s') :
    ∃ tr', Run Pool.Step s.pool tr' s'.pool := by
  induction h with
  | nil => exact ⟨_, .nil⟩
  | snoc _ hstep ih =>
    obtain ⟨tr', hrun⟩ := ih
    obtain ⟨ev', hpool⟩ := hstep.pool_step
    exact ⟨_, hrun.snoc hpool⟩

end Recycling

/-! ### Where connections wait for an operation -/

/-- A connection is free, or given to a request. -/
def Client.Offers (c : Client) (cn : ℕ) : Prop := cn ∈ c.freeConns ∨ .full cn ∈ c.requests

/-- The connection that a goroutine has got, or will put back. -/
def Goroutine.keeps : Goroutine → Option ℕ
  | taken cn _ => some cn
  | holding cn => some cn
  | putting cn false _ => some cn
  | _ => none

variable {g g' : Goroutine} {c c' : Client} {started : List Goroutine} {cn i : ℕ}

theorem Goroutine.mem_holds (h : g.keeps = some cn) : cn ∈ g.holds := by
  cases g with
  | taken | holding =>
    obtain rfl := Option.some.inj h
    exact List.mem_singleton_self _
  | putting _ bad _ =>
    cases bad with
    | true => cases h
    | false =>
      obtain rfl := Option.some.inj h
      exact List.mem_singleton_self _
  | _ => cases h

@[simp] theorem Next.keeps_go (next : Next) : next.go.keeps = none := by
  rcases next with _ | _ | _ | (_ | ⟨cn, rest⟩) | (_ | ⟨cn, rest⟩) <;> rfl

namespace Client

theorem offers_of_eq (hfree : c'.freeConns = c.freeConns) (hreq : c'.requests = c.requests)
    (h : c'.Offers cn) : c.Offers cn := by
  unfold Offers at *
  rw [hfree, hreq] at h
  exact h

theorem offers_set_empty {k : ℕ}
    (h : Offers { c with requests := c.requests.set k .empty } cn) : c.Offers cn := by
  rcases h with h | h
  · exact .inl h
  · rcases List.mem_or_eq_of_mem_set h with h | h
    · exact .inr h
    · cases h

theorem offers_quit (h : c.quit.Offers cn) : c.Offers cn := by
  have hclose : ∀ (keys : List ℕ) (chans : List RequestChan),
      .full cn ∈ keys.foldl (fun chans k => chans.set k .closed) chans → .full cn ∈ chans := by
    intro keys
    induction keys with
    | nil => exact fun chans h => h
    | cons k keys ih =>
      intro chans h
      rcases List.mem_or_eq_of_mem_set (ih _ h) with h | h
      · exact h
      · cases h
  exact h.imp_right (hclose _ _)

theorem offers_sweep {old : ℕ → Bool}
    (h : Offers { c with freeConns := (sweep old c.freeConns).2 } cn) : c.Offers cn := by
  refine h.imp_left fun h => List.count_pos_iff.1 ?_
  have hcount := sweep_count old c.freeConns cn
  have hpos : 0 < (sweep old c.freeConns).2.count cn := List.count_pos_iff.2 h
  omega

/-- A connection that is put back is offered from then on. -/
theorem PutConnLocked.offers (h : c.PutConnLocked cn started c') {cn' : ℕ} (hoffers : c'.Offers cn') :
    c.Offers cn' ∨ cn' = cn := by
  cases h with
  | request =>
    rcases hoffers with hfree | hreq
    · exact .inl (.inl hfree)
    · rcases List.mem_or_eq_of_mem_set hreq with hreq | heq
      · exact .inl (.inr hreq)
      · exact .inr (RequestChan.full.inj heq)
  | free =>
    obtain ⟨b, heq, -⟩ := startCleanerLocked_eq { c with freeConns := c.freeConns ++ [cn] }
    rw [heq] at hoffers
    rcases hoffers with hfree | hreq
    · rcases List.mem_append.1 hfree with hfree | hlast
      · exact .inl (.inl hfree)
      · exact .inr (List.mem_singleton.1 hlast)
    · exact .inl (.inr hreq)

end Client

/-- A connection that is offered or kept after a step was so before, or it is new. Operations are left
out. -/
theorem Local.waits (h : Local g c g' started c') (hg : ∀ cn, g ≠ .holding cn)
    (hcn : c'.Offers cn ∨ g'.keeps = some cn) :
    c.Offers cn ∨ g.keeps = some cn ∨ cn = c.conns.length := by
  cases h with
  | connFree _ hfree =>
    rcases hcn with (hmem | hmem) | hkeeps
    · exact .inl (.inl (by rw [hfree]; exact List.mem_cons_of_mem _ hmem))
    · exact .inl (.inr hmem)
    · obtain rfl := Option.some.inj hkeeps
      exact .inl (.inl (by rw [hfree]; exact List.mem_cons_self))
  | takenConn cn' lifetime now hx =>
    rcases hcn with hoffers | hkeeps
    · exact .inl hoffers
    · split_ifs at hkeeps
      · cases hkeeps
      · exact .inr (.inl hkeeps)
  | connWait =>
    rcases hcn with (hmem | hmem) | hkeeps
    · exact .inl (.inl hmem)
    · rcases List.mem_append.1 hmem with hmem | hmem
      · exact .inl (.inr hmem)
      · cases List.mem_singleton.1 hmem
    · cases hkeeps
  | created | openCreated =>
    rcases hcn with hoffers | hkeeps
    · exact .inl hoffers
    · exact .inr (.inr (Option.some.inj hkeeps).symm)
  | received h | drained h =>
    rcases hcn with hoffers | hkeeps
    · exact .inl (Client.offers_set_empty hoffers)
    · obtain rfl := Option.some.inj hkeeps
      exact .inl (.inr (List.mem_of_getElem? h))
  | use cn' bad => exact absurd rfl (hg cn')
  | put opener h =>
    rcases hcn with hoffers | hkeeps
    · rcases h.offers hoffers with hoffers | rfl
      · exact .inl hoffers
      · exact .inr (.inl rfl)
    · rw [Next.keeps_go] at hkeeps
      cases hkeeps
  | createFailed opener =>
    obtain ⟨n, heq⟩ := Client.maybeOpenNewConnections_eq c.lowerNumOpen
    rw [heq, Next.keeps_go] at hcn
    rcases hcn with hoffers | hkeeps
    · exact .inl hoffers
    · cases hkeeps
  | quitting cn' errCode next =>
    obtain ⟨n, heq⟩ := Client.quitConn_eq cn' errCode c
    rw [heq, Next.keeps_go] at hcn
    rcases hcn with hoffers | hkeeps
    · exact .inl hoffers
    · cases hkeeps
  | quitTwice | quitRange =>
    rw [Next.keeps_go] at hcn
    rcases hcn with hoffers | hkeeps
    · exact .inl hoffers
    · cases hkeeps
  | cleanerSweep now h =>
    rw [Next.keeps_go] at hcn
    rcases hcn with hoffers | hkeeps
    · exact .inl (Client.offers_sweep hoffers)
    · cases hkeeps
  | quitClient =>
    rcases hcn with hoffers | hkeeps
    · exact .inl (Client.offers_quit hoffers)
    · cases hkeeps
  | quitEnd =>
    rcases hcn with (hmem | hmem) | hkeeps
    · cases hmem
    · exact .inl (.inr hmem)
    · cases hkeeps
  | _ =>
    rcases hcn with hoffers | hkeeps
    · exact .inl hoffers
    · cases hkeeps

theorem Local.length_le (h : Local g c g' started c') : c.conns.length ≤ c'.conns.length := by
  cases h with
  | created | openCreated =>
    show _ ≤ (c.conns ++ _).length
    rw [List.length_append]
    exact Nat.le_add_right _ _
  | put opener h =>
    cases h with
    | request => exact le_rfl
    | free =>
      obtain ⟨b, heq, -⟩ := Client.startCleanerLocked_eq { c with freeConns := c.freeConns ++ [_] }
      rw [heq]
  | createFailed opener =>
    obtain ⟨n, heq⟩ := Client.maybeOpenNewConnections_eq c.lowerNumOpen
    rw [heq]
    exact le_rfl
  | quitting cn errCode next =>
    obtain ⟨n, heq⟩ := Client.quitConn_eq cn errCode c
    rw [heq]
    exact (List.length_modify _ _ _).ge
  | quit => exact (List.length_modify _ _ _).ge
  | _ => exact le_rfl

namespace Recycling

variable {s s' : Recycling} {ev : RecycleEvent} {call : Call}
  {tr : List (Transition Recycling RecycleEvent)}

/-- The last operation on a connection that waits for the next one has not failed on it. -/
structure Inv (s : Recycling) : Prop where
  pool : s.pool.Inv
  fresh : ∀ cn, s.pool.client.conns.length ≤ cn → s.lastErr cn = none
  offers : ∀ cn, s.pool.client.Offers cn → isBadConnErr (s.lastErr cn) = false
  keeps : ∀ g ∈ s.pool.procs, ∀ cn, g.keeps = some cn → isBadConnErr (s.lastErr cn) = false

theorem inv_init : ({} : Recycling).Inv where
  pool := Pool.inv_init
  fresh _ _ := rfl
  offers _ _ := rfl
  keeps _ _ _ _ := rfl

theorem Inv.start (h : s.Inv) {p : Pool} (hp : p.Inv) {new : List Goroutine}
    (hconns : p.client.conns = s.pool.client.conns)
    (hfree : p.client.freeConns = s.pool.client.freeConns)
    (hreq : p.client.requests = s.pool.client.requests) (hprocs : p.procs = s.pool.procs ++ new)
    (hnew : ∀ g ∈ new, g.keeps = none) : Inv { s with pool := p } where
  pool := hp
  fresh cn hcn := h.fresh cn (hconns ▸ hcn)
  offers cn hcn := h.offers cn (Client.offers_of_eq hfree hreq hcn)
  keeps g hg cn hcn := by
    change g ∈ p.procs at hg
    rw [hprocs] at hg
    rcases List.mem_append.1 hg with hg | hg
    · exact h.keeps g hg cn hcn
    · cases (hnew g hg).symm.trans hcn

theorem Inv.pool_step (h : s.Inv) {ev : PoolEvent} {p : Pool} (hstep : s.pool.Step ev p)
    (hother : ∀ i cn, ev = .go i → s.pool.procs[i]? ≠ some (.holding cn)) :
    Inv { s with pool := p } := by
  have hp := h.pool.step hstep
  cases hstep with
  | conn | quit =>
    refine h.start hp rfl rfl rfl rfl fun g hg => ?_
    rw [List.mem_singleton.1 hg]
    rfl
  | setConnMaxOpen maxOpen => exact h.start hp rfl rfl rfl (List.append_nil _).symm nofun
  | setConnMaxLifetime d =>
    obtain ⟨b, heq, hnew⟩ :=
      Client.startCleanerLocked_eq { s.pool.client with maxLifetime := max d 0 }
    refine h.start hp (by rw [heq]) (by rw [heq]) (by rw [heq]) rfl fun g hg => ?_
    rw [hnew g hg]
    rfl
  | @go i g g' started c hi hlocal =>
    have hg : ∀ cn, g ≠ .holding cn := fun cn hcn => hother i cn rfl (hcn ▸ hi)
    have hwaits : ∀ cn, c.Offers cn ∨ g'.keeps = some cn → isBadConnErr (s.lastErr cn) = false := by
      intro cn hcn
      rcases hlocal.waits hg hcn with hoffers | hkeeps | rfl
      · exact h.offers cn hoffers
      · exact h.keeps g (List.mem_of_getElem? hi) cn hkeeps
      · rw [h.fresh _ le_rfl]
        rfl
    refine ⟨hp, fun cn hcn => h.fresh cn (hlocal.length_le.trans hcn), fun cn hcn => ?_, ?_⟩
    · exact hwaits cn (.inl hcn)
    · intro x hx cn hkeeps
      rcases mem_move hx with rfl | hx | hx
      · exact hwaits cn (.inr hkeeps)
      · exact h.keeps x hx cn hkeeps
      · rw [hlocal.started_eq x hx] at hkeeps
        cases hkeeps

/-- A connection in the hands of a goroutine is nowhere else. -/
theorem alone {p : Pool} (h : p.Inv) {i cn : ℕ} {g : Goroutine} (hi : p.procs[i]? = some g)
    (hcn : cn ∈ g.holds) :
    ¬ p.client.Offers cn ∧ ∀ x ∈ p.procs, x.keeps = some cn → x = g := by
  have hone := h.live cn (h.live_of_holds hi cn hcn)
  have hg := le_total (fun x : Goroutine => x.holds.count cn) hi
  have hpos := List.count_pos_iff.2 hcn
  unfold Pool.places Pool.hands at hone
  constructor
  · rintro (hfree | hreq)
    · have hfree' := List.count_pos_iff.2 hfree
      omega
    · obtain ⟨k, hk⟩ := List.mem_iff_getElem?.1 hreq
      have hsent := le_total (fun chan => if chan = RequestChan.full cn then 1 else 0) hk
      rw [if_pos rfl] at hsent
      change 1 ≤ p.client.sent cn at hsent
      omega
  · intro x hx hkeeps
    by_contra hne
    have hboth := add_le_total (fun x : Goroutine => x.holds.count cn) (List.mem_of_getElem? hi) hx
      (Ne.symm hne)
    have hpos' := List.count_pos_iff.2 (Goroutine.mem_holds hkeeps)
    omega

theorem Inv.operation (h : s.Inv) (hsafe : call.Safe) {i cn : ℕ}
    (hi : s.pool.procs[i]? = some (.holding cn)) {p : Pool} (hp : p.Inv)
    (heq : p = ⟨s.pool.client,
      move s.pool.procs i (.putting cn (isBadConnErr (call.errors cl).2) false) []⟩) :
    Inv { pool := p, lastErr := Function.update s.lastErr cn (call.errors cl).1 } := by
  have hlt : cn < s.pool.client.conns.length := by
    obtain ⟨x, hx, -⟩ := h.pool.live_of_holds hi cn (List.mem_singleton_self cn)
    exact (List.getElem?_eq_some_iff.1 hx).1
  have hi' : p.procs[i]? = some (.putting cn (isBadConnErr (call.errors cl).2) false) := by
    rw [heq]
    unfold move
    rw [List.append_nil, List.getElem?_set_self (List.getElem?_eq_some_iff.1 hi).1]
  obtain ⟨hoffers, hkeeps⟩ := alone hp hi' (List.mem_singleton_self cn)
  refine ⟨hp, fun x hx => ?_, fun x hx => ?_, fun g hg x hx => ?_⟩
  · rw [heq] at hx
    change s.pool.client.conns.length ≤ x at hx
    show Function.update s.lastErr cn _ x = none
    rw [Function.update_of_ne (by omega)]
    exact h.fresh x hx
  · have hne : x ≠ cn := fun hxcn => hoffers (hxcn ▸ hx)
    rw [heq] at hx
    show isBadConnErr (Function.update s.lastErr cn _ x) = false
    rw [Function.update_of_ne hne]
    exact h.offers x hx
  · show isBadConnErr (Function.update s.lastErr cn _ x) = false
    by_cases hxcn : x = cn
    · subst hxcn
      rw [Function.update_self]
      obtain rfl := hkeeps g hg hx
      cases hbad : isBadConnErr (call.errors cl).1 with
      | false => rfl
      | true =>
        rw [hsafe.bad hbad] at hx
        cases hx
    · rw [Function.update_of_ne hxcn]
      rw [heq] at hg
      rcases mem_move hg with rfl | hg | hg
      · exact absurd (Goroutine.mem_holds hx) (by simpa [Goroutine.holds] using hxcn)
      · exact h.keeps g hg x hx
      · cases hg

theorem Inv.step (h : s.Inv) (hstep : Step cl s ev s') (hsafe : ev.Safe) : s'.Inv := by
  cases hstep with
  | pool hpool hother => exact h.pool_step hpool hother
  | operation call hi => exact h.operation hsafe hi (h.pool.step (.go hi (.use _ _))) rfl

/-- **Connections that have failed are not used again**, in every run whose operations fail on their
connections only if their results have names: a connection that is free, given to a request or held by
a goroutine before its operation is not one whose last operation has returned an error that is bad for
the connection. -/
theorem recycles_no_bad_conn (h : Run (Step cl) {} tr s) (hsafe : ∀ t ∈ tr, t.event.Safe) (cn : ℕ)
    (hcn : cn ∈ s.pool.client.freeConns ∨ .full cn ∈ s.pool.client.requests ∨
      .holding cn ∈ s.pool.procs) : isBadConnErr (s.lastErr cn) = false := by
  have hinv : s.Inv := h.invariant (C := fun _ ev => ev.Safe) inv_init
    (fun s ev s' hs hstep hsafe => hs.step hstep hsafe) hsafe
  rcases hcn with hfree | hreq | hholding
  · exact hinv.offers cn (.inl hfree)
  · exact hinv.offers cn (.inr hreq)
  · exact hinv.keeps _ hholding cn rfl

theorem first_call (call : Call) (hbad : isBadConnErr (call.errors {}).2 = false) :
    ∃ tr s, Run (Step {}) {} tr s ∧ (call.Safe → ∀ t ∈ tr, t.event.Safe) ∧
      0 ∈ s.pool.client.freeConns ∧ s.lastErr 0 = (call.errors {}).1 := by
  have hcall : Run (Step {}) ({} : Recycling) _ _ := .snoc .nil (.pool (.conn {}) nofun)
  have hcreate := hcall.snoc (.pool
    (.go (i := 1) rfl (.connCreate true rfl (fun _ => rfl) (by decide)))
    (by rintro i cn ⟨⟩; nofun))
  have hcreated := hcreate.snoc (.pool (.go (i := 1) rfl (.created 0)) (by rintro i cn ⟨⟩; nofun))
  have hused := hcreated.snoc (.operation (i := 1) call rfl)
  have hprocs : [Goroutine.opener, .putting 0 (isBadConnErr (call.errors {}).2) false][1]? =
      some (.putting 0 false false) := by
    rw [hbad]
    rfl
  have hput := hused.snoc (.pool (.go (i := 1) hprocs
    (.put false (.free (fun h => h.elim nofun fun h => absurd h.2 (lt_irrefl (1 : ℤ))) rfl)))
    (by rintro i cn ⟨⟩; nofun))
  refine ⟨_, _, hput, fun hsafe t ht => ?_, List.mem_singleton_self 0, rfl⟩
  simp only [List.mem_append, List.mem_singleton, List.not_mem_nil, false_or] at ht
  rcases ht with (((rfl | rfl) | rfl) | rfl) | rfl
  · trivial
  · trivial
  · trivial
  · exact hsafe
  · trivial

/-- `Get` does not find the key. -/
theorem recycles_no_bad_conn_get : ∃ s : Recycling, 0 ∈ s.pool.client.freeConns ∧
    s.lastErr 0 = some .cacheMiss ∧ isBadConnErr (s.lastErr 0) = false := by
  obtain ⟨tr, s, hrun, hsafe, hfree, hlast⟩ := first_call (.getOrGets false (ascii "k") .ok []) rfl
  exact ⟨s, hfree, hlast, recycles_no_bad_conn hrun (hsafe nofun) 0 (.inl hfree)⟩

/-- `Set` cannot send, its caller is told so, and the connection is free. -/
theorem recycles_bad_conn : ¬ ∀ (cl : Settings) (tr : List (Transition Recycling RecycleEvent))
    (s : Recycling), Run (Step cl) {} tr s → ∀ cn : ℕ,
      cn ∈ s.pool.client.freeConns ∨ .full cn ∈ s.pool.client.requests →
        isBadConnErr (s.lastErr cn) = false := by
  intro hall
  obtain ⟨tr, s, hrun, -, hfree, hlast⟩ := first_call (.store .sendErr []) rfl
  have hgood := hall {} tr s hrun 0 (.inl hfree)
  rw [hlast] at hgood
  exact absurd hgood (by decide)

end Recycling

end Libmc.Golibmc
