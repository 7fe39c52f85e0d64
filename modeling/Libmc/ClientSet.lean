import Libmc.MessageKeys

/-!
# Calls of `Client::set`

An item whose key is not valid, or for which `getConn` has no connection, is skipped by
`dispatchStorage`, and nobody is told if other items are sent. So a call that returns `RET_OK` has
handed over the commands of all its items exactly if there are no such items (`delivered_iff`). With
as many messages as items there are none, and each item has been answered (`answered_of_ok`).
-/

namespace Libmc

variable {p p' : ConnectionPool} {rules : Rules} {i : ℕ} {ι : Type} {key : ι → Bytes}
  {take : ι → Connection → Connection} {items : List (ι × Routed)}

/-! ### Where items go -/

theorem flatMap_itemsFor (key : ι → Bytes) {is : List ℕ} (his : is.Nodup)
    (items : List (ι × Routed)) :
    (is.flatMap fun i => Request.itemsFor key i items).Perm
      ((items.filter fun item => isValidKey (key item.1) && item.2.conn.any (· ∈ is)).map (·.1)) := by
  induction items with
  | nil => simp [Request.itemsFor]
  | cons item items ih =>
    have hcons : ∀ i, Request.itemsFor key i (item :: items) =
        Request.itemsFor key i [item] ++ Request.itemsFor key i items := fun i => by
      unfold Request.itemsFor
      rw [← List.map_append, ← List.filter_append]
      rfl
    have hone : (is.flatMap fun i => Request.itemsFor key i [item]) =
        ([item].filter fun item =>
          isValidKey (key item.1) && item.2.conn.any (· ∈ is)).map (·.1) := by
      clear ih hcons
      induction is with
      | nil => cases hc : item.2.conn <;> simp
      | cons j is ih =>
        obtain ⟨hj, hnodup⟩ := List.nodup_cons.1 his
        rw [List.flatMap_cons, ih hnodup]
        unfold Request.itemsFor
        rcases hv : isValidKey (key item.1) with _ | _
        · simp [hv]
        · rcases hc : item.2.conn with _ | j'
          · simp [hc]
          · by_cases hjj : j' = j
            · subst hjj
              simp [hv, hc, hj]
            · simp [List.filter_cons, hv, hc, hjj]
    simp only [hcons]
    refine (List.flatMap_append_perm is _ _).symm.trans ?_
    rw [hone, ← List.singleton_append (l := items), List.filter_append, List.map_append]
    exact ih.append_left _

theorem Request.mem_itemsFor {item : ι × Routed} (hitem : item ∈ items)
    (hkey : isValidKey (key item.1) = true) (hi : item.2.conn = some i) :
    item.1 ∈ Request.itemsFor key i items := by
  refine List.mem_map_of_mem (List.mem_filter.2 ⟨hitem, ?_⟩)
  rw [hkey, hi]
  simp

theorem Routed.Live.lt {r : Routed} (h : r.Live p) (hi : r.conn = some i) : i < p.conns.length := by
  obtain ⟨c, hc, -⟩ := h i hi
  have hlength : (p.getConn r).conns.length = p.conns.length :=
    (ConnectionPool.sameActive_foldl _ _ _ p).length
  rw [← hlength]
  exact (List.getElem?_eq_some_iff.1 hc).1

/-- The contract of `getConn` says that its connections are there. -/
theorem ConnectionPool.RoutesLive.lt (h : RoutesLive key take items p) {item : ι × Routed}
    (hitem : item ∈ items) (hkey : isValidKey (key item.1) = true) (hi : item.2.conn = some i) :
    i < p.conns.length := by
  induction items generalizing p with
  | nil => cases hitem
  | cons first items ih =>
    obtain ⟨hlive, hrest⟩ := h
    rcases List.mem_cons.1 hitem with rfl | hitem
    · exact (hlive hkey).lt hi
    · rw [← (sameActive_dispatchItem p first).length]
      exact ih hrest hitem

/-! ### Calls -/

/-- An item of `Client::set`: its key, its flags and its value. -/
abbrev SetItem := Bytes × UInt32 × Bytes

/-- What `Client::set` returns: a code, and the messages. -/
structure SetResult where
  code : ErrCode
  results : List MessageResult
  deriving DecidableEq, Repr

/-- `ConnectionPool::collectMessageResult`. -/
def ConnectionPool.collectMessageResult (p : ConnectionPool) : List MessageResult :=
  p.activeConns.flatMap fun i => (p.conns[i]?.map (·.parser.messageResults)).getD []

/-- A record of a call of `Client::set`: its items with their routing, the pool before it and as
`waitPoll` leaves it, and the code. -/
structure SetCall where
  exptime : Int64
  noreply : Bool
  items : List (StorageItem × Routed)
  before : ConnectionPool
  code : ErrCode
  after : ConnectionPool

namespace SetCall

def request (x : SetCall) : Request := .storage ⟨.set, by decide⟩ x.exptime x.noreply x.items

/-- The items of a call, as its caller gives them. -/
def given (x : SetCall) : List SetItem :=
  x.items.map fun item => (item.1.key, item.1.flags, item.1.val)

/-- The messages that the call returns. -/
def results (x : SetCall) : List MessageResult := x.after.collectMessageResult

def command (x : SetCall) (item : StorageItem × Routed) : Command :=
  Request.storageCommand .set x.exptime x.noreply item.1

/-- The commands that have been written to the socket of a connection in the call, completely. -/
def handed (x : SetCall) (i : ℕ) : List Command :=
  match (x.request.dispatch x.before).conns[i]?, x.after.conns[i]? with
  | some c0, some c => (readCommands (c0.writtenSince c)).1
  | _, _ => []

/-- The command of every item has been written to the socket of its server, completely. -/
structure Delivered (x : SetCall) : Prop where
  all : ((List.range x.after.conns.length).flatMap x.handed).Perm (x.items.map x.command)
  server : ∀ i, x.handed i = (x.items.filter (·.2.conn = some i)).map x.command

/-- There is a message for every item. -/
def Answered (x : SetCall) : Prop :=
  (x.results.map (·.key)).Perm (x.items.map fun item => some item.1.key)

/-- Every key is valid and has a connection. -/
def Accepted (x : SetCall) : Prop :=
  ∀ item ∈ x.items, isValidKey item.1.key = true ∧ item.2.conn ≠ none

/-- The code and the number of messages are as they should be. -/
def Succeeded (x : SetCall) : Prop :=
  x.code = .ok ∧ (x.noreply = true ∨ x.results.length = x.items.length)

end SetCall

/-- A call of `Client::set` and then, when its results have been looked at, of
`Client::destroyMessageResult`. -/
inductive ClientSet (rules : Rules) (exptime : Int64) (noreply : Bool) (p : ConnectionPool) :
    List SetItem → SetCall → SetResult → ConnectionPool → Prop
  | call {x : SetCall} (hexptime : x.exptime = exptime) (hnoreply : x.noreply = noreply)
      (hbefore : x.before = p) (hreq : rules.request p x.request)
      (hwait : (x.request.dispatch p).WaitPoll rules.step x.code x.after) :
      ClientSet rules exptime noreply p x.given x ⟨x.code, x.results⟩ x.after.reset

theorem ClientSet.reachable {exptime : Int64} {noreply : Bool} {given : List SetItem} {x : SetCall}
    {r : SetResult} (h : ClientSet rules exptime noreply p given x r p') (hp : Reachable {} p) :
    Reachable {} p' := by
  cases h with
  | call _ _ _ _ hwait =>
    exact .command hp x.request trivial (hwait.mono fun _ _ _ _ => trivial) fun _ => 0

/-! ### What a call has done when it returns `RET_OK` -/

namespace SetCall

variable {x : SetCall} (hp : Reachable rules p) (hreq : soundRuns.request p x.request)
  (hwait : (x.request.dispatch p).WaitPoll soundRuns.step .ok x.after) (hbefore : x.before = p)

theorem itemsFor_nil_of_le (hreq : soundRuns.request p x.request) (hi : p.conns.length ≤ i) :
    Request.itemsFor (·.key) i x.items = [] := by
  rw [Request.itemsFor, List.map_eq_nil_iff, List.filter_eq_nil_iff]
  intro item hitem hfor
  rw [Bool.and_eq_true, decide_eq_true_eq] at hfor
  have hroutes : ConnectionPool.RoutesLive (·.key) _ x.items p := hreq.1
  exact (hroutes.lt hitem hfor.1 hfor.2).not_ge hi

include hp hreq hwait

/-- **As many messages as items**: each item has been handed over and answered. -/
theorem answered_of_ok (hnoreply : x.noreply = false) (hlen : x.results.length = x.items.length) :
    x.Accepted ∧ x.Answered := by
  have hactive := hwait.frame.activeConns
  have hkeys : ∀ i, x.request.keysFor i = (Request.itemsFor (·.key) i x.items).map (·.key) :=
    fun i => if_neg (by rw [hnoreply]; exact Bool.false_ne_true)
  have hsub : (x.results.map (·.key)).Sublist ((x.request.dispatch p).activeConns.flatMap fun i =>
      (x.request.keysFor i).map some) := by
    unfold results ConnectionPool.collectMessageResult
    rw [List.map_flatMap, hactive]
    refine List.Sublist.flatMap_right _ fun i hi => ?_
    rcases hc : x.after.conns[i]? with _ | c
    · exact List.nil_sublist _
    · refine messages_waitPoll hp rfl (fun j hj d hd => ?_) hwait hi hc
      obtain ⟨d', hd', halive⟩ := x.request.alive_dispatch hp.clean hreq.1 hj
      obtain rfl := Option.some.inj (hd.symm.trans hd')
      exact halive
  have hperm := (flatMap_itemsFor (·.key) (x.request.dispatch_active hp.clean).1 x.items).map
    fun item => some item.key
  rw [List.map_flatMap, List.map_map] at hperm
  simp only [hkeys, List.map_map] at hsub
  change List.Sublist _ (List.flatMap (fun i => List.map (fun item : StorageItem => some item.key) _) _)
    at hsub
  have hle := hsub.length_le
  rw [hperm.length_eq, List.length_map, List.length_map, hlen] at hle
  have hfilter := List.filter_sublist.eq_of_length_le hle
  have hall := List.filter_eq_self.1 hfilter
  refine ⟨fun item hitem => ?_, ?_⟩
  · have hkept := hall item hitem
    rw [Bool.and_eq_true] at hkept
    refine ⟨hkept.1, fun hnone => ?_⟩
    rw [hnone] at hkept
    cases hkept.2
  · rw [hfilter] at hperm
    have hlength := hperm.length_eq
    rw [List.length_map, ← hlen] at hlength
    rw [Answered, hsub.eq_of_length (by rw [List.length_map, hlength])]
    exact hperm

include hbefore

theorem handed_eq (i : ℕ) :
    x.handed i = (Request.itemsFor (·.key) i x.items).map
      (Request.storageCommand .set x.exptime x.noreply) := by
  subst hbefore
  have hlength := hwait.frame.length
  have hdispatch := x.request.dispatch_length x.before
  by_cases hi : i < x.before.conns.length
  · have hc0 := List.getElem?_eq_getElem (hi.trans_eq hdispatch.symm)
    have hc := List.getElem?_eq_getElem (hi.trans_eq (hlength.trans hdispatch).symm)
    unfold handed
    rw [hc0, hc]
    dsimp only
    rw [waitPoll_handed hp hreq hwait hc0 hc]
    exact readCommands_whole x.request.commandsFor_valid
  · rw [itemsFor_nil_of_le hreq (not_lt.1 hi), List.map_nil]
    unfold handed
    rw [List.getElem?_eq_none (by omega)]

/-- The commands that are handed over, on all sockets. -/
theorem handed_perm : ((List.range x.after.conns.length).flatMap x.handed).Perm
    ((x.items.filter fun item => isValidKey item.1.key &&
      item.2.conn.any (· ∈ List.range x.after.conns.length)).map x.command) := by
  have hitems := (flatMap_itemsFor (·.key) (List.nodup_range (n := x.after.conns.length))
    x.items).map (Request.storageCommand .set x.exptime x.noreply)
  rw [List.map_flatMap, List.map_map] at hitems
  simp only [← handed_eq hp hreq hwait hbefore] at hitems
  exact hitems

/-- **Nothing is dropped** exactly if there is nothing to drop. -/
theorem delivered_iff : x.Delivered ↔ x.Accepted := by
  have hperm := handed_perm hp hreq hwait hbefore
  constructor
  · intro h item hitem
    have hlength := (hperm.symm.trans h.all).length_eq
    rw [List.length_map, List.length_map, List.length_filter_eq_length_iff] at hlength
    have hkept := hlength item hitem
    rw [Bool.and_eq_true] at hkept
    refine ⟨hkept.1, fun hnone => ?_⟩
    rw [hnone] at hkept
    cases hkept.2
  · intro h
    have hroutes : ConnectionPool.RoutesLive (·.key) _ x.items p := hreq.1
    have hfilter : x.items.filter (fun item => isValidKey item.1.key &&
        item.2.conn.any (· ∈ List.range x.after.conns.length)) = x.items := by
      refine List.filter_eq_self.2 fun item hitem => ?_
      obtain ⟨hkey, hconn⟩ := h item hitem
      obtain ⟨j, hj⟩ := Option.ne_none_iff_exists'.1 hconn
      have hlt := hroutes.lt hitem hkey hj
      rw [← x.request.dispatch_length p, ← hwait.frame.length] at hlt
      rw [hkey, hj, Bool.true_and, Option.any_some, decide_eq_true_eq]
      exact List.mem_range.2 hlt
    refine ⟨by rwa [hfilter] at hperm, fun i => ?_⟩
    rw [handed_eq hp hreq hwait hbefore, Request.itemsFor, List.map_map]
    congr 1
    refine List.filter_congr fun item hitem => ?_
    rw [(h item hitem).1, Bool.true_and]

end SetCall

theorem ClientSet.succeeded {exptime : Int64} {noreply : Bool} {given : List SetItem} {x : SetCall}
    {r : SetResult} (h : ClientSet soundRuns exptime noreply p given x r p') (hp : Reachable {} p)
    (hx : x.Succeeded) :
    (x.Delivered ↔ x.Accepted) ∧ (noreply = false → x.Accepted ∧ x.Answered) := by
  cases h with
  | call hexptime hnoreply hbefore hreq hwait =>
    rw [hx.1] at hwait
    refine ⟨SetCall.delivered_iff hp hreq hwait hbefore, fun hfalse => ?_⟩
    have hsent : x.noreply = false := hnoreply.trans hfalse
    exact SetCall.answered_of_ok hp hreq hwait hsent (hx.2.resolve_left (by rw [hsent]; decide))

end Libmc
