import Libmc.PyRoundTrip
import Libmc.ServedRuns

/-!
# The Python client over the servers

A session of the Python client runs over a pool of connections: each command of the session is a
request of the client, or several commands are one request, and the replies are made of what the
request has returned (`Carried`). As long as nothing fails, such a run is a run of the session on
one store (`Carried.exec_idealServer`), although the keys are divided among several servers.
-/

namespace Libmc

variable {i n : ℕ} {srv : Servers} {route : Bytes → ℕ} {V : Type} {K : KeyService V}
  {m : Bytes → V} {s t s' : ServedPool V} {x : Called} {exptime : Int64} {α β : Type}
  {items : List (StorageItem × Routed)} {keys : List (Bytes × Routed)} {st : Store}

/-! ### Servers that keep values -/

/-- The item of a key, for its flags and its value. -/
def valueItem (key : Bytes) (v : UInt32 × Bytes) : Item := ⟨key, v.1.toNat, v.2, none⟩

/-- A service that keeps the flags and the value that are set, if the value has at most a million
bytes. -/
structure KeyService.Keeps (K : KeyService V) (value : V → Option (UInt32 × Bytes)) : Prop where
  set : ∀ key (flags : UInt32) exptime (val : Bytes) v, val.length ≤ 1000000 →
    value (K.exec (.storage .set key flags.toNat exptime none val false) v).1 = some (flags, val) ∧
      (K.exec (.storage .set key flags.toNat exptime none val false) v).2 = .line .stored
  item : ∀ key v, key ≠ [] → isValidKey key = true →
    K.item .get key v = (value v).map (valueItem key)

/-- What the servers keep together, as a store. -/
def ServedPool.store (route : Bytes → ℕ) (value : V → Option (UInt32 × Bytes)) (s : ServedPool V) :
    Store := fun key => value (s.memory route key)

variable {value : V → Option (UInt32 × Bytes)}

/-- The items of a request, as commands of a session. -/
def sessionItems (items : List (StorageItem × Routed)) : List (Bytes × UInt32 × Bytes) :=
  items.map fun item => (item.1.key, item.1.flags, item.1.val)

/-- What a session makes of the results of a `set`, for one of its keys. -/
def Called.setReply (x : Called) (key : Bytes) : SetReply :=
  if ⟨.stored, some key⟩ ∈ x.after.collectMessageResult then .stored
  else if x.after.activeConns = [] ∨ isValidKey key = false then .unsent
  else if x.code = .ok then .silent
  else .failed

/-- What a session makes of the results of a `get`, for one of its keys. -/
def Called.getReply (x : Called) (key : Bytes) : Option (UInt32 × Bytes) :=
  (x.after.collectRetrievalResult.find? fun r => r.key = some key).map fun r =>
    (UInt32.ofNat r.flags, r.dataBlock.getD [])

/-- A run of a session over a pool: its commands are given to the client in requests. -/
inductive Carried (K : KeyService V) (srv : Servers) (route : Bytes → ℕ) :
    Py α → ServedPool V → Option α → ServedPool V → Prop
  | ret (a : α) (s : ServedPool V) : Carried K srv route (.ret a) s (some a) s
  | fail (s : ServedPool V) : Carried K srv route .fail s none s
  | set {s t s' : ServedPool V} {x : Called} {exptime : Int64} {items : List (StorageItem × Routed)}
      {next : List SetReply → Py α} {o : Option α}
      (hreq : x.req = .storage ⟨.set, set_mem⟩ exptime false items)
      (hserved : K.Served srv route s x t)
      (hlen : ∀ item ∈ items, item.1.val.length ≤ 1000000)
      (hrest : Carried K srv route (next (items.map fun item => x.setReply item.1.key)) t o s') :
      Carried K srv route (Session.each PyClient.sendSet (sessionItems items) >>= next) s o s'
  | get {s t s' : ServedPool V} {x : Called} {keys : List (Bytes × Routed)}
      {next : List (Option (UInt32 × Bytes)) → Py α} {o : Option α}
      (hreq : x.req = .retrieval ⟨.get, get_mem⟩ keys) (hserved : K.Served srv route s x t)
      (hkeys : ∀ key ∈ keys, key.1 ≠ [])
      (hrest : Carried K srv route (next (keys.map fun key => x.getReply key.1)) t o s') :
      Carried K srv route (Session.each PyClient.sendGet (keys.map (·.1)) >>= next) s o s'

theorem Carried.bind {p : Py α} {f : α → Py β} {o : Option α} {b : Option β}
    (hp : Carried K srv route p s o t) {a : α} (ho : o = some a)
    (hf : Carried K srv route (f a) t b s') : Carried K srv route (p >>= f) s b s' := by
  induction hp with
  | ret a' =>
    obtain rfl := Option.some.inj ho
    exact hf
  | fail => cases ho
  | set hreq hserved hlen hrest ih =>
    rw [Session.bind_assoc]
    exact .set hreq hserved hlen (ih ho hf)
  | get hreq hserved hkeys hrest ih =>
    rw [Session.bind_assoc]
    exact .get hreq hserved hkeys (ih ho hf)

theorem Carried.bind_none {p : Py α} {f : α → Py β} (hp : Carried K srv route p s none t) :
    Carried K srv route (p >>= f) s none t := by
  generalize ho : (none : Option α) = o at hp
  induction hp with
  | ret => cases ho
  | fail => exact .fail _
  | set hreq hserved hlen hrest ih =>
    rw [Session.bind_assoc]
    exact .set hreq hserved hlen (ih ho)
  | get hreq hserved hkeys hrest ih =>
    rw [Session.bind_assoc]
    exact .get hreq hserved hkeys (ih ho)

theorem Carried.send_set {item : StorageItem × Routed} {f : SetReply → Py α} {o : Option α}
    (hreq : x.req = .storage ⟨.set, set_mem⟩ exptime false [item])
    (hserved : K.Served srv route s x t) (hlen : item.1.val.length ≤ 1000000)
    (hrest : Carried K srv route (f (x.setReply item.1.key)) t o s') :
    Carried K srv route (PyClient.sendSet (item.1.key, item.1.flags, item.1.val) >>= f) s o s' := by
  let next : List SetReply → Py α := fun rs => f (rs.headD .failed)
  have hset : Carried K srv route
      (Session.each PyClient.sendSet (sessionItems [item]) >>= next) s o s' :=
    .set hreq hserved (List.forall_mem_singleton.2 hlen) hrest
  exact hset

theorem Carried.send_get {key : Bytes × Routed} {f : Option (UInt32 × Bytes) → Py α} {o : Option α}
    (hreq : x.req = .retrieval ⟨.get, get_mem⟩ [key]) (hserved : K.Served srv route s x t)
    (hkey : key.1 ≠ []) (hrest : Carried K srv route (f (x.getReply key.1)) t o s') :
    Carried K srv route (PyClient.sendGet key.1 >>= f) s o s' := by
  let next : List (Option (UInt32 × Bytes)) → Py α := fun rs => f (rs.headD none)
  have hget : Carried K srv route
      (Session.each PyClient.sendGet ([key].map (·.1)) >>= next) s o s' :=
    .get hreq hserved (List.forall_mem_singleton.2 hkey) hrest
  exact hget

/-! ### The replies -/

/-- The commands of a `set`. -/
def setCommand (exptime : Int64) (item : StorageItem) : Command :=
  Request.storageCommand .set exptime false item

namespace KeyService.Keeps

theorem foldl_set (h : K.Keeps value) (l : List StorageItem)
    (hlen : ∀ item ∈ l, item.val.length ≤ 1000000)
    (m : Bytes → V) : (fun key => value ((l.map (setCommand exptime)).foldl K.after m key)) =
      Store.put (fun key => value (m key)) (l.map fun item => (item.key, item.flags, item.val)) := by
  induction l generalizing m with
  | nil => rfl
  | cons item l ih =>
    obtain ⟨hitem, hl⟩ := List.forall_mem_cons.1 hlen
    rw [List.map_cons, List.foldl_cons, ih hl]
    refine congrArg (Store.put · _) (funext fun key => ?_)
    rw [after_of_hasKey rfl]
    by_cases hkey : key = item.key
    · subst hkey
      rw [Function.update_self]
      exact (congrArg value (Shards.serve_self m (setCommand exptime item))).trans
        (h.set _ _ _ _ _ hitem).1
    · rw [Function.update_of_ne hkey]
      exact congrArg value (Shards.serve_of_ne (o := setCommand exptime item) hkey m)

theorem messages_set (h : K.Keeps value) (l : List StorageItem)
    (hlen : ∀ item ∈ l, item.val.length ≤ 1000000) (m : Bytes → V) :
    K.messages m (l.map (setCommand exptime)) = l.map fun item => ⟨.stored, some item.key⟩ := by
  induction l generalizing m with
  | nil => rfl
  | cons item l ih =>
    obtain ⟨hitem, hl⟩ := List.forall_mem_cons.1 hlen
    have hanswer : (K.exec (setCommand exptime item) (m (setCommand exptime item).key)).2 =
        .line .stored := (h.set _ _ _ _ _ hitem).2
    unfold KeyService.messages at ih ⊢
    rw [List.map_cons, Shards.answers_cons, List.filterMap_cons, ih hl, hanswer]
    rfl

end KeyService.Keeps

theorem commands_set (hreq : x.req = .storage ⟨.set, set_mem⟩ exptime false items) :
    x.req.commands = ((items.map (·.1)).filter fun item => isValidKey item.key).map
      (setCommand exptime) := by
  rw [hreq]
  rfl

theorem length_le_of_valid (hlen : ∀ item ∈ items, item.1.val.length ≤ 1000000) :
    ∀ item ∈ (items.map (·.1)).filter fun item => isValidKey item.key,
      item.val.length ≤ 1000000 := by
  intro item hitem
  obtain ⟨pair, hpair, rfl⟩ := List.mem_map.1 (List.mem_of_mem_filter hitem)
  exact hlen pair hpair

theorem accept_of_le {key val : Bytes} (h : val.length ≤ 1000000) :
    accept key val = if isValidKey key then .stored else .unsent := by
  unfold accept
  rw [if_pos h]

namespace KeyService.Served

variable (h : K.Served srv route s x t) (hkeeps : K.Keeps value)
  (hp : Reachable srv.failingRuns s.pool)

include h hkeeps

theorem store_set (hreq : x.req = .storage ⟨.set, set_mem⟩ exptime false items)
    (hlen : ∀ item ∈ items, item.1.val.length ≤ 1000000) : t.store route value =
      (s.store route value).put ((sessionItems items).filter fun item =>
        accept item.1 item.2.2 = .stored) := by
  have hvalid : ((sessionItems items).filter fun item => accept item.1 item.2.2 = .stored) =
      ((items.map (·.1)).filter fun item => isValidKey item.key).map fun item =>
        (item.key, item.flags, item.val) := by
    unfold sessionItems
    rw [List.filter_map, List.filter_map, List.map_map]
    refine congrArg _ (List.filter_congr fun item hitem => ?_)
    show decide (accept item.1.key item.1.val = .stored) = isValidKey item.1.key
    rw [accept_of_le (hlen item hitem)]
    cases isValidKey item.1.key with
    | true => rfl
    | false => rfl
  rw [hvalid]
  unfold ServedPool.store
  rw [h.memory, commands_set hreq]
  exact hkeeps.foldl_set _ (length_le_of_valid hlen) _

include hp

theorem setReply_eq (hreq : x.req = .storage ⟨.set, set_mem⟩ exptime false items)
    (hlen : ∀ item ∈ items, item.1.val.length ≤ 1000000) {item : StorageItem × Routed}
    (hitem : item ∈ items) : x.setReply item.1.key = accept item.1.key item.1.val := by
  have hmessages := h.messages hp (by rw [hreq]; rfl)
  rw [commands_set hreq, hkeeps.messages_set _ (length_le_of_valid hlen)] at hmessages
  have hstored : ⟨.stored, some item.1.key⟩ ∈ x.after.collectMessageResult ↔
      isValidKey item.1.key = true := by
    rw [hmessages.mem_iff, List.mem_map]
    constructor
    · rintro ⟨other, hother, heq⟩
      have hkey : other.key = item.1.key := Option.some.inj (MessageResult.mk.inj heq).2
      exact hkey ▸ (List.mem_filter.1 hother).2
    · exact fun hvalid => ⟨item.1, List.mem_filter.2 ⟨List.mem_map_of_mem hitem, hvalid⟩, rfl⟩
  unfold Called.setReply
  rw [accept_of_le (hlen item hitem)]
  by_cases hvalid : isValidKey item.1.key = true
  · rw [if_pos (hstored.2 hvalid), if_pos hvalid]
  · rw [if_neg (mt hstored.1 hvalid), if_neg hvalid, if_pos (.inr (by simpa using hvalid))]

theorem mem_results (hreq : x.req = .retrieval ⟨.get, get_mem⟩ keys) (hkeys : ∀ key ∈ keys, key.1 ≠ [])
    {r : RetrievalResultInner} : r ∈ x.after.collectRetrievalResult ↔ ∃ key ∈ keys,
      isValidKey key.1 = true ∧ ∃ v, s.store route value key.1 = some v ∧
        (valueItem key.1 v).result = r := by
  have hitem : ∀ key ∈ keys, isValidKey key.1 = true →
      K.item .get key.1 (s.memory route key.1) =
        (s.store route value key.1).map (valueItem key.1) := fun key hkey hvalid =>
    hkeeps.item _ _ (hkeys key hkey) hvalid
  rw [(h.retrieved hp hreq).mem_iff, List.mem_map]
  constructor
  · rintro ⟨it, hit, rfl⟩
    obtain ⟨k, hk, hsome⟩ := List.mem_filterMap.1 hit
    obtain ⟨hmem, hvalid⟩ := List.mem_filter.1 hk
    obtain ⟨key, hkey, rfl⟩ := List.mem_map.1 hmem
    obtain ⟨v, hv, rfl⟩ := Option.map_eq_some_iff.1 ((hitem key hkey hvalid).symm.trans hsome)
    exact ⟨key, hkey, hvalid, v, hv, rfl⟩
  · rintro ⟨key, hkey, hvalid, v, hv, rfl⟩
    refine ⟨_, List.mem_filterMap.2 ⟨key.1, List.mem_filter.2
      ⟨List.mem_map_of_mem hkey, hvalid⟩, ?_⟩, rfl⟩
    exact (hitem key hkey hvalid).trans (congrArg _ hv)

theorem getReply_eq (hreq : x.req = .retrieval ⟨.get, get_mem⟩ keys)
    (hkeys : ∀ key ∈ keys, key.1 ≠ []) {key : Bytes × Routed} (hkey : key ∈ keys) :
    x.getReply key.1 = if isValidKey key.1 then s.store route value key.1 else none := by
  -- a result of the key is made of what the store has for it
  have hmem : ∀ r ∈ x.after.collectRetrievalResult, r.key = some key.1 → isValidKey key.1 = true ∧
      ∃ v, s.store route value key.1 = some v ∧ (valueItem key.1 v).result = r := by
    intro r hr hrkey
    obtain ⟨other, -, hvalid, v, hv, rfl⟩ := (h.mem_results hkeeps hp hreq hkeys).1 hr
    have hother : other.1 = key.1 := Option.some.inj hrkey
    rw [hother] at hvalid hv ⊢
    exact ⟨hvalid, v, hv, rfl⟩
  unfold Called.getReply
  rcases hfind : x.after.collectRetrievalResult.find? fun r => r.key = some key.1 with _ | r
  · rw [hfind]
    split_ifs with hvalid
    · rcases hv : s.store route value key.1 with _ | v
      · rfl
      · have hr := (h.mem_results hkeeps hp hreq hkeys).2 ⟨key, hkey, hvalid, v, hv, rfl⟩
        exact absurd (decide_eq_true rfl) (List.find?_eq_none.1 hfind _ hr)
    · rfl
  · obtain ⟨hvalid, v, hv, rfl⟩ := hmem r (List.mem_of_find?_eq_some hfind)
      (by simpa using List.find?_some hfind)
    rw [hfind, if_pos hvalid, hv]
    have hflags : UInt32.ofNat v.1.toNat = v.1 := UInt32.ofNat_toNat
    show some (UInt32.ofNat v.1.toNat, (if v.2 = [] then none else some v.2).getD []) = some v
    rw [hflags]
    split_ifs with hnil
    · exact congrArg some (Prod.ext rfl hnil.symm)
    · rfl

end KeyService.Served

theorem KeyService.Served.store_get (h : K.Served srv route s x t)
    (hreq : x.req = .retrieval ⟨.get, get_mem⟩ keys) (value : V → Option (UInt32 × Bytes)) :
    t.store route value = s.store route value := by
  unfold ServedPool.store
  rw [h.memory, hreq]
  rfl

/-- A run of a session over a pool gives what the session gives on one store. -/
theorem Carried.exec_store {p : Py α} {o : Option α} (h : Carried K srv route p s o s')
    (hkeeps : K.Keeps value) (hp : Reachable srv.failingRuns s.pool) :
    Session.exec idealServer p (s.store route value) = (o, s'.store route value) := by
  induction h with
  | ret => rfl
  | fail => rfl
  | @set s t _ x _ items next o hreq hserved hlen hrest ih =>
    have hreplies : items.map (fun item => x.setReply item.1.key) =
        (sessionItems items).map fun item => accept item.1 item.2.2 := by
      unfold sessionItems
      rw [List.map_map]
      exact List.map_congr_left fun item hitem => hserved.setReply_eq hkeeps hp hreq hlen hitem
    rw [Session.exec_bind_some (PyClient.exec_each_sendSet _ _), ← hreplies,
      ← hserved.store_set hkeeps hreq hlen]
    exact ih (hserved.reachable hp)
  | @get s t _ x keys next o hreq hserved hkeys hrest ih =>
    have hreplies : keys.map (fun key => x.getReply key.1) = (keys.map (·.1)).map fun key =>
        if isValidKey key then s.store route value key else none := by
      rw [List.map_map]
      exact List.map_congr_left fun key hkey => hserved.getReply_eq hkeeps hp hreq hkeys hkey
    rw [Session.exec_bind_some (PyClient.exec_each_sendGet _ _), ← hreplies,
      ← hserved.store_get hreq value]
    exact ih (hserved.reachable hp)

theorem Carried.reachable {p : Py α} {o : Option α} (h : Carried K srv route p s o s')
    (hp : Reachable srv.failingRuns s.pool) : Reachable srv.failingRuns s'.pool := by
  induction h with
  | ret => exact hp
  | fail => exact hp
  | set _ hserved _ _ ih => exact ih (hserved.reachable hp)
  | get _ hserved _ _ ih => exact ih (hserved.reachable hp)

/-- **The Python client has one store.** As long as nothing fails, a run of any of its sessions over
a pool gives what the session gives on one store, leaves in the servers what it leaves there, and the
pool as it is between requests. -/
theorem Carried.exec_idealServer {p : Py α} {o : Option α} (h : Carried K srv route p s o s')
    (hkeeps : K.Keeps value) (hp : Reachable srv.failingRuns s.pool) :
    Session.exec idealServer p (s.store route value) = (o, s'.store route value) ∧
      Reachable srv.failingRuns s'.pool :=
  ⟨h.exec_store hkeeps hp, h.reachable hp⟩

/-! ### Two servers -/

/-- The flags and the value that a server keeps for a key. -/
abbrev Kept := { v : UInt32 × Bytes // v.2.length ≤ 1000000 }

theorem valueItem_valid {key : Bytes} (hne : key ≠ []) (hvalid : isValidKey key = true) (v : Kept) :
    (valueItem key v.1).Valid where
  key_pos := List.length_pos_of_ne_nil hne
  key_le := by
    unfold isValidKey at hvalid
    exact of_decide_eq_true (Bool.and_eq_true_iff.1 hvalid).1
  key_space hmem := by
    unfold isValidKey at hvalid
    have hall := List.all_eq_true.1 (Bool.and_eq_true_iff.1 hvalid).2 _ hmem
    simp at hall
  flags_lt := v.1.1.toNat_lt
  data_lt := v.2.trans_lt (by decide)
  cas_lt := nofun

/-- A server on which keys are set, touched and deleted. -/
def storing : KeyService (Option Kept) where
  exec cmd v :=
    match cmd with
    | .storage op _ flags _ _ val _ =>
      if h : op = .set ∧ val.length ≤ 1000000 then
        (some ⟨(UInt32.ofNat flags.toNat, val), h.2⟩, .line .stored)
      else (v, .line .notStored)
    | .delete _ _ => (none, .line (if v.isSome then .deleted else .notFound))
    | .touch _ _ _ => (v, .line (if v.isSome then .touched else .notFound))
    | _ => (v, .line .notFound)
  item _ key v := v.bind fun r =>
    if key ≠ [] ∧ isValidKey key = true then some (valueItem key r.1) else none
  answers cmd v h := by
    cases cmd with
    | retrieval => cases h
    | bare => cases h
    | storage op key flags exptime cas val noreply =>
      dsimp only
      split_ifs with hset
      · exact .line List.mem_cons_self
      · exact .line (List.mem_cons_of_mem _ List.mem_cons_self)
    | incrDecr => exact .line List.mem_cons_self
    | touch =>
      refine .line ?_
      cases v.isSome with
      | true => exact List.mem_cons_self
      | false => exact List.mem_cons_of_mem _ List.mem_cons_self
    | delete =>
      refine .line ?_
      cases v.isSome with
      | true => exact List.mem_cons_self
      | false => exact List.mem_cons_of_mem _ List.mem_cons_self
  valid op key v it h := by
    obtain ⟨r, -, h⟩ := Option.bind_eq_some_iff.1 h
    split_ifs at h with hkey
    obtain rfl := Option.some.inj h
    exact valueItem_valid hkey.1 hkey.2 r

theorem storing_keeps : storing.Keeps (·.map (·.1)) where
  set key flags exptime val v hlen := by
    have hexec : storing.exec (.storage .set key flags.toNat exptime none val false) v =
        (some ⟨(UInt32.ofNat flags.toNat, val), hlen⟩, .line .stored) := dif_pos ⟨rfl, hlen⟩
    rw [hexec, UInt32.ofNat_toNat]
    exact ⟨rfl, rfl⟩
  item key v hne hvalid := by
    show v.bind _ = _
    cases v with
    | none => rfl
    | some r => exact if_pos ⟨hne, hvalid⟩

/-! ### Sessions that have runs -/

/-- What such a server keeps of a store. -/
def keptOf (st : Store) (key : Bytes) : Option Kept :=
  (st key).bind fun v => if h : v.2.length ≤ 1000000 then some ⟨v, h⟩ else none

/-- Servers that reply as they do when they keep a store. -/
def Servers.storing (st : Store) : Servers := Libmc.storing.servers fun _ => keptOf st

abbrev keptValue : Option Kept → Option (UInt32 × Bytes) := Option.map Subtype.val

theorem keptOf_store (s : ServedPool (Option Kept)) (key : Bytes) :
    keptOf (s.store route keptValue) key = s.memory route key := by
  unfold keptOf ServedPool.store
  rcases s.memory route key with _ | v
  · rfl
  · exact dif_pos v.2

namespace Servers

theorem storing_serves_set {l : List StorageItem} (hlen : ∀ item ∈ l, item.val.length ≤ 1000000)
    (socket n : ℕ) (m : Bytes → Option Kept) :
    Libmc.storing.Serves (storing st) i socket n (l.map (setCommand exptime)) m := by
  induction l generalizing n m with
  | nil => trivial
  | cons item l ih =>
    obtain ⟨hitem, hl⟩ := List.forall_mem_cons.1 hlen
    have hreply : ∀ m, Libmc.storing.reply m (setCommand exptime item) = ReplyLine.stored.bytes := by
      intro m
      rw [KeyService.reply_of_hasKey rfl]
      exact congrArg Answer.bytes (storing_keeps.set _ _ _ _ _ hitem).2
    exact ⟨fun _ => (hreply _).trans (hreply m).symm, ih hl _ _⟩

theorem storing_serves_get {s : ServedPool (Option Kept)} (hst : s.store route keptValue = st)
    {ks : List Bytes} (hks : ∀ key ∈ ks, route key = i) (socket n : ℕ) (op : OpCode) :
    Libmc.storing.Serves (storing st) i socket n [.retrieval op ks] (s.memories i) := by
  refine ⟨fun _ => congrArg Libmc.reply (List.filterMap_congr fun key hkey => ?_), trivial⟩
  have hmemory : keptOf st key = s.memories i key := by
    rw [← hst, keptOf_store, ← hks key hkey]
    rfl
  show Libmc.storing.item op key (keptOf st key) = _
  rw [hmemory]

end Servers

/-- A pool over these servers, for all keys. -/
structure ServedPool.Over (st : Store) (route : Bytes → ℕ) (s : ServedPool (Option Kept)) : Prop
    extends KeyService.Usable (.storing st) s where
  route_lt : ∀ key, route key < s.pool.conns.length

namespace PyClient

variable {s : ServedPool (Option Kept)} {st st' : Store} {Obj : Type} {c : Codecs Obj} {cl : PyClient}
  {key v : Bytes} {flags : UInt32}

theorem exists_sendSets (hs : s.Over st route) {items : List (Bytes × UInt32 × Bytes)}
    (hlen : ∀ item ∈ items, item.2.2.length ≤ 1000000) :
    ∃ (routed : List (StorageItem × Routed)) (x : Called) (s' : ServedPool (Option Kept)),
      sessionItems routed = items ∧ x.req = .storage ⟨.set, set_mem⟩ 0 false routed ∧
        (∀ item ∈ routed, item.1.val.length ≤ 1000000) ∧
        storing.Served (.storing st) route s x s' ∧ s'.Over st route := by
  -- the items of the client
  have hlt : ∀ item ∈ items, item.2.2.length < 2 ^ 63 := fun item hitem =>
    (hlen item hitem).trans_lt (by decide)
  let toItem : ∀ item : Bytes × UInt32 × Bytes, item.2.2.length < 2 ^ 63 → StorageItem :=
    fun item h => ⟨item.1, item.2.1, 0, item.2.2, h⟩
  obtain ⟨routed, hmap, hreq, hrouted⟩ := ConnectionPool.exists_storage hs.reachable hs.sockets
    hs.length_lt route ⟨.set, set_mem⟩ 0 false (items.pmap toItem hlt) fun item _ =>
      hs.route_lt item.key
  have hitems : sessionItems routed = items := by
    have : sessionItems routed = (routed.map Prod.fst).map fun x => (x.key, x.flags, x.val) := by
      rw [List.map_map]
      rfl
    rw [this, hmap, List.map_pmap]
    exact (List.pmap_eq_map _).trans (List.map_id _)
  have hvals : ∀ item ∈ routed, item.1.val.length ≤ 1000000 := by
    intro item hitem
    have hmem : (item.1.key, item.1.flags, item.1.val) ∈ items :=
      hitems ▸ List.mem_map_of_mem hitem
    exact hlen _ hmem
  obtain ⟨x, s', hx, hserved, husable, hlength⟩ := KeyService.exists_served hs.toUsable hreq hrouted
    fun i socket n => Servers.storing_serves_set (fun item hitem => by
      obtain ⟨y, hy, rfl⟩ := List.mem_map.1 hitem
      exact hvals y (List.mem_of_mem_filter hy)) socket n _
  exact ⟨routed, x, s', hitems, hx, hvals, hserved, husable, fun key => hlength ▸ hs.route_lt key⟩

theorem exists_sendGets (hs : s.Over st route) (hst : s.store route keptValue = st)
    (ks : List Bytes) : ∃ (routed : List (Bytes × Routed)) (x : Called)
      (s' : ServedPool (Option Kept)), routed.map Prod.fst = ks ∧
        x.req = .retrieval ⟨.get, get_mem⟩ routed ∧ storing.Served (.storing st) route s x s' ∧
          s'.Over st route := by
  obtain ⟨routed, hmap, hreq, hrouted⟩ := ConnectionPool.exists_retrieval hs.reachable hs.sockets
    hs.length_lt route ⟨.get, get_mem⟩ ks fun key _ => hs.route_lt key
  obtain ⟨x, s', hx, hserved, husable, hlength⟩ := KeyService.exists_served hs.toUsable hreq hrouted
    fun i socket n => by
      rw [Request.commandsFor_retrieval]
      split_ifs
      · trivial
      · refine Servers.storing_serves_get hst (fun key hkey => ?_) socket n _
        obtain ⟨y, hy, rfl⟩ := List.mem_map.1 hkey
        obtain ⟨hmem, hcond⟩ := List.mem_filter.1 hy
        obtain ⟨hvalid, hconn⟩ := Bool.and_eq_true_iff.1 hcond
        have hroute := hrouted.conn y hmem hvalid
        exact Option.some.inj (hroute.symm.trans (of_decide_eq_true hconn))
  exact ⟨routed, x, s', hmap, hx, hserved, husable, fun key => hlength ▸ hs.route_lt key⟩

theorem Carried.result {α : Type} {p : Py α} {o : Option α} {s s' : ServedPool (Option Kept)}
    (h : Carried storing (.storing st) route p s o s') (hs : s.Over st route) :
    Session.exec idealServer p (s.store route keptValue) = (o, s'.store route keptValue) :=
  h.exec_store storing_keeps hs.reachable

/-- A session that ends with `a` has a run. -/
structure HasRun (st : Store) (route : Bytes → ℕ) {α : Type} (p : Py α)
    (s : ServedPool (Option Kept)) (o : Option α) (s' : ServedPool (Option Kept)) : Prop where
  carried : Carried storing (.storing st) route p s o s'
  usable : s'.Over st route

variable {α : Type} {s s' : ServedPool (Option Kept)}

theorem exists_storeMultiRaw (hs : s.Over st route) (hno : cl.noreply = false)
    {items : List (Bytes × UInt32 × Bytes)}
    (h : Session.exec idealServer (cl.storeMultiRaw items) (s.store route keptValue) =
      (some true, st')) : ∃ s', HasRun st route (cl.storeMultiRaw items) s (some true) s' ∧
        s'.store route keptValue = st' := by
  obtain ⟨-, hall, -⟩ := (exec_storeMultiRaw_iff hno).1 h
  obtain ⟨routed, x, t, rfl, hreq, hvals, hserved, ht⟩ := exists_sendSets hs fun item hitem =>
    length_of_stored (hall item hitem)
  have hcarried : Carried storing (.storing st) route (cl.storeMultiRaw (sessionItems routed)) s _ t :=
    .set hreq hserved hvals (.ret _ t)
  obtain ⟨ho, hst⟩ := Prod.mk.inj (h.symm.trans (Carried.result hcarried hs))
  exact ⟨t, ⟨ho ▸ hcarried, ht⟩, hst.symm⟩

theorem exists_storeRaw (hs : s.Over st route) (hno : cl.noreply = false)
    (h : Session.exec idealServer (cl.storeRaw key flags v) (s.store route keptValue) =
      (some true, st')) : ∃ s', HasRun st route (cl.storeRaw key flags v) s (some true) s' ∧
        s'.store route keptValue = st' := by
  obtain ⟨hstored, -⟩ := (exec_storeRaw_iff hno).1 h
  have hlen : ∀ item ∈ [(key, flags, v)], item.2.2.length ≤ 1000000 :=
    List.forall_mem_singleton.2 (length_of_stored hstored)
  obtain ⟨routed, x, t, hitems, hreq, hvals, hserved, ht⟩ := exists_sendSets hs hlen
  obtain ⟨item, rfl, hitem⟩ := List.map_eq_singleton_iff.1 hitems
  cases hitem
  have hcarried : Carried storing (.storing st) route
      (cl.storeRaw item.1.key item.1.flags item.1.val) s _ t :=
    .send_set hreq hserved (hvals item (List.mem_singleton_self _)) (.ret _ t)
  obtain ⟨ho, hst⟩ := Prod.mk.inj (h.symm.trans (Carried.result hcarried hs))
  exact ⟨t, ⟨ho ▸ hcarried, ht⟩, hst.symm⟩

/-- **A `set` that succeeds on one store has a run** over the servers. -/
theorem exists_set (hs : s.Over st route) (hno : cl.noreply = false) {val : PyObject Obj}
    {compress : Bool} (h : Session.exec idealServer (cl.set c key val compress)
      (s.store route keptValue) = (some (some true), st')) :
    ∃ s', HasRun st route (cl.set c key val compress) s (some (some true)) s' ∧
      s'.store route keptValue = st' := by
  obtain ⟨key2, encVal, flags, hnorm, henc, hset⟩ := exec_set_true.1 h
  suffices hrun : ∃ s', HasRun st route (cl.set_ key2 encVal flags) s (some true) s' ∧
      s'.store route keptValue = st' by
    obtain ⟨s', ⟨hcarried, hs'⟩, hst⟩ := hrun
    refine ⟨s', ⟨?_, hs'⟩, hst⟩
    unfold PyClient.set setRaw
    rw [henc, hnorm]
    exact hcarried.bind rfl (.ret _ _)
  rcases cl.set_cases key2 encVal flags with ⟨-, heq⟩ | ⟨-, heq⟩ | ⟨-, heq⟩
  · rw [heq] at hset ⊢
    exact exists_storeRaw hs hno hset
  · rw [heq] at hset
    cases hset
  · rw [heq] at hset ⊢
    obtain ⟨rv, t, hmulti, hrest⟩ := Session.exec_bind_eq_some hset
    cases rv with
    | false => cases hrest
    | true =>
      obtain ⟨s₁, ⟨hchunks, hs₁⟩, rfl⟩ := exists_storeMultiRaw hs hno hmulti
      obtain ⟨s₂, ⟨hindex, hs₂⟩, hst⟩ := exists_storeRaw hs₁ hno hrest
      exact ⟨s₂, ⟨hchunks.bind rfl hindex, hs₂⟩, hst⟩

theorem HasRun.bind_leaf {β : Type} {p : Py α} {a : α} {f : α → Py β}
    (h : HasRun st route p s (some a) s') (hf : (∃ b, f a = .ret b) ∨ f a = .fail) :
    ∃ o s', HasRun st route (p >>= f) s o s' := by
  rcases hf with ⟨b, hb⟩ | hfail
  · exact ⟨some b, s', h.carried.bind rfl (hb ▸ .ret b s'), h.usable⟩
  · exact ⟨none, s', h.carried.bind rfl (hfail ▸ .fail s'), h.usable⟩

theorem exists_getMultiRaw (hs : s.Over st route) (hst : s.store route keptValue = st)
    {ks : List Bytes} (hks : ∀ key ∈ ks, key ≠ []) :
    ∃ dct s', HasRun st route (getMultiRaw ks) s (some dct) s' := by
  obtain ⟨routed, x, t, rfl, hreq, hserved, ht⟩ := exists_sendGets hs hst ks
  exact ⟨_, t, .get hreq hserved (fun _ hkey => hks _ (List.mem_map_of_mem hkey)) (.ret _ t), ht⟩

theorem exists_getLargeRaw (hs : s.Over st route) (hst : s.store route keptValue = st) (n : ℤ) :
    ∃ o s', HasRun st route (getLargeRaw key n flags) s o s' := by
  unfold getLargeRaw
  split_ifs
  · exact ⟨_, s, .ret _ s, hs⟩
  · exact ⟨_, s, .fail s, hs⟩
  · have hne : ∀ k ∈ (List.range n.toNat).map (chunkKey key), k ≠ [] :=
      List.forall_mem_map.2 fun i _ => List.cons_ne_nil _ _
    obtain ⟨dct, t, hrun⟩ := exists_getMultiRaw hs hst hne
    refine hrun.bind_leaf ?_
    split_ifs
    · exact .inl ⟨_, rfl⟩
    · exact .inl ⟨_, rfl⟩

theorem exists_sendGet (hs : s.Over st route) (hst : s.store route keptValue = st) (hkey : key ≠ [])
    {f : Option (UInt32 × Bytes) → Py α} (hf : ∀ r t, t.Over st route →
      t.store route keptValue = st → ∃ o s', HasRun st route (f r) t o s') :
    ∃ o s', HasRun st route (PyClient.sendGet key >>= f) s o s' := by
  obtain ⟨routed, x, t, hks, hreq, hserved, ht⟩ := exists_sendGets hs hst [key]
  obtain ⟨y, rfl, rfl⟩ := List.map_eq_singleton_iff.1 hks
  have htst : t.store route keptValue = st := (hserved.store_get hreq keptValue).trans hst
  obtain ⟨o, s', hrun, hs'⟩ := hf (x.getReply y.1) t ht htst
  exact ⟨o, s', .send_get hreq hserved hkey hrun, hs'⟩

/-- **A `get` has a run** over servers that keep the store. -/
theorem exists_get (hs : s.Over st route) (hst : s.store route keptValue = st) {key2 : Bytes}
    (hnorm : cl.normalizeKey key = pure key2) (hkey : key2 ≠ []) :
    ∃ o s', HasRun st route (cl.get c key) s o s' := by
  suffices hraw : ∃ o s', HasRun st route (cl.getRaw c key) s o s' by
    obtain ⟨o, t, hrun⟩ := hraw
    unfold PyClient.get
    rcases o with _ | ⟨val, flags⟩
    · exact ⟨none, t, hrun.carried.bind_none, hrun.usable⟩
    · refine hrun.bind_leaf ?_
      cases val with
      | none => exact .inl ⟨_, rfl⟩
      | some val =>
        dsimp only
        cases decodeValue c val flags with
        | none => exact .inr rfl
        | some obj => exact .inl ⟨_, rfl⟩
  unfold PyClient.getRaw
  rw [hnorm, Session.pure_bind]
  refine exists_sendGet hs hst hkey fun r t ht htst => ?_
  rcases r with _ | ⟨flags, val⟩
  · exact ⟨_, t, .ret _ t, ht⟩
  · dsimp only
    split_ifs
    · rcases parseSplits c val with _ | n
      · exact ⟨_, t, .fail t, ht⟩
      · exact exists_getLargeRaw ht htst n
    · exact ⟨_, t, .ret _ t, ht⟩

/-- A value is set and read. -/
def setAndGet (v : Bytes) : Py (Option (PyObject Empty)) := do
  let _ ← PyClient.set plainCodecs {} (ascii "k") (.bytes v) true
  PyClient.get plainCodecs {} (ascii "k")

/-- The second chunk goes to another server. -/
def routeChunks (key : Bytes) : ℕ := if key.getLast? = some 49 then 1 else 0

/-- The pool of two servers that keep nothing. -/
def emptyTwo : ServedPool (Option Kept) := ⟨.init 2, fun _ _ => none⟩

theorem emptyTwo_over (st : Store) : emptyTwo.Over st routeChunks where
  reachable := .init 2
  sockets := by
    unfold ConnectionPool.Sockets
    decide
  length_lt := by decide
  route_lt key := by
    unfold routeChunks
    split_ifs <;> decide

end PyClient

/-- The chunks of a value are set and read on two servers. -/
theorem exec_idealServer_two :
    let v : Bytes := List.replicate 1000001 97
    ∃ (st : Store) (s' : ServedPool (Option Kept)), Carried storing (.storing st)
      PyClient.routeChunks (PyClient.setAndGet v) PyClient.emptyTwo (some (some (.bytes v))) s' ∧
      Session.exec idealServer (PyClient.setAndGet v) (fun _ => none) =
        (some (some (.bytes v)), s'.store PyClient.routeChunks keptValue) ∧
      Reachable (Servers.storing st).failingRuns s'.pool ∧
      PyClient.routeChunks (PyClient.chunkKey (ascii "k") 0) = 0 ∧
        PyClient.routeChunks (PyClient.chunkKey (ascii "k") 1) = 1 := by
  intro v
  have hset := PyClient.exec_set_true.2 ⟨_, _, _, rfl,
    PyClient.encodeValue_bytes PyClient.plainCodecs v,
      PyClient.chunked_replicate.exec_set rfl flagEmpty fun _ => none⟩
  obtain ⟨s₁, ⟨hfirst, hs₁⟩, hst⟩ := PyClient.exists_set (PyClient.emptyTwo_over _) rfl hset
  have hnorm : PyClient.normalizeKey {} (ascii "k") = pure (ascii "k") := rfl
  obtain ⟨o, s₂, hsecond, -⟩ := PyClient.exists_get (c := PyClient.plainCodecs) hs₁ hst hnorm
    (List.cons_ne_nil _ _)
  have hcarried : Carried storing _ PyClient.routeChunks (PyClient.setAndGet v) PyClient.emptyTwo o
      s₂ := hfirst.bind rfl hsecond
  obtain ⟨hexec, hreachable⟩ := hcarried.exec_idealServer storing_keeps (.init 2)
  -- what the session gives on one store
  have hcut : ¬ PyClient.Cut {} (ascii "k") v := by
    refine fun hcut => absurd hcut.large ?_
    rw [List.length_replicate]
    decide
  have hkept : PyClient.kept {} v = v :=
    PyClient.kept_eq_self hcut (.inr ⟨PyClient.chunked_replicate.le, by decide⟩) (by decide)
  have hget := PyClient.get_of_exec PyClient.plainCodecs_lawful rfl hnorm
    (PyClient.encodeValue_bytes PyClient.plainCodecs v)
      (PyClient.chunked_replicate.exec_set rfl flagEmpty fun _ => none)
  rw [hkept, (decode_encodeValue PyClient.plainCodecs_lawful
    (PyClient.encodeValue_bytes PyClient.plainCodecs v)).2] at hget
  have hideal : Session.exec idealServer (PyClient.setAndGet v) (fun _ => none) =
      (some (some (.bytes v)), _) := (Session.exec_bind_some hset).trans hget
  obtain ⟨rfl, -⟩ := Prod.mk.inj (hideal.symm.trans hexec)
  exact ⟨_, s₂, hcarried, hexec, hreachable, by decide +kernel, by decide +kernel⟩

end Libmc
