import Mathlib.Data.List.ReduceOption
import Libmc.ClientSet
import Libmc.PyRoundTrip

/-!
# `set_multi`

`set_multi` of `_client.pyx`, as a session of calls of `Client::set`. It looks at the code and the
number of messages of each call, and with `noreply` at the code alone. So in runs in which nothing
goes wrong in `waitPoll` it returns `True` for items that were dropped exactly if `noreply` is on and
a call has items that `dispatchStorage` skips besides others, or a large value was cut short
(`setMulti_stored_iff`).
-/

namespace Libmc

namespace PyClient

/-- A run of the client's code, by its calls of `Client::set`. -/
abbrev PyCalls (α : Type) := Session (List SetItem) (fun _ => SetResult) α

/-- `normalize_key`, without its exception. -/
def normalKey (cl : PyClient) (key : Bytes) : Option Bytes :=
  match cl.keyPrefix with
  | none => some key
  | some pre =>
    match key with
    | [] => none
    | c :: rest => some (if c = 63 then 63 :: pre ++ rest else pre ++ key)

theorem normalizeKey_eq (cl : PyClient) (key : Bytes) :
    cl.normalizeKey key = Session.ofOption (cl.normalKey key) := by
  unfold normalizeKey normalKey
  cases cl.keyPrefix with
  | none => rfl
  | some pre => cases key <;> rfl

namespace PyCalls

/-! ### Storing -/

/-- `_store_raw` of `SET_OP`. -/
def storeRaw (cl : PyClient) (key : Bytes) (flags : UInt32) (val : Bytes) : PyCalls Bool := do
  let r ← Session.send [(key, flags, val)]
  return r.code = .ok &&
    (cl.noreply || (r.results.length = 1 && r.results.head?.any (·.type_ = .stored)))

/-- `_store_multi_raw` of `SET_OP`, with `return_failure=False`. -/
def storeMultiRaw (cl : PyClient) (items : List SetItem) : PyCalls Bool := do
  let r ← Session.send items
  return r.code = .ok && (cl.noreply || r.results.length = items.length)

/-- `_set`. -/
def set_ (cl : PyClient) (key : Bytes) (flags : UInt32) (val : Bytes) : PyCalls Bool := do
  if !cl.doSplit ∨ cValLen val ≤ doubanChunkSize then storeRaw cl key flags val
  else if 10 * doubanChunkSize < cValLen val ∨ 200 < key.length then return false
  else
    let n := nSplits (cValLen val).toNat
    let rv ← storeMultiRaw cl (chunkItems n key val flags)
    if rv = false then return false
    else storeRaw cl key (flags ||| flagDoubanChunked) (Decimal.numeral n)

/-- The loop of `set_multi`: a large value is stored at once, the others are put aside. -/
def storeLoop (cl : PyClient) : List SetItem → Bool → List SetItem → PyCalls (Bool × List SetItem)
  | [], isSucceed, small => return (isSucceed, small)
  | (key, flags, val) :: items, isSucceed, small =>
    if val.length ≤ doubanChunkSize then storeLoop cl items isSucceed (small ++ [(key, flags, val)])
    else do
      let isSingleSucceed ← set_ cl key flags val
      storeLoop cl items (isSucceed && isSingleSucceed) small

/-- `set_multi` of items whose keys are normal and whose values are encoded. -/
def storeItems (cl : PyClient) (items : List SetItem) : PyCalls Bool :=
  if !cl.doSplit ∨ items.all (·.2.2.length ≤ doubanChunkSize) then storeMultiRaw cl items
  else do
    let (isSucceed, small) ← storeLoop cl items true []
    if small = [] then return isSucceed
    else
      let rv2 ← storeMultiRaw cl small
      return isSucceed && rv2

/-- `comp_threshold` of a call. -/
def threshold (cl : PyClient) (compress : Bool) : ℤ := if compress then cl.compThreshold else 0

/-- `set_multi`, with `return_failure=False`. -/
def setMulti {Obj : Type} (c : Codecs Obj) (cl : PyClient) (dct : List (Bytes × PyObject Obj))
    (compress : Bool) : PyCalls Bool := do
  let keys ← Session.ofOption (dct.mapM fun x => cl.normalKey x.1)
  let vals := dct.map fun x => encodeValue c x.2 (threshold cl compress)
  if vals.any (·.isNone) then return false
  else
    storeItems cl (List.zipWith (fun key val => (key, val.2, val.1)) keys vals.reduceOption)

/-! ### What is to be stored -/

/-- The item that an entry of a dictionary becomes. -/
def entryItem {Obj : Type} (c : Codecs Obj) (cl : PyClient) (compress : Bool)
    (entry : Bytes × PyObject Obj) : Option SetItem := do
  let key ← cl.normalKey entry.1
  let (encVal, flags) ← encodeValue c entry.2 (threshold cl compress)
  return (key, flags, encVal)

/-- The items that it is to be stored as: the item itself, or all chunks of the value and their
number. -/
def pieces (cl : PyClient) (item : SetItem) : List SetItem :=
  let (key, flags, val) := item
  if !cl.doSplit ∨ cValLen val ≤ doubanChunkSize then [item]
  else chunkItems (nSplits val.length) key val flags ++
    [(key, flags ||| flagDoubanChunked, Decimal.numeral (nSplits val.length))]

/-- A value of at least `2 ^ 31` bytes that is stored in chunks, whose number is that of another
length. -/
def CutShort (cl : PyClient) (val : Bytes) : Prop :=
  cl.doSplit = true ∧ 2 ^ 31 ≤ val.length ∧ doubanChunkSize < cValLen val

/-- The calls of `Client::set` have handed over the commands of all entries, and unless `noreply` is
on, each of them has been answered. -/
structure Stored {Obj : Type} (c : Codecs Obj) (cl : PyClient) (compress : Bool)
    (dct : List (Bytes × PyObject Obj)) (tr : List SetCall) : Prop where
  given : ∃ items, List.Forall₂ (fun entry item => entryItem c cl compress entry = some item) dct
    items ∧ (tr.flatMap SetCall.given).Perm (items.flatMap (pieces cl))
  delivered : ∀ x ∈ tr, x.Delivered
  answered : cl.noreply = false → ∀ x ∈ tr, x.Answered

/-! ### What `True` says about the calls -/

variable {Obj : Type} {c : Codecs Obj} {cl : PyClient} {compress : Bool}
  {dct : List (Bytes × PyObject Obj)} {exptime : Int64} {p p' : ConnectionPool} {rules : Rules}
  {tr tr' : List SetCall} {items items' small small' : List SetItem} {key val : Bytes}
  {flags : UInt32} {ok : Bool}

/-- Calls that have succeeded, and between them have been given some items. -/
structure Covers (tr : List SetCall) (items : List SetItem) : Prop where
  given : (tr.flatMap SetCall.given).Perm items
  succeeded : ∀ x ∈ tr, x.Succeeded

theorem Covers.append (h : Covers tr items) (h' : Covers tr' items') :
    Covers (tr ++ tr') (items ++ items') where
  given := by
    rw [List.flatMap_append]
    exact h.given.append h'.given
  succeeded := List.forall_mem_append.2 ⟨h.succeeded, h'.succeeded⟩

theorem covers_send {f : SetResult → Bool}
    (hf : ∀ x : SetCall, x.noreply = cl.noreply → x.given = items →
      f ⟨x.code, x.results⟩ = true → x.Succeeded)
    (h : Session.Runs (ClientSet rules exptime cl.noreply)
      (do let r ← Session.send items; return f r : PyCalls Bool) p tr true p') :
    Covers tr items := by
  obtain ⟨r, tr₁, t, tr₂, rfl, hsend, hret⟩ := h.of_bind
  obtain ⟨rfl, hok⟩ := hret.of_ret
  obtain ⟨x, rfl, hcall⟩ := hsend.of_send
  cases hcall with
  | call _ hnoreply =>
    rw [List.append_nil]
    refine ⟨by simp, fun y hy => ?_⟩
    obtain rfl := List.mem_singleton.1 hy
    exact hf y hnoreply rfl hok.symm

/-- The code is looked at, and unless `noreply` is on the number of the messages. -/
theorem succeeded_of_checked {x : SetCall} {f : Bool} (hnoreply : x.noreply = cl.noreply)
    (h : (x.code = .ok && (cl.noreply || f)) = true)
    (hf : f = true → x.results.length = x.given.length) : x.Succeeded := by
  obtain ⟨hcode, hlength⟩ := Bool.and_eq_true_iff.1 h
  refine ⟨of_decide_eq_true hcode, ?_⟩
  rw [hnoreply]
  refine (Bool.or_eq_true_iff.1 hlength).imp id fun hlength => ?_
  rw [hf hlength, SetCall.given, List.length_map]

theorem covers_storeMultiRaw (h : Session.Runs (ClientSet rules exptime cl.noreply)
    (storeMultiRaw cl items) p tr true p') : Covers tr items := by
  refine covers_send (fun x hnoreply hgiven hx => ?_) h
  refine succeeded_of_checked hnoreply hx fun hlength => ?_
  rw [hgiven]
  exact of_decide_eq_true hlength

theorem covers_storeRaw (h : Session.Runs (ClientSet rules exptime cl.noreply)
    (storeRaw cl key flags val) p tr true p') : Covers tr [(key, flags, val)] := by
  refine covers_send (fun x hnoreply hgiven hx => ?_) h
  refine succeeded_of_checked hnoreply hx fun hstored => ?_
  rw [hgiven]
  exact of_decide_eq_true (Bool.and_eq_true_iff.1 hstored).1

/-- The items of `_set`. -/
abbrev givenItems (cl : PyClient) (item : SetItem) : List SetItem :=
  setItems cl item.1 item.2.2 item.2.1

theorem covers_set (h : Session.Runs (ClientSet rules exptime cl.noreply)
    (set_ cl key flags val) p tr true p') : Covers tr (setItems cl key val flags) := by
  unfold set_ at h
  unfold setItems
  by_cases hsmall : !cl.doSplit ∨ cValLen val ≤ doubanChunkSize
  · rw [if_pos hsmall] at h ⊢
    exact covers_storeRaw h
  · rw [if_neg hsmall] at h ⊢
    by_cases hlimit : 10 * doubanChunkSize < cValLen val ∨ 200 < key.length
    · rw [if_pos hlimit] at h
      cases h.of_ret.2
    · rw [if_neg hlimit] at h
      dsimp only at h ⊢
      generalize nSplits (cValLen val).toNat = n at h ⊢
      obtain ⟨rv, tr₁, t, tr₂, rfl, hchunks, hrest⟩ := h.of_bind
      cases rv with
      | false => cases hrest.of_ret.2
      | true => exact (covers_storeMultiRaw hchunks).append (covers_storeRaw hrest)

theorem givenItems_small {item : SetItem}
    (h : !cl.doSplit ∨ item.2.2.length ≤ doubanChunkSize) : givenItems cl item = [item] := by
  refine if_pos (h.imp_right fun h => ?_)
  unfold cValLen
  rw [cInt_of_lt (h.trans_lt (by decide))]
  exact Int.ofNat_le.2 h

/-- The loop, by induction on the items: those that are put aside are left for later. -/
theorem covers_storeLoop (h : Session.Runs (ClientSet rules exptime cl.noreply)
    (storeLoop cl items ok small) p tr (true, small') p') :
    ok = true ∧ ∃ done, Covers tr done ∧
      (done ++ small').Perm (small ++ items.flatMap (givenItems cl)) := by
  induction items generalizing ok small tr p with
  | nil =>
    obtain ⟨rfl, heq⟩ := h.of_ret
    obtain ⟨rfl, rfl⟩ := Prod.mk.inj heq
    exact ⟨rfl, [], ⟨.nil, List.forall_mem_nil _⟩, by simp⟩
  | cons item items ih =>
    obtain ⟨key, flags, val⟩ := item
    unfold storeLoop at h
    split_ifs at h with hsmall
    · obtain ⟨hok, done, hdone, hperm⟩ := ih h
      have hgiven : givenItems cl (key, flags, val) = [(key, flags, val)] :=
        givenItems_small (.inr hsmall)
      refine ⟨hok, done, hdone, ?_⟩
      rw [List.flatMap_cons, hgiven, ← List.append_assoc]
      exact hperm
    · obtain ⟨single, tr₁, t, tr₂, rfl, hset, hrest⟩ := h.of_bind
      obtain ⟨hok, done, hdone, hperm⟩ := ih hrest
      obtain ⟨rfl, rfl⟩ := Bool.and_eq_true_iff.1 hok
      refine ⟨rfl, _, (covers_set hset).append hdone, ?_⟩
      rw [List.flatMap_cons, List.append_assoc]
      exact (hperm.append_left _).trans (List.perm_append_comm_assoc _ _ _)

theorem covers_storeItems (h : Session.Runs (ClientSet rules exptime cl.noreply)
    (storeItems cl items) p tr true p') : Covers tr (items.flatMap (givenItems cl)) := by
  unfold storeItems at h
  split_ifs at h with hall
  · have hgiven : items.flatMap (givenItems cl) = items := by
      have hone : ∀ item ∈ items, givenItems cl item = [item] := fun item hitem =>
        givenItems_small (hall.imp_right fun hall =>
          of_decide_eq_true (List.all_eq_true.1 hall item hitem))
      rw [List.flatMap_congr hone, List.flatMap_singleton']
    rw [hgiven]
    exact covers_storeMultiRaw h
  · obtain ⟨⟨ok, small⟩, tr₁, t, tr₂, rfl, hloop, hrest⟩ := h.of_bind
    dsimp only at hrest
    split_ifs at hrest with hnil
    · obtain ⟨rfl, rfl⟩ := hrest.of_ret
      obtain ⟨-, done, hdone, hperm⟩ := covers_storeLoop hloop
      rw [hnil, List.append_nil, List.nil_append] at hperm
      rw [List.append_nil]
      exact ⟨hdone.given.trans hperm, hdone.succeeded⟩
    · obtain ⟨rv2, tr₃, t', tr₄, rfl, hsmall, hret⟩ := hrest.of_bind
      obtain ⟨rfl, hok⟩ := hret.of_ret
      obtain ⟨rfl, rfl⟩ := Bool.and_eq_true_iff.1 hok.symm
      obtain ⟨-, done, hdone, hperm⟩ := covers_storeLoop hloop
      have hboth := hdone.append (covers_storeMultiRaw hsmall)
      rw [List.append_nil]
      exact ⟨hboth.given.trans hperm, hboth.succeeded⟩

/-! ### What is given and what is to be stored -/

theorem givenItems_eq {item : SetItem} (h : ¬ CutShort cl item.2.2) :
    givenItems cl item = pieces cl item := by
  obtain ⟨key, flags, val⟩ := item
  unfold givenItems setItems pieces
  dsimp only at h ⊢
  split_ifs with hsmall
  · rfl
  · obtain ⟨hsplit, hlarge⟩ := not_or.1 hsmall
    rcases cInt_cases val.length with ⟨-, heq⟩ | ⟨hbig, -⟩
    · have hwhole : (cValLen val).toNat = val.length := by
        unfold cValLen
        rw [heq, Int.toNat_natCast]
      rw [hwhole]
    · exact absurd ⟨by simpa using hsplit, hbig, not_le.1 hlarge⟩ h

theorem length_givenItems {item : SetItem} (h : CutShort cl item.2.2) :
    (givenItems cl item).length < (pieces cl item).length := by
  obtain ⟨key, flags, val⟩ := item
  obtain ⟨hsplit, hbig, hlarge⟩ := h
  dsimp only at hbig hlarge
  have hsmall : ¬ (!cl.doSplit ∨ cValLen val ≤ doubanChunkSize) := by
    rw [hsplit]
    exact fun hsmall => (hsmall.resolve_left Bool.false_ne_true).not_gt hlarge
  have hless : nSplits (cValLen val).toNat < nSplits val.length := by
    refine nSplits_lt ?_
    rcases cInt_cases val.length with ⟨hfits, -⟩ | ⟨-, hle⟩
    · omega
    · unfold cValLen doubanChunkSize at *
      omega
  unfold givenItems setItems pieces
  dsimp only
  rw [if_neg hsmall, if_neg hsmall]
  generalize nSplits (cValLen val).toNat = n at hless ⊢
  unfold chunkItems
  rw [List.length_append, List.length_append, List.length_map, List.length_map, List.length_range,
    List.length_range]
  exact Nat.add_lt_add_right hless 1

/-- All that is to be stored is given exactly if no value is cut short: otherwise there is too
little of it. -/
theorem givenItems_perm_iff (cl : PyClient) (items : List SetItem) :
    (items.flatMap (givenItems cl)).Perm (items.flatMap (pieces cl)) ↔
      ∀ item ∈ items, ¬ CutShort cl item.2.2 := by
  have hle : ∀ item : SetItem, (givenItems cl item).length ≤ (pieces cl item).length := by
    intro item
    by_cases hcut : CutShort cl item.2.2
    · exact (length_givenItems hcut).le
    · rw [givenItems_eq hcut]
  constructor
  · intro hperm item hitem hcut
    have hlength := hperm.length_eq
    rw [List.length_flatMap, List.length_flatMap] at hlength
    exact (List.sum_lt_sum _ _ (fun item _ => hle item)
      ⟨item, hitem, length_givenItems hcut⟩).ne hlength
  · intro h
    rw [List.flatMap_congr fun item hitem => givenItems_eq (h item hitem)]

theorem entries_eq {keys : List Bytes} (hkeys : dct.mapM (fun x => cl.normalKey x.1) = some keys)
    (hvals : ∀ x ∈ dct, encodeValue c x.2 (threshold cl compress) ≠ none) :
    List.Forall₂ (fun entry item => entryItem c cl compress entry = some item) dct
      (List.zipWith (fun key val => (key, val.2, val.1)) keys
        (dct.map fun x => encodeValue c x.2 (threshold cl compress)).reduceOption) := by
  induction dct generalizing keys with
  | nil =>
    obtain rfl := Option.some.inj hkeys
    exact .nil
  | cons entry dct ih =>
    rw [List.mapM_cons] at hkeys
    obtain ⟨key, hkey, hrest⟩ := Option.bind_eq_some_iff.1 hkeys
    obtain ⟨keys', hkeys', heq⟩ := Option.bind_eq_some_iff.1 hrest
    obtain rfl := Option.some.inj heq
    obtain ⟨hval, hvals'⟩ := List.forall_mem_cons.1 hvals
    obtain ⟨⟨encVal, flags⟩, henc⟩ := Option.ne_none_iff_exists'.1 hval
    rw [List.map_cons, henc, List.reduceOption_cons_of_some]
    refine .cons ?_ (ih hkeys' hvals')
    unfold entryItem
    rw [hkey, henc]
    rfl

/-- The calls of `set_multi` have been given the items of all entries. -/
theorem covers_setMulti (h : Session.Runs (ClientSet rules exptime cl.noreply)
    (setMulti c cl dct compress) p tr true p') :
    ∃ items, List.Forall₂ (fun entry item => entryItem c cl compress entry = some item) dct items ∧
      Covers tr (items.flatMap (givenItems cl)) := by
  obtain ⟨keys, tr₁, t, tr₂, rfl, hkeys, hrest⟩ := h.of_bind
  obtain ⟨rfl, hnormal⟩ := hkeys.of_ofOption
  dsimp only at hrest
  split_ifs at hrest with hnone
  · cases hrest.of_ret.2
  · refine ⟨_, entries_eq hnormal fun x hx henc => hnone ?_, covers_storeItems hrest⟩
    exact List.any_eq_true.2 ⟨none, List.mem_map.2 ⟨x, hx, henc⟩, rfl⟩

/-- The value of an item is that of its entry. -/
theorem cutShort_iff (h : List.Forall₂ (fun entry item => entryItem c cl compress entry = some item)
    dct items) : (∀ item ∈ items, ¬ CutShort cl item.2.2) ↔ ∀ entry ∈ dct, ∀ v flags,
      encodeValue c entry.2 (threshold cl compress) = some (v, flags) → ¬ CutShort cl v := by
  induction h with
  | nil => exact ⟨fun _ => List.forall_mem_nil _, fun _ => List.forall_mem_nil _⟩
  | @cons entry item dct items hentry _ ih =>
    obtain ⟨key, -, hrest⟩ := Option.bind_eq_some_iff.1 hentry
    obtain ⟨⟨v, flags⟩, henc, hitem⟩ := Option.bind_eq_some_iff.1 hrest
    obtain rfl := Option.some.inj hitem
    rw [List.forall_mem_cons, List.forall_mem_cons, ih, henc]
    refine and_congr_left' ⟨fun h v' flags' heq => ?_, fun h => h v flags rfl⟩
    obtain ⟨rfl, -⟩ := Prod.mk.inj (Option.some.inj heq)
    exact h

/-- **When `set_multi` drops nothing.** In a run in which no step of a loop of `waitPoll` counts an
exchange wrongly or goes on with a request that is not whole: if `set_multi` returns `True`, the
commands of all entries have been handed over to their servers and answered unless `noreply` is on,
exactly if `noreply` is off or every key that was given to `Client::set` is valid and has got a
connection, and no value is cut short. -/
theorem setMulti_stored_iff {Obj : Type} (c : Codecs Obj) (cl : PyClient)
    (dct : List (Bytes × PyObject Obj)) (compress : Bool) (time : Int64) {p p' : ConnectionPool}
    {tr : List SetCall} (hp : Reachable {} p)
    (h : Session.Runs (ClientSet soundRuns time cl.noreply) (setMulti c cl dct compress) p tr
      true p') :
    Stored c cl compress dct tr ↔ (cl.noreply = false ∨ ∀ x ∈ tr, x.Accepted) ∧
      ∀ entry ∈ dct, ∀ v flags,
        encodeValue c entry.2 (threshold cl compress) = some (v, flags) → ¬ CutShort cl v := by
  obtain ⟨items, hitems, hgiven, hsucceeded⟩ := covers_setMulti h
  obtain ⟨-, hcalls⟩ := h.forall_of (I := fun p => Reachable {} p) hp
    fun p given x r p' hp hcall => ⟨hcall.reachable hp, hcall.succeeded hp⟩
  rw [← cutShort_iff hitems, ← givenItems_perm_iff]
  constructor
  · intro hstored
    refine ⟨.inr fun x hx => ?_, ?_⟩
    · exact (hcalls x hx (hsucceeded x hx)).1.1 (hstored.delivered x hx)
    · obtain ⟨items', hitems', hperm⟩ := hstored.given
      have hunique : Relator.RightUnique fun entry item =>
        entryItem c cl compress entry = some item := fun _ _ _ h h' =>
          Option.some.inj (h.symm.trans h')
      rw [hunique.forall₂ hitems' hitems] at hperm
      exact hgiven.symm.trans hperm
  · rintro ⟨hall, hperm⟩
    have haccepted : ∀ x ∈ tr, x.Accepted := by
      rcases hall with hoff | hall
      · exact fun x hx => ((hcalls x hx (hsucceeded x hx)).2 hoff).1
      · exact hall
    refine ⟨⟨items, hitems, hgiven.trans hperm⟩, fun x hx => ?_, fun hoff x hx => ?_⟩
    · exact (hcalls x hx (hsucceeded x hx)).1.2 (haccepted x hx)
    · exact ((hcalls x hx (hsucceeded x hx)).2 hoff).2

/-! ### Two runs -/

/-- Nothing but sending is reported, and there is room. -/
def sendsOnly (s : PollLoop) (ev : Event) (_ : PollLoop) : Bool :=
  match ev, s.progress with
  | .part a, .turn _ _ revents => a.room.isSome && revents.all fun r => !r.err && !r.in_
  | .fail _ _, _ => false
  | _, _ => true

theorem soundRuns_of_sendsOnly (s : PollLoop) (ev : Event) (s' : PollLoop)
    (h : sendsOnly s ev s' = true) : soundRuns.step s ev s' := by
  have hpart : ∀ k part revents r a (e : Entry), ev = .part a → s.progress = .turn k part revents →
      revents[k]? = some r → ¬ e.Loses part r a ∧ r.in_ = false := by
    rintro k part revents r a e rfl hturn hr
    unfold sendsOnly at h
    rw [hturn] at h
    obtain ⟨hroom, hall⟩ := Bool.and_eq_true_iff.1 h
    have hquiet := List.all_eq_true.1 hall r (List.mem_of_getElem? hr)
    rw [Bool.and_eq_true, Bool.not_eq_true', Bool.not_eq_true'] at hquiet
    refine ⟨fun hloses => ?_, hquiet.2⟩
    cases part with
    | error => cases hquiet.1.symm.trans hloses
    | early => cases hquiet.2.symm.trans hloses.1
    | send =>
      rw [hloses.2] at hroom
      cases hroom
    | recv => cases hquiet.2.symm.trans hloses.1
  refine ⟨⟨fun k part revents r a e hev hturn hr _ => ?_, ?_⟩,
    fun k part revents r a e hev hturn hr _ hloses => ?_⟩
  · obtain ⟨hkeeps, hin⟩ := hpart k part revents r a e hev hturn hr
    exact ⟨fun hloses => absurd hloses hkeeps, fun _ _ hgives => by cases hin.symm.trans hgives.1⟩
  · rintro code times rfl
    cases h
  · exact absurd hloses (hpart k part revents r a e hev hturn hr).1

def itemA : StorageItem × Routed :=
  ({ key := ascii "a", flags := 0, val := ascii "1", val_lt := by decide },
    { tried := [(0, ⟨0, some 5⟩)], conn := some 0 })

def itemBlank : StorageItem × Routed :=
  ({ key := ascii " ", flags := 0, val := [], val_lt := by decide }, { conn := none })

theorem exists_clientSet (items : List (StorageItem × Routed))
    (hroutes : (Request.storage ⟨.set, by decide⟩ 0 true items).RoutesLive (.init 1))
    (hexec : (PollLoop.execsIf (fun s ev s' => sendsOnly s ev s' = true)
      ((Request.storage ⟨.set, by decide⟩ 0 true items).dispatch (.init 1)).startPoll
      [.report [{ out := true }], .part { room := some 100 }, .part { room := some 100 },
        .part { room := some 100 }, .part { room := some 100 }, .nextRound, .leave]).map
      (fun s => (s.progress, s.retCode)) = some (.finished, .ok))
    (hactive : ((Request.storage ⟨.set, by decide⟩ 0 true items).dispatch
      (.init 1)).activeConns.length = 1) :
    ∃ x p', ClientSet soundRuns 0 true (.init 1) x.given x ⟨.ok, x.results⟩ p' ∧ x.items = items ∧
      x.Succeeded := by
  obtain ⟨s, hs, hpair⟩ := Option.map_eq_some_iff.1 hexec
  obtain ⟨hfinished, hcode⟩ := Prod.mk.inj hpair
  have hwait : ((Request.storage ⟨.set, by decide⟩ 0 true items).dispatch (.init 1)).WaitPoll
      soundRuns.step s.retCode s.pool := by
    refine .run ?_ ((PollLoop.steps_of_execsIf hs).mono soundRuns_of_sendsOnly) (.inl hfinished)
    rw [(Request.dispatch_active (.init 1 : Reachable {} _).clean _).2, hactive]
    decide
  rw [hcode] at hwait
  exact ⟨⟨0, true, items, .init 1, .ok, s.pool⟩, _,
    .call rfl rfl rfl ⟨hroutes, hactive.trans_lt (by decide)⟩ hwait, rfl, rfl, .inl rfl⟩

/-- A client without replies, on a new connection, stores one item. -/
theorem setMulti_stored_one : ∃ tr p',
    Session.Runs (ClientSet soundRuns 0 true)
      (setMulti plainCodecs { noreply := true } [(ascii "a", .bytes (ascii "1"))] false)
      (.init 1) tr true p' ∧
    Stored plainCodecs { noreply := true } false [(ascii "a", .bytes (ascii "1"))] tr := by
  obtain ⟨x, p', hcall, hitems, -⟩ := exists_clientSet [itemA]
    ⟨fun _ i hi => by cases hi; exact ⟨_, rfl, rfl⟩, trivial⟩ (by decide +kernel) (by decide)
  have hgiven : x.given = [(ascii "a", flagEmpty, ascii "1")] := by
    unfold SetCall.given
    rw [hitems]
    rfl
  rw [hgiven] at hcall
  have hruns : Session.Runs (ClientSet soundRuns 0 true)
      (setMulti plainCodecs { noreply := true } [(ascii "a", .bytes (ascii "1"))] false)
      (.init 1) [x] true p' := .call hcall (.ret _ _)
  refine ⟨[x], p', hruns, (setMulti_stored_iff plainCodecs { noreply := true } _ false 0
    (.init 1) hruns).2 ⟨.inr fun y hy => ?_, fun entry hentry v flags henc hcut => ?_⟩⟩
  swap
  · obtain rfl := List.mem_singleton.1 hentry
    obtain ⟨rfl, -⟩ := Prod.mk.inj (Option.some.inj henc)
    exact absurd hcut.2.1 (by decide)
  obtain rfl := List.mem_singleton.1 hy
  intro item hitem
  rw [hitems] at hitem
  obtain rfl := List.mem_singleton.1 hitem
  exact ⟨by decide, nofun⟩

/-- Besides an item that is sent there is one whose key is a space. It is not sent, and `set_multi`
returns `True`. -/
theorem setMulti_not_stored : ¬ ∀ (c : Codecs Empty) (cl : PyClient)
    (dct : List (Bytes × PyObject Empty)) (compress : Bool) (time : Int64) (p p' : ConnectionPool)
    (tr : List SetCall), Reachable {} p →
      Session.Runs (ClientSet soundRuns time cl.noreply) (setMulti c cl dct compress) p tr true p' →
        Stored c cl compress dct tr := by
  intro h
  obtain ⟨x, p', hcall, hitems, hsucceeded⟩ := exists_clientSet [itemA, itemBlank]
    ⟨fun _ i hi => by cases hi; exact ⟨_, rfl, rfl⟩, ⟨fun hkey => (by cases hkey), trivial⟩⟩
    (by decide +kernel) (by decide)
  have hgiven : x.given = [(ascii "a", flagEmpty, ascii "1"), (ascii " ", flagEmpty, [])] := by
    unfold SetCall.given
    rw [hitems]
    rfl
  rw [hgiven] at hcall
  have hruns : Session.Runs (ClientSet soundRuns 0 true)
      (setMulti plainCodecs { noreply := true }
        [(ascii "a", .bytes (ascii "1")), (ascii " ", .bytes [])] false)
      (.init 1) [x] true p' := .call hcall (.ret _ _)
  have hstored := h plainCodecs { noreply := true } _ false 0 _ _ _ (.init 1) hruns
  have haccepted := (hcall.succeeded (.init 1) hsucceeded).1.1
    (hstored.delivered x (List.mem_singleton_self x))
  have hvalid := (haccepted itemBlank (by rw [hitems]; simp)).1
  cases hvalid

end PyCalls

end PyClient

end Libmc
