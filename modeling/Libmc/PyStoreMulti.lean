import Libmc.PySetMulti

/-!
# `return_failure`

With `return_failure=True` the Python client returns the keys that have failed besides its flag: the
keys without those that were answered with `STORED`. But the keys are `bytes`, and what is made of
the `char*` of a result is a `str`, which is never equal to a `bytes`. So all keys have failed, and
the flag is `False` if there are any; and a key that is not UTF-8 raises. Without `return_failure`
the messages are only counted. So the two flags are the same exactly if the plain one is `False` or
there are no keys, and the keys that are answered with `STORED` can be decoded
(`return_failure_iff`).
-/

namespace Libmc

namespace PyClient

/-- The commands of `_store_multi_raw`. -/
abbrev MultiOp := { op : OpCode // op ∈ [.set, .append, .prepend] }

/-- A run of the client's code, by its calls of `Client::set`, `Client::append` and
`Client::prepend`. -/
abbrev StoreCalls (α : Type) := Session (MultiOp × List SetItem) (fun _ => SetResult) α

/-- A member of a set of keys. A `bytes` and a `str` are never equal. -/
inductive KeyObject
  | bytes (val : Bytes)
  | str (val : String)
  deriving DecidableEq

namespace StoreCalls

/-! ### Storing -/

/-- `is_succeed`, and `failed_keys` if `return_failure` is on. -/
abbrev Returned := Bool × Option (Multiset KeyObject)

/-- `(is_succeed, failed_keys) if return_failure else is_succeed`. -/
def returned (returnFailure isSucceed : Bool) (failedKeys : Multiset KeyObject) : Returned :=
  (isSucceed, if returnFailure then some failedKeys else none)

/-- The `str` that is made of a `char*` with `c_string_encoding=utf8`. -/
def decodeUtf8 (bs : Bytes) : Option String := String.fromUTF8? ⟨bs.toArray⟩

/-- `succeed_keys`; none if one of them cannot be decoded. -/
def succeedKeys (r : SetResult) : Option (List KeyObject) :=
  (r.results.filter (·.type_ = .stored)).mapM fun m => (decodeUtf8 (m.key.getD [])).map .str

/-- The part of `_store_multi_raw` after its call. -/
def storeMultiResult (cl : PyClient) (keys : List Bytes) (returnFailure : Bool) (r : SetResult) :
    Option Returned :=
  let isSucceed := r.code = .ok && (cl.noreply || r.results.length = keys.length)
  if returnFailure then do
    let succeedKeys ← succeedKeys r
    let failedKeys := (keys.map KeyObject.bytes).toFinset \ succeedKeys.toFinset
    return returned true (isSucceed && failedKeys.card = 0) failedKeys.val
  else some (returned false isSucceed 0)

/-- `_store_multi_raw`. -/
def storeMultiRaw (cl : PyClient) (op : MultiOp) (items : List SetItem) (returnFailure : Bool) :
    StoreCalls Returned := do
  let r ← Session.send (op, items)
  Session.ofOption (storeMultiResult cl (items.map (·.1)) returnFailure r)

/-- `_prepend_or_append_multi`; `none` is `None`. -/
def prependOrAppendMulti (op : MultiOp) (cl : PyClient) (keys : List Bytes) (val : Option Bytes)
    (returnFailure : Bool) : StoreCalls (Option Returned) := do
  let normalizedKeys ← Session.ofOption (keys.mapM cl.normalKey)
  match val with
  | none => return none
  | some val =>
    if cl.doSplit ∧ doubanChunkSize < val.length then return none
    else
      let rv ← storeMultiRaw cl op (normalizedKeys.map fun key => (key, flagEmpty, val))
        returnFailure
      return some rv

/-- `prepend_multi`. -/
def prependMulti := prependOrAppendMulti ⟨.prepend, by decide⟩

/-- `append_multi`. -/
def appendMulti := prependOrAppendMulti ⟨.append, by decide⟩

/-- A call of `Client::set`. -/
def setCall (items : List SetItem) : MultiOp × List SetItem := (⟨.set, by decide⟩, items)

/-- The loop of `set_multi`: a large value is stored at once, the others are put aside. -/
def storeLoop (cl : PyClient) (returnFailure : Bool) : List SetItem → Bool → Multiset KeyObject →
    List SetItem → StoreCalls (Bool × Multiset KeyObject × List SetItem)
  | [], isSucceed, failedKeys, small => return (isSucceed, failedKeys, small)
  | (key, flags, val) :: items, isSucceed, failedKeys, small =>
    if val.length ≤ doubanChunkSize then
      storeLoop cl returnFailure items isSucceed failedKeys (small ++ [(key, flags, val)])
    else do
      let isSingleSucceed ← Session.mapCall setCall (PyCalls.set_ cl key flags val)
      storeLoop cl returnFailure items (isSucceed && isSingleSucceed)
        (if !isSingleSucceed && returnFailure then failedKeys + {.bytes key} else failedKeys) small

/-- `set_multi` of items whose keys are normal and whose values are encoded. -/
def storeItems (cl : PyClient) (items : List SetItem) (returnFailure : Bool) :
    StoreCalls Returned :=
  if !cl.doSplit ∨ items.all (·.2.2.length ≤ doubanChunkSize) then
    storeMultiRaw cl ⟨.set, by decide⟩ items returnFailure
  else do
    let (isSucceed, failedKeys, small) ← storeLoop cl returnFailure items true 0 []
    if small = [] then return returned returnFailure isSucceed failedKeys
    else
      let rv2 ← storeMultiRaw cl ⟨.set, by decide⟩ small returnFailure
      return returned returnFailure (isSucceed && rv2.1) (failedKeys + rv2.2.getD 0)

/-- `set_multi`. -/
def setMulti {Obj : Type} (c : Codecs Obj) (cl : PyClient) (dct : List (Bytes × PyObject Obj))
    (compress returnFailure : Bool) : StoreCalls Returned := do
  let keys ← Session.ofOption (dct.mapM fun x => cl.normalKey x.1)
  let vals := dct.map fun x => encodeValue c x.2 (PyCalls.threshold cl compress)
  if vals.any (·.isNone) then return returned returnFailure false (keys.map KeyObject.bytes)
  else
    storeItems cl (List.zipWith (fun key val => (key, val.2, val.1)) keys vals.reduceOption)
      returnFailure

/-! ### When the flags are the same -/

/-- A value that `set_multi` stores in chunks. -/
def isLarge (cl : PyClient) (item : SetItem) : Bool :=
  cl.doSplit && doubanChunkSize < item.2.2.length

/-- The keys that have been answered with `STORED` can be decoded. -/
def Decodes (r : SetResult) : Prop :=
  ∀ m ∈ r.results, m.type_ = .stored → decodeUtf8 (m.key.getD []) ≠ none

/-- The keys can be decoded, and the call has failed, or there are not as many messages as there
should be, or there are no keys. -/
def FormsAgree (cl : PyClient) (items : List SetItem) (r : SetResult) : Prop :=
  Decodes r ∧
    (r.code ≠ .ok ∨ (cl.noreply = false ∧ r.results.length ≠ items.length) ∨ items = [])

/-- The items of `_prepend_or_append_multi`. -/
def appendItems (cl : PyClient) (keys : List Bytes) (val : Option Bytes) :
    Option (List SetItem) := do
  let normalizedKeys ← keys.mapM cl.normalKey
  let val ← val
  if cl.doSplit ∧ doubanChunkSize < val.length then none
  else return normalizedKeys.map fun key => (key, flagEmpty, val)

section Server

variable {σ : Type} (server : σ → (call : MultiOp × List SetItem) → SetResult × σ)

/-- Whether an item has been stored, as far as the replies tell, and the servers after it. -/
def storeOne (cl : PyClient) (s : σ) (item : SetItem) : Bool × σ :=
  let r := server s (setCall [item])
  (r.1.code = .ok && (cl.noreply || r.1.results.map (·.type_) = [.stored]), r.2)

/-- The same of a large value. -/
def storeLarge (cl : PyClient) (s : σ) (item : SetItem) : Bool × σ :=
  let (key, flags, val) := item
  if cValLen val ≤ doubanChunkSize then storeOne server cl s item
  else if 10 * doubanChunkSize < cValLen val ∨ 200 < key.length then (false, s)
  else
    let n := nSplits (cValLen val).toNat
    let chunks := server s (setCall (chunkItems n key val flags))
    if chunks.1.code = .ok ∧ (cl.noreply ∨ chunks.1.results.length = n) then
      storeOne server cl chunks.2 (key, flags ||| flagDoubanChunked, Decimal.numeral n)
    else (false, chunks.2)

/-- The same of all large values. -/
def storeAll (cl : PyClient) (s : σ) : List SetItem → Bool × σ
  | [] => (true, s)
  | item :: items =>
    let r := storeLarge server cl s item
    let rest := storeAll cl r.2 items
    (r.1 && rest.1, rest.2)

/-- What `set_multi` returns for some items is the same in both forms if there are large values only,
or these have not been stored, or with the last call. -/
def SetFormsAgree (cl : PyClient) (s : σ) (items : List SetItem) : Prop :=
  let large := items.filter (isLarge cl)
  let small := items.filter (!isLarge cl ·)
  let stored := storeAll server cl s large
  let r := (server stored.2 (setCall small)).1
  large ≠ [] ∧ (small = [] ∨ Decodes r ∧ stored.1 = false) ∨ FormsAgree cl small r

end Server

variable {cl : PyClient} {items : List SetItem} {σ : Type}
  (server : σ → (call : MultiOp × List SetItem) → SetResult × σ) {s s' : σ}

/-- The flag that a run of the client's code returns, if it returns. -/
def flagOf (s : σ) (p : StoreCalls Returned) : Option Bool :=
  (Session.exec server p s).1.map (·.1)

/-- The same of a run that may return `None`. -/
def flagOfOption (s : σ) (p : StoreCalls (Option Returned)) : Option (Option Bool) :=
  (Session.exec server p s).1.map (Option.map (·.1))

@[simp] theorem returned_fst (returnFailure isSucceed : Bool) (failedKeys : Multiset KeyObject) :
    (returned returnFailure isSucceed failedKeys).1 = isSucceed := rfl

theorem succeedKeys_ne_none (r : SetResult) : succeedKeys r ≠ none ↔ Decodes r := by
  have hmap : ∀ l : List MessageResult,
      (l.mapM fun m => (decodeUtf8 (m.key.getD [])).map KeyObject.str) ≠ none ↔
        ∀ m ∈ l, decodeUtf8 (m.key.getD []) ≠ none := by
    intro l
    induction l with
    | nil => exact iff_of_true nofun (List.forall_mem_nil _)
    | cons m l ih =>
      rw [List.mapM_cons, List.forall_mem_cons, ← ih]
      rcases decodeUtf8 (m.key.getD []) with _ | text
      · simp
      · rcases l.mapM fun m => (decodeUtf8 (m.key.getD [])).map KeyObject.str with _ | texts <;>
          simp [Option.ne_none_iff_exists']
  unfold succeedKeys Decodes
  rw [hmap]
  simp [List.mem_filter]

/-- No key is in `succeed_keys`. -/
theorem failedKeys_eq {r : SetResult} {l : List KeyObject} (h : succeedKeys r = some l)
    (keys : List Bytes) :
    (keys.map KeyObject.bytes).toFinset \ l.toFinset = (keys.map KeyObject.bytes).toFinset := by
  have hstr : ∀ x ∈ l, ∃ text, x = .str text := by
    unfold succeedKeys at h
    generalize r.results.filter _ = messages at h
    induction messages generalizing l with
    | nil =>
      obtain rfl := Option.some.inj h
      exact List.forall_mem_nil _
    | cons m messages ih =>
      rw [List.mapM_cons] at h
      obtain ⟨x, hx, hrest⟩ := Option.bind_eq_some_iff.1 h
      obtain ⟨xs, hxs, heq⟩ := Option.bind_eq_some_iff.1 hrest
      obtain rfl := Option.some.inj heq
      obtain ⟨text, -, rfl⟩ := Option.map_eq_some_iff.1 hx
      exact List.forall_mem_cons.2 ⟨⟨text, rfl⟩, ih hxs⟩
  refine Finset.sdiff_eq_self_of_disjoint (Finset.disjoint_left.2 fun x hx hl => ?_)
  obtain ⟨key, -, rfl⟩ := List.mem_map.1 (List.mem_toFinset.1 hx)
  obtain ⟨text, htext⟩ := hstr _ (List.mem_toFinset.1 hl)
  cases htext

/-- The flag, if there is one. -/
def flag (cl : PyClient) (items : List SetItem) (returnFailure : Bool) (r : SetResult) :
    Option Bool := (storeMultiResult cl (items.map (·.1)) returnFailure r).map (·.1)

theorem flag_plain (cl : PyClient) (items : List SetItem) (r : SetResult) :
    flag cl items false r =
      some (r.code = .ok && (cl.noreply || r.results.length = items.length)) := by
  unfold flag storeMultiResult
  rw [List.length_map]
  rfl

/-- With `return_failure` it is `False`, if there are any keys. -/
theorem flag_failure (cl : PyClient) (items : List SetItem) (r : SetResult) :
    flag cl items true r = (succeedKeys r).map fun _ =>
      (r.code = .ok && (cl.noreply || r.results.length = items.length)) && decide (items = []) := by
  have hcard : ((items.map (·.1)).map KeyObject.bytes).toFinset.card = 0 ↔ items = [] := by
    rw [Finset.card_eq_zero, List.toFinset_eq_empty_iff, List.map_eq_nil_iff, List.map_eq_nil_iff]
  unfold flag storeMultiResult
  rw [List.length_map, if_pos rfl]
  rcases hkeys : succeedKeys r with _ | l
  · rfl
  · simp only [Option.bind_eq_bind, Option.bind_some, failedKeys_eq hkeys]
    rw [decide_eq_decide.2 hcard]
    rfl

theorem flag_iff (cl : PyClient) (items : List SetItem) (r : SetResult) :
    flag cl items false r = flag cl items true r ↔ FormsAgree cl items r := by
  have hfalse : (r.code = .ok && (cl.noreply || r.results.length = items.length)) = false ↔
      r.code ≠ .ok ∨ (cl.noreply = false ∧ r.results.length ≠ items.length) := by
    rw [Bool.and_eq_false_iff, Bool.or_eq_false_iff, decide_eq_false_iff_not,
      decide_eq_false_iff_not]
  unfold FormsAgree
  rw [flag_plain, flag_failure, ← succeedKeys_ne_none, ← or_assoc, ← hfalse]
  rcases succeedKeys r with _ | l
  · simp
  · by_cases hnil : items = []
    · simp [hnil]
    · simp [hnil]

theorem exec_storeMultiRaw_bind {α : Type} (cl : PyClient) (op : MultiOp) (items : List SetItem)
    (returnFailure : Bool) (f : Returned → α) (s : σ) :
    (Session.exec server (storeMultiRaw cl op items returnFailure >>= fun rv => pure (f rv)) s).1 =
      (storeMultiResult cl (items.map (·.1)) returnFailure (server s (op, items)).1).map f := by
  have hsend : Session.exec server (storeMultiRaw cl op items returnFailure) s =
      (storeMultiResult cl (items.map (·.1)) returnFailure (server s (op, items)).1,
        (server s (op, items)).2) := Session.exec_ofOption _ _
  rw [Session.exec_bind, hsend]
  generalize storeMultiResult cl (items.map (·.1)) returnFailure (server s (op, items)).1 = rv
  cases rv <;> rfl

theorem flagOf_storeMultiRaw (cl : PyClient) (op : MultiOp) (items : List SetItem)
    (returnFailure : Bool) (s : σ) : flagOf server s (storeMultiRaw cl op items returnFailure) =
      flag cl items returnFailure (server s (op, items)).1 := by
  unfold flagOf storeMultiRaw flag
  rw [Session.send_bind]
  show Option.map _ (Session.exec server (Session.ofOption _) _).1 = _
  rw [Session.exec_ofOption]

theorem storeMultiRaw_iff (cl : PyClient) (op : MultiOp) (items : List SetItem) (s : σ) :
    flagOf server s (storeMultiRaw cl op items false) =
      flagOf server s (storeMultiRaw cl op items true) ↔
        FormsAgree cl items (server s (op, items)).1 := by
  rw [flagOf_storeMultiRaw, flagOf_storeMultiRaw]
  exact flag_iff cl items _

/-! ### `set_multi` -/

/-- The servers, for calls of `Client::set`. -/
def setServer (s : σ) (items : List SetItem) : SetResult × σ := server s (setCall items)

/-- The loop is the same in both forms, but for the keys that have failed. -/
theorem exec_storeLoop (cl : PyClient) (returnFailure : Bool) (items : List SetItem)
    (isSucceed : Bool) (failedKeys : Multiset KeyObject) (small : List SetItem) (s : σ) :
    ∃ st t, Session.exec server (storeLoop cl returnFailure items isSucceed failedKeys small) s =
        (st, t) ∧
      Session.exec (setServer server) (PyCalls.storeLoop cl items isSucceed small) s =
        (st.map fun st => (st.1, st.2.2), t) := by
  induction items generalizing isSucceed failedKeys small s with
  | nil => exact ⟨_, _, rfl, rfl⟩
  | cons item items ih =>
    obtain ⟨key, flags, val⟩ := item
    unfold storeLoop PyCalls.storeLoop
    split_ifs with hsmall
    · exact ih isSucceed failedKeys (small ++ [(key, flags, val)]) s
    · have hset : Session.exec server (Session.mapCall setCall (PyCalls.set_ cl key flags val)) s =
          Session.exec (setServer server) (PyCalls.set_ cl key flags val) s :=
        Session.exec_mapCall server setCall _ s
      rw [Session.exec_bind, Session.exec_bind, hset]
      rcases Session.exec (setServer server) (PyCalls.set_ cl key flags val) s with ⟨_ | ok, t⟩
      · exact ⟨none, t, rfl, rfl⟩
      · exact ih (isSucceed && ok) _ small t

theorem length_chunkItems (n : ℕ) (key val : Bytes) (flags : UInt32) :
    (chunkItems n key val flags).length = n := by
  unfold chunkItems
  rw [List.length_map, List.length_range]

theorem exec_storeMultiRaw (cl : PyClient) (items : List SetItem) (s : σ) :
    Session.exec (setServer server) (PyCalls.storeMultiRaw cl items) s =
      (flag cl items false (server s (setCall items)).1, (server s (setCall items)).2) := by
  rw [flag_plain]
  rfl

theorem exec_storeRaw (cl : PyClient) (key val : Bytes) (flags : UInt32) (s : σ) :
    Session.exec (setServer server) (PyCalls.storeRaw cl key flags val) s =
      (some (storeOne server cl s (key, flags, val)).1,
        (storeOne server cl s (key, flags, val)).2) := by
  show (some (decide _ && (cl.noreply || (decide _ && _))), _) = _
  unfold storeOne setServer
  generalize server s (setCall [(key, flags, val)]) = index
  rcases index with ⟨⟨code, _ | ⟨m, _ | ⟨m', results⟩⟩⟩, t⟩ <;> simp

theorem exec_set (hsplit : cl.doSplit = true) (key val : Bytes) (flags : UInt32) (s : σ) :
    Session.exec (setServer server) (PyCalls.set_ cl key flags val) s =
      (some (storeLarge server cl s (key, flags, val)).1,
        (storeLarge server cl s (key, flags, val)).2) := by
  have hsmall : (!cl.doSplit ∨ cValLen val ≤ doubanChunkSize) ↔ cValLen val ≤ doubanChunkSize := by
    rw [hsplit]
    exact or_iff_right Bool.false_ne_true
  unfold PyCalls.set_ storeLarge
  dsimp only
  by_cases hone : cValLen val ≤ doubanChunkSize
  · rw [if_pos (hsmall.2 hone), if_pos hone]
    exact exec_storeRaw server cl key val flags s
  · rw [if_neg (mt hsmall.1 hone), if_neg hone]
    by_cases hlimit : 10 * doubanChunkSize < cValLen val ∨ 200 < key.length
    · rw [if_pos hlimit, if_pos hlimit]
      rfl
    · rw [if_neg hlimit, if_neg hlimit]
      generalize nSplits (cValLen val).toNat = n
      have hchunks := exec_storeMultiRaw server cl (chunkItems n key val flags) s
      rw [flag_plain, length_chunkItems] at hchunks
      rw [Session.exec_bind_some hchunks]
      generalize server s (setCall (chunkItems n key val flags)) = chunks
      by_cases hcounted : chunks.1.code = .ok ∧ (cl.noreply ∨ chunks.1.results.length = n)
      · have htrue : (decide (chunks.1.code = .ok) &&
            (cl.noreply || decide (chunks.1.results.length = n))) = true := by simpa using hcounted
        rw [if_pos hcounted, htrue, if_neg Bool.noConfusion]
        exact exec_storeRaw server cl _ _ _ _
      · have hfalse : (decide (chunks.1.code = .ok) &&
            (cl.noreply || decide (chunks.1.results.length = n))) = false := by
          rw [← Bool.not_eq_true]
          simpa using hcounted
        rw [if_neg hcounted, hfalse, if_pos rfl]
        rfl

theorem storeAll_cons (item : SetItem) (items : List SetItem) (s : σ) :
    storeAll server cl s (item :: items) =
      ((storeLarge server cl s item).1 &&
        (storeAll server cl (storeLarge server cl s item).2 items).1,
        (storeAll server cl (storeLarge server cl s item).2 items).2) := rfl

theorem isLarge_eq (hsplit : cl.doSplit = true) (item : SetItem) :
    isLarge cl item = decide (doubanChunkSize < item.2.2.length) := by
  unfold isLarge
  rw [hsplit, Bool.true_and]

/-- The loop, by induction on the items. -/
theorem exec_storeLoop_eq (hsplit : cl.doSplit = true) (items : List SetItem) (isSucceed : Bool)
    (small : List SetItem) (s : σ) :
    Session.exec (setServer server) (PyCalls.storeLoop cl items isSucceed small) s =
      (some (isSucceed && (storeAll server cl s (items.filter (isLarge cl))).1,
        small ++ items.filter (!isLarge cl ·)),
        (storeAll server cl s (items.filter (isLarge cl))).2) := by
  induction items generalizing isSucceed small s with
  | nil =>
    show (some (isSucceed, small), s) = (some (isSucceed && true, small ++ []), s)
    rw [Bool.and_true, List.append_nil]
  | cons item items ih =>
    obtain ⟨key, flags, val⟩ := item
    unfold PyCalls.storeLoop
    split_ifs with hsmall
    · have hno : isLarge cl (key, flags, val) = false := by
        rw [isLarge_eq hsplit]
        exact decide_eq_false (not_lt.2 hsmall)
      simp [ih, hno]
    · have hlarge : isLarge cl (key, flags, val) = true := by
        rw [isLarge_eq hsplit]
        exact decide_eq_true (not_le.1 hsmall)
      simp only [List.filter_cons, hlarge, Bool.not_true, if_true, Bool.false_eq_true, if_false]
      rw [Session.exec_bind_some (exec_set server hsplit key val flags s), ih, Bool.and_assoc,
        storeAll_cons]

theorem flagOf_storeItems (hlarge : ¬ (!cl.doSplit ∨ items.all (·.2.2.length ≤ doubanChunkSize)))
    (returnFailure : Bool) (s : σ) : flagOf server s (storeItems cl items returnFailure) =
      match Session.exec (setServer server) (PyCalls.storeLoop cl items true []) s with
      | (some (ok, small), t) => if small = [] then some ok else
          (flag cl small returnFailure (server t (setCall small)).1).map (ok && ·)
      | (none, _) => none := by
  obtain ⟨st, t, hloop, hpy⟩ := exec_storeLoop server cl returnFailure items true 0 [] s
  unfold storeItems flagOf
  rw [if_neg hlarge, Session.exec_bind, hloop, hpy]
  rcases st with _ | ⟨ok, failedKeys, small⟩
  · rfl
  · dsimp only [Option.map_some]
    split_ifs with hnone
    · rfl
    · unfold flag
      rw [exec_storeMultiRaw_bind, Option.map_map, Option.map_map]
      rfl

theorem flagOf_storeItems_plain (cl : PyClient) (items : List SetItem) (s : σ) :
    flagOf server s (storeItems cl items false) =
      (Session.exec (setServer server) (PyCalls.storeItems cl items) s).1 := by
  unfold PyCalls.storeItems
  by_cases hall : !cl.doSplit ∨ items.all (·.2.2.length ≤ doubanChunkSize)
  · unfold storeItems
    rw [if_pos hall, if_pos hall, flagOf_storeMultiRaw, exec_storeMultiRaw]
    rfl
  · rw [flagOf_storeItems server hall, if_neg hall, Session.exec_bind]
    rcases Session.exec (setServer server) (PyCalls.storeLoop cl items true []) s with
      ⟨_ | ⟨ok, small⟩, t⟩
    · rfl
    · dsimp only
      split_ifs with hnone
      · rfl
      · have hsend := exec_storeMultiRaw server cl small t
        rw [flag_plain] at hsend ⊢
        rw [Session.exec_bind_some hsend]
        rfl

/-- Without `return_failure` it is `set_multi` as a session of calls of `Client::set`. -/
theorem flagOf_setMulti {Obj : Type} (c : Codecs Obj) (cl : PyClient)
    (dct : List (Bytes × PyObject Obj)) (compress : Bool) (s : σ) :
    flagOf server s (setMulti c cl dct compress false) =
      (Session.exec (setServer server) (PyCalls.setMulti c cl dct compress) s).1 := by
  unfold setMulti PyCalls.setMulti
  rcases hkeys : dct.mapM (fun x => cl.normalKey x.1) with _ | keys
  · rw [hkeys]
    rfl
  · rw [hkeys]
    simp only [Session.ofOption, Session.ret_bind]
    split_ifs with hnone
    · rfl
    · exact flagOf_storeItems_plain server cl _ s

theorem storeItems_iff (cl : PyClient) (items : List SetItem) (s : σ) :
    flagOf server s (storeItems cl items false) = flagOf server s (storeItems cl items true) ↔
      SetFormsAgree server cl s items := by
  unfold SetFormsAgree
  by_cases hall : !cl.doSplit ∨ items.all (·.2.2.length ≤ doubanChunkSize)
  · have hsmall : ∀ item ∈ items, isLarge cl item = false := by
      intro item hitem
      refine Bool.and_eq_false_imp.2 fun hsplit => decide_eq_false (not_lt.2 ?_)
      rcases hall with hno | hall
      · rw [hsplit] at hno
        cases hno
      · exact of_decide_eq_true (List.all_eq_true.1 hall item hitem)
    have hnone : items.filter (isLarge cl) = [] := by
      rw [List.filter_eq_nil_iff]
      exact fun item hitem => by simp [hsmall item hitem]
    have hevery : items.filter (!isLarge cl ·) = items := by
      rw [List.filter_eq_self]
      exact fun item hitem => by simp [hsmall item hitem]
    have hone : ∀ returnFailure, storeItems cl items returnFailure =
        storeMultiRaw cl ⟨.set, by decide⟩ items returnFailure := fun _ => if_pos hall
    rw [hone, hone, storeMultiRaw_iff, hnone, hevery]
    exact (or_iff_right fun h => h.1 rfl).symm
  · have hsplit : cl.doSplit = true := by
      by_contra hno
      exact hall (.inl (by simpa using hno))
    have hlarge : items.filter (isLarge cl) ≠ [] := by
      intro hnone
      refine hall (.inr (List.all_eq_true.2 fun item hitem => decide_eq_true ?_))
      have hno := List.filter_eq_nil_iff.1 hnone item hitem
      rw [isLarge_eq hsplit] at hno
      exact not_lt.1 fun hlt => hno (decide_eq_true hlt)
    rw [flagOf_storeItems server hall, flagOf_storeItems server hall,
      exec_storeLoop_eq server hsplit, List.nil_append, Bool.true_and]
    dsimp only
    rw [and_iff_right hlarge]
    generalize storeAll server cl s (items.filter (isLarge cl)) = stored
    generalize items.filter (!isLarge cl ·) = small
    by_cases hnil : small = []
    · rw [if_pos hnil, if_pos hnil]
      exact iff_of_true rfl (.inl (.inl hnil))
    · rw [if_neg hnil, if_neg hnil, or_iff_right hnil, ← flag_iff]
      have hdecodes := succeedKeys_ne_none (server stored.2 (setCall small)).1
      rw [flag_plain, flag_failure, ← hdecodes]
      cases stored.1 with
      | true =>
        simp
      | false =>
        rcases succeedKeys (server stored.2 (setCall small)).1 with _ | l <;> simp

/-! ### `append_multi` and `prepend_multi` -/

theorem prependOrAppendMulti_eq (op : MultiOp) (cl : PyClient) (keys : List Bytes)
    (val : Option Bytes) (returnFailure : Bool) (s : σ) :
    flagOfOption server s (prependOrAppendMulti op cl keys val returnFailure) =
      (keys.mapM cl.normalKey).bind fun _ =>
        match appendItems cl keys val with
        | none => some none
        | some items => (flag cl items returnFailure (server s (op, items)).1).map some := by
  unfold prependOrAppendMulti appendItems
  rcases keys.mapM cl.normalKey with _ | normalizedKeys
  · rfl
  · rcases val with _ | val
    · rfl
    · simp only [Session.ofOption, Session.ret_bind, Option.bind_eq_bind, Option.bind_some]
      split_ifs with hlarge
      · rfl
      · unfold flagOfOption flag
        rw [exec_storeMultiRaw_bind, Option.map_map]
        show _ = Option.map _ (Option.map _ _)
        rw [Option.map_map]
        rfl

theorem prependOrAppendMulti_iff (op : MultiOp) (cl : PyClient) (keys : List Bytes)
    (val : Option Bytes) (s : σ) :
    flagOfOption server s (prependOrAppendMulti op cl keys val false) =
        flagOfOption server s (prependOrAppendMulti op cl keys val true) ↔
      ∀ items ∈ appendItems cl keys val, FormsAgree cl items (server s (op, items)).1 := by
  rw [prependOrAppendMulti_eq, prependOrAppendMulti_eq]
  rcases hitems : appendItems cl keys val with _ | items
  · exact iff_of_true rfl nofun
  · obtain ⟨normalizedKeys, hkeys, -⟩ := Option.bind_eq_some_iff.1 hitems
    rw [hkeys]
    simp only [Option.bind_some, Option.mem_some_iff, forall_eq', ← flag_iff]
    exact (Option.map_injective (Option.some_injective _)).eq_iff

/-! ### Both forms -/

/-- An entry that becomes an item has a normal key and a value that can be encoded. -/
theorem entries_ne_none {Obj : Type} {c : Codecs Obj} {compress : Bool}
    {dct : List (Bytes × PyObject Obj)}
    (h : List.Forall₂ (fun entry item => PyCalls.entryItem c cl compress entry = some item) dct
      items) :
    dct.mapM (fun x => cl.normalKey x.1) ≠ none ∧
      ∀ x ∈ dct, encodeValue c x.2 (PyCalls.threshold cl compress) ≠ none := by
  induction h with
  | nil => exact ⟨nofun, List.forall_mem_nil _⟩
  | cons hentry _ ih =>
    obtain ⟨key, hkey, hrest⟩ := Option.bind_eq_some_iff.1 hentry
    obtain ⟨enc, henc, -⟩ := Option.bind_eq_some_iff.1 hrest
    obtain ⟨keys, hkeys⟩ := Option.ne_none_iff_exists'.1 ih.1
    refine ⟨?_, List.forall_mem_cons.2 ⟨by rw [henc]; exact nofun, ih.2⟩⟩
    rw [List.mapM_cons, hkey, hkeys]
    exact nofun

theorem setMulti_iff {Obj : Type} (c : Codecs Obj) (cl : PyClient)
    (dct : List (Bytes × PyObject Obj)) (compress : Bool) (s : σ) :
    flagOf server s (setMulti c cl dct compress false) =
        flagOf server s (setMulti c cl dct compress true) ↔
      ∀ items, List.Forall₂ (fun entry item => PyCalls.entryItem c cl compress entry = some item)
        dct items → SetFormsAgree server cl s items := by
  unfold setMulti
  rcases hkeys : dct.mapM (fun x => cl.normalKey x.1) with _ | keys
  · rw [hkeys]
    exact iff_of_true rfl fun items hitems => absurd hkeys (entries_ne_none hitems).1
  · rw [hkeys]
    simp only [Session.ofOption, Session.ret_bind]
    split_ifs with hnone
    · refine iff_of_true rfl fun items hitems => ?_
      obtain ⟨o, ho, hnone⟩ := List.any_eq_true.1 hnone
      obtain ⟨x, hx, rfl⟩ := List.mem_map.1 ho
      exact absurd (Option.isNone_iff_eq_none.1 hnone) ((entries_ne_none hitems).2 x hx)
    · have hvals : ∀ x ∈ dct, encodeValue c x.2 (PyCalls.threshold cl compress) ≠ none :=
        fun x hx henc => hnone (List.any_eq_true.2 ⟨none, List.mem_map.2 ⟨x, hx, henc⟩, rfl⟩)
      have hentries := PyCalls.entries_eq hkeys hvals
      rw [storeItems_iff]
      refine ⟨fun h items hitems => ?_, fun h => h _ hentries⟩
      have hunique : Relator.RightUnique fun entry item =>
        PyCalls.entryItem c cl compress entry = some item := fun _ _ _ h h' =>
          Option.some.inj (h.symm.trans h')
      rw [hunique.forall₂ hitems hentries]
      exact h

/-- **The flag with and without `return_failure`.** For all replies of the servers,
`_store_multi_raw`, `append_multi`, `prepend_multi` and `set_multi` return the same flag in both
forms exactly if the call has failed, or the messages are counted and their number is wrong, or
there are no keys; and with `return_failure` the keys can be decoded. For `set_multi` this is about
the last call, and the flag of this only if the large values before it have been stored. -/
theorem return_failure_iff {σ : Type}
    (server : σ → (call : MultiOp × List SetItem) → SetResult × σ) (cl : PyClient) (s : σ) :
    (∀ op items, flagOf server s (storeMultiRaw cl op items false) =
        flagOf server s (storeMultiRaw cl op items true) ↔
          FormsAgree cl items (server s (op, items)).1) ∧
      (∀ op keys val,
        flagOfOption server s (prependOrAppendMulti op cl keys val false) =
            flagOfOption server s (prependOrAppendMulti op cl keys val true) ↔
          ∀ items ∈ appendItems cl keys val, FormsAgree cl items (server s (op, items)).1) ∧
      ∀ {Obj : Type} (c : Codecs Obj) (dct : List (Bytes × PyObject Obj)) (compress : Bool),
        flagOf server s (setMulti c cl dct compress false) =
            flagOf server s (setMulti c cl dct compress true) ↔
          ∀ items, List.Forall₂
            (fun entry item => PyCalls.entryItem c cl compress entry = some item) dct items →
              SetFormsAgree server cl s items :=
  ⟨fun op items => storeMultiRaw_iff server cl op items s,
    fun op keys val => prependOrAppendMulti_iff server op cl keys val s,
    fun c dct compress => setMulti_iff server c cl dct compress s⟩

/-- A key that has been stored is among those that have failed. -/
theorem return_failure_stored :
    ¬ ∀ (server : Unit → (call : MultiOp × List SetItem) → SetResult × Unit) (cl : PyClient)
      (op : MultiOp) (items : List SetItem), (items.map (·.1)).Nodup →
        (∀ item ∈ items, isValidKey item.1 = true) →
          flagOf server () (storeMultiRaw cl op items false) =
            flagOf server () (storeMultiRaw cl op items true) := by
  intro h
  have hsame := h (fun _ _ => (⟨.ok, [⟨.stored, some (ascii "a")⟩]⟩, ())) {} ⟨.set, by decide⟩
    [(ascii "a", 0, ascii "1")] (by decide) (by decide)
  rcases ((storeMultiRaw_iff _ _ _ _ _).1 hsame).2 with hcode | ⟨-, hlength⟩ | hnil
  · exact hcode rfl
  · exact hlength rfl
  · cases hnil

end StoreCalls

end PyClient

end Libmc
