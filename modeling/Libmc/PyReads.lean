import Libmc.PySetMulti

/-!
# Ways of reading

`get`, `gets` and `get_multi` of `_client.pyx` each read the number of the chunks of a large value
on their own. `get` decodes the text and strips its `NUL`s. `gets` strips the `bytes` with a `str`,
which is a `TypeError`, so it raises for each value in chunks. `get_multi` does not strip anything.
So the three agree on a key exactly if its value is not in chunks, or `get` raises too
(`reads_agree_iff`), and `get_multi` alone also where there is nothing to strip
(`getMulti_agrees_iff`).
-/

namespace Libmc

/-! ### Python strings -/

/-- A `bytes`, or a `str` whose characters are below 256. -/
inductive PyString
  | bytes (val : Bytes)
  | str (val : Bytes)
  deriving DecidableEq, Repr

namespace PyString

/-- `decode('ascii')`; a `str` has no such method. -/
def decodeAscii : PyString → Option PyString
  | bytes val => (Libmc.decodeAscii val).map str
  | str _ => none

/-- `strip('\\0')`; `bytes.strip` does not take a `str`. -/
def stripNul : PyString → Option PyString
  | bytes _ => none
  | str val => some (str (PyClient.stripNul val))

/-- `int`, as a C `int`. -/
def toInt {Obj : Type} (c : Codecs Obj) : PyString → Option ℤ
  | bytes val | str val => (c.toInt val).filter fun n => -2 ^ 31 ≤ n ∧ n < 2 ^ 31

end PyString

/-- A single command to the servers, with `gets`. -/
inductive ReadCmd
  | store (cmd : StoreCmd)
  | gets (key : Bytes)
  deriving DecidableEq, Repr

/-- What comes of a command; a `gets` gives the flags, the value and the `cas_unique`. -/
def ReadReply : ReadCmd → Type
  | .store cmd => StoreReply cmd
  | .gets _ => Option (UInt32 × Bytes × UInt64)

abbrev PyReads (α : Type) := Session ReadCmd ReadReply α

namespace PyClient

/-- A run without `gets`. -/
def lift {α : Type} (p : Py α) : PyReads α := Session.mapCall ReadCmd.store p

section Values

variable {Obj : Type} (c : Codecs Obj) (cl : PyClient)

/-- `int(py_value.decode('ascii').strip('\\0'))` of `get_raw`. -/
def getSplits (val : Bytes) : Option ℤ := do
  let text ← (PyString.bytes val).decodeAscii
  let text ← text.stripNul
  text.toInt c

/-- `int(py_value.strip('\\0'))` of `gets`. -/
def getsSplits (val : Bytes) : Option ℤ := do
  let text ← (PyString.bytes val).stripNul
  text.toInt c

/-- `int(raw_bytes.decode('ascii'))` of `get_multi`. -/
def getMultiSplits (val : Bytes) : Option ℤ := do
  let text ← (PyString.bytes val).decodeAscii
  text.toInt c

/-- The value of a record: itself, or its chunks. -/
def readRecord (splits : Bytes → Option ℤ) (key2 : Bytes) (flags : UInt32) (val : Bytes) :
    Py (Option Bytes × UInt32) :=
  if cl.doSplit && hasFlag flags flagDoubanChunked then do
    let n ← Session.ofOption (splits val)
    getLargeRaw key2 n flags
  else return (some val, flags)

/-- `gets`, with the value and the `cas_unique`; `none` is `None`. -/
def gets (key : Bytes) : PyReads (Option (Option (PyObject Obj) × UInt64)) := do
  let key2 ← lift (cl.normalizeKey key)
  let r ← (Session.send (ReadCmd.gets key2) : PyReads (Option (UInt32 × Bytes × UInt64)))
  match r with
  | none => return none
  | some (flags, val, casUnique) =>
    let (val, flags) ← lift (cl.readRecord (getsSplits c) key2 flags val)
    match val with
    | none => return none
    | some val =>
      let obj ← Session.ofOption (decodeValue c val flags)
      return some (obj, casUnique)

/-- The loop of `get_multi`. The dictionary has an entry for each key that was found; it may be
`None`. -/
def getMultiLoop (multiRaw : List (Bytes × UInt32 × Bytes)) : List (Bytes × Bytes) →
    (Bytes → Option (Option (PyObject Obj))) → Py (Bytes → Option (Option (PyObject Obj)))
  | [], dct => return dct
  | (key, key2) :: keys, dct =>
    match multiRaw.lookup key2 with
    | none => getMultiLoop multiRaw keys dct
    | some (flags, rawBytes) => do
      let (rawBytes, flags) ← cl.readRecord (getMultiSplits c) key2 flags rawBytes
      match rawBytes with
      | none => getMultiLoop multiRaw keys dct
      | some rawBytes =>
        let obj ← Session.ofOption (decodeValue c rawBytes flags)
        getMultiLoop multiRaw keys (Function.update dct key (some obj))

/-- `get_multi`. -/
def getMulti (keys : List Bytes) : Py (Bytes → Option (Option (PyObject Obj))) := do
  let normalizedKeys ← Session.each cl.normalizeKey keys
  let multiRaw ← getMultiRaw normalizedKeys
  getMultiLoop c cl multiRaw (keys.zip normalizedKeys) fun _ => none

end Values

/-! ### What is read -/

/-- The record that a `get` finds. -/
def find (s : Store) (key : Bytes) : Option (UInt32 × Bytes) :=
  if isValidKey key then s key else none

/-- The chunks, put together, if all of them are there. -/
def findChunks (s : Store) (key : Bytes) (n : ℕ) : Option Bytes :=
  (((List.range n).map (chunkKey key)).mapM (find s)).map fun records =>
    (records.map (·.2)).flatten

/-- The store of one writer, whose items have numbers. -/
def casServer (cas : Bytes → UInt64) (s : Store) : (cmd : ReadCmd) → ReadReply cmd × Store
  | .store cmd => idealServer s cmd
  | .gets key => ((find s key).map fun (flags, val) => (flags, val, cas key), s)

section Outcomes

variable {Obj : Type} (c : Codecs Obj) (cl : PyClient) (s : Store) (key : Bytes)

/-- What `get(key)` returns; the inner `none` is `None`, the outer one an exception. -/
def getReturns : Option (Option (PyObject Obj)) := (Session.exec idealServer (cl.get c key) s).1

/-- The value part of `gets(key)`. -/
def getsReturns (cas : Bytes → UInt64) : Option (Option (PyObject Obj)) :=
  (Session.exec (casServer cas) (gets c cl key) s).1.map fun rv => rv.bind (·.1)

/-- What `get_multi([key]).get(key)` returns. -/
def getMultiReturns : Option (Option (PyObject Obj)) :=
  (Session.exec idealServer (getMulti c cl [key]) s).1.map fun dct => (dct key).join

/-- Where `get` does not raise, the other ways of reading return the same object. -/
def ReadsAgree (cas : Bytes → UInt64) : Prop :=
  ∀ obj ∈ getReturns c cl s key, getsReturns c cl s key cas = some obj ∧
    getMultiReturns c cl s key = some obj

/-- A number of chunks that `get` can read, of which it cannot make an object. -/
def Raises (flags : UInt32) (n : ℤ) : Prop :=
  n ≤ 10 ∧ key.length ≤ 200 ∧ (n < 0 ∨
    ∃ val, findChunks s key n.toNat = some val ∧
      decodeValue c val (flags &&& ~~~flagDoubanChunked) = none)

end Outcomes

/-! ### Reading never writes -/

variable {Obj : Type} {c : Codecs Obj} {cl : PyClient} {s : Store} {key key2 val : Bytes}
  {flags : UInt32} {n : ℤ}

theorem getSplits_eq (c : Codecs Obj) (val : Bytes) : getSplits c val = parseSplits c val := by
  unfold getSplits parseSplits PyString.decodeAscii
  dsimp only
  cases decodeAscii val <;> rfl

theorem getsSplits_eq (c : Codecs Obj) (val : Bytes) : getsSplits c val = none := rfl

theorem exec_lift {α : Type} (cas : Bytes → UInt64) (p : Py α) (s : Store) :
    Session.exec (casServer cas) (lift p) s = Session.exec idealServer p s :=
  Session.exec_mapCall (casServer cas) ReadCmd.store p s

theorem exec_sendGet (key : Bytes) (s : Store) :
    Session.exec idealServer (sendGet key) s = (some (find s key), s) := rfl

theorem filterMap_zip_map (f : Bytes → Option (UInt32 × Bytes)) (keys : List Bytes) :
    ((keys.zip (keys.map f)).filterMap fun e => e.2.map (e.1, ·)) =
      keys.filterMap fun key => (f key).map (key, ·) := by
  induction keys with
  | nil => rfl
  | cons key keys ih =>
    rw [List.map_cons, List.zip_cons_cons, List.filterMap_cons, List.filterMap_cons, ih]

theorem exec_getMultiRaw {keys : List Bytes} (hkeys : keys.Nodup) (s : Store) :
    Session.exec idealServer (getMultiRaw keys) s =
      (some (keys.filterMap fun key => (find s key).map (key, ·)), s) := by
  unfold getMultiRaw
  rw [Session.exec_bind_some (exec_each_sendGet keys s), Session.exec_pure,
    collect_zip hkeys (by simp), List.nil_append, filterMap_zip_map]
  rfl

/-- If something is found for each key, it is found in the order of the keys. -/
theorem filterMap_eq_zip {f : Bytes → Option (UInt32 × Bytes)} {keys : List Bytes}
    {records : List (UInt32 × Bytes)} (h : keys.mapM f = some records) :
    (keys.filterMap fun key => (f key).map (key, ·)) = keys.zip records ∧
      records.length = keys.length := by
  induction keys generalizing records with
  | nil =>
    obtain rfl := Option.some.inj h
    exact ⟨rfl, rfl⟩
  | cons key keys ih =>
    rw [List.mapM_cons] at h
    obtain ⟨record, hrecord, hrest⟩ := Option.bind_eq_some_iff.1 h
    obtain ⟨records', hrecords, heq⟩ := Option.bind_eq_some_iff.1 hrest
    obtain rfl := Option.some.inj heq
    obtain ⟨hzip, hlength⟩ := ih hrecords
    refine ⟨?_, congrArg (· + 1) hlength⟩
    rw [List.filterMap_cons, hrecord, hzip]
    rfl

theorem length_filterMap_lt {f : Bytes → Option (UInt32 × Bytes)} {keys : List Bytes}
    (h : keys.mapM f = none) :
    (keys.filterMap fun key => (f key).map (key, ·)).length < keys.length := by
  induction keys with
  | nil => cases h
  | cons key keys ih =>
    rw [List.mapM_cons] at h
    rcases hkey : f key with _ | record
    · rw [List.filterMap_cons, hkey]
      exact Nat.lt_succ_of_le (List.length_filterMap_le ..)
    · rw [hkey] at h
      rcases hrest : keys.mapM f with _ | records
      · rw [List.filterMap_cons, hkey]
        exact Nat.succ_lt_succ (ih hrest)
      · rw [hrest] at h
        cases h

/-- What `_get_large_raw` returns. -/
def largeRaw (s : Store) (key : Bytes) (n : ℤ) (flags : UInt32) :
    Option (Option Bytes × UInt32) :=
  if 10 < n ∨ 200 < key.length then some (none, 0)
  else if n < 0 then none
  else
    match findChunks s key n.toNat with
    | none => some (none, 0)
    | some val => some (some val, flags &&& ~~~flagDoubanChunked)

theorem exec_getLargeRaw (s : Store) (key : Bytes) (n : ℤ) (flags : UInt32) :
    Session.exec idealServer (getLargeRaw key n flags) s = (largeRaw s key n flags, s) := by
  unfold getLargeRaw largeRaw
  split_ifs with hlimit hneg
  · rfl
  · rfl
  · have hkeys := chunkKeys_nodup key n.toNat
    have hlength : (((List.range n.toNat).map (chunkKey key)).length : ℤ) = n := by
      rw [List.length_map, List.length_range]
      omega
    rw [Session.exec_bind_some (exec_getMultiRaw hkeys s)]
    unfold findChunks
    generalize (List.range n.toNat).map (chunkKey key) = keys at hkeys hlength
    rcases hfind : keys.mapM (find s) with _ | records
    · have hless := length_filterMap_lt hfind
      rw [if_pos (by omega)]
      rfl
    · obtain ⟨hzip, hrecords⟩ := filterMap_eq_zip hfind
      have hall : ((keys.zip records).length : ℤ) = n := by
        rw [List.length_zip, hrecords, min_self]
        exact hlength
      rw [hzip, if_neg (not_not.2 hall), flatMap_lookup hkeys hrecords]
      rfl

/-! ### What each way returns -/

/-- The raw value of a record, by the text that is taken for the number of its chunks. -/
def rawReturns (cl : PyClient) (s : Store) (splits : Bytes → Option ℤ) (key2 : Bytes)
    (flags : UInt32) (val : Bytes) : Option (Option Bytes × UInt32) :=
  if cl.doSplit && hasFlag flags flagDoubanChunked then
    (splits val).bind fun n => largeRaw s key2 n flags
  else some (some val, flags)

/-- The object of a raw value; no value is `None`. -/
def objectReturns (c : Codecs Obj) : Option Bytes × UInt32 → Option (Option (PyObject Obj))
  | (none, _) => some none
  | (some val, flags) => decodeValue c val flags

def reads (c : Codecs Obj) (cl : PyClient) (s : Store) (splits : Bytes → Option ℤ) (key : Bytes) :
    Option (Option (PyObject Obj)) :=
  (cl.normalKey key).bind fun key2 =>
    match find s key2 with
    | none => some none
    | some (flags, val) => (rawReturns cl s splits key2 flags val).bind (objectReturns c)

theorem exec_readRecord (cl : PyClient) (splits : Bytes → Option ℤ) (key2 : Bytes) (flags : UInt32)
    (val : Bytes) (s : Store) :
    Session.exec idealServer (cl.readRecord splits key2 flags val) s =
      (rawReturns cl s splits key2 flags val, s) := by
  unfold readRecord rawReturns
  split_ifs
  · exact Session.exec_bind_same (Session.exec_ofOption _ s) fun n =>
      exec_getLargeRaw s key2 n flags
  · rfl

theorem exec_normalizeKey (cl : PyClient) (key : Bytes) (s : Store) :
    Session.exec idealServer (cl.normalizeKey key) s = (cl.normalKey key, s) := by
  rw [normalizeKey_eq]
  exact Session.exec_ofOption _ s

theorem exec_getRaw (c : Codecs Obj) (cl : PyClient) (key : Bytes) (s : Store) :
    Session.exec idealServer (cl.getRaw c key) s = ((cl.normalKey key).bind fun key2 =>
      match find s key2 with
      | none => some (none, 0)
      | some (flags, val) => rawReturns cl s (getSplits c) key2 flags val, s) := by
  refine Session.exec_bind_same (exec_normalizeKey cl key s) fun key2 => ?_
  rw [Session.exec_bind_some (exec_sendGet key2 s)]
  rcases find s key2 with _ | ⟨flags, val⟩
  · rfl
  · have hsplits : getSplits c = parseSplits c := funext (getSplits_eq c)
    rw [hsplits]
    exact exec_readRecord cl (parseSplits c) key2 flags val s

theorem getReturns_eq (c : Codecs Obj) (cl : PyClient) (s : Store) (key : Bytes) :
    getReturns c cl s key = reads c cl s (getSplits c) key := by
  have hget : Session.exec idealServer (cl.get c key) s = (_, s) :=
    Session.exec_bind_same (g := objectReturns c) (exec_getRaw c cl key s) fun x => by
      rcases x with ⟨_ | val, flags⟩
      · rfl
      · exact Session.exec_ofOption _ s
  unfold getReturns reads
  rw [hget]
  rcases cl.normalKey key with _ | key2
  · rfl
  · dsimp only [Option.bind_some]
    rcases find s key2 with _ | ⟨flags, val⟩ <;> rfl

theorem getsReturns_eq (c : Codecs Obj) (cl : PyClient) (s : Store) (key : Bytes)
    (cas : Bytes → UInt64) : getsReturns c cl s key cas = reads c cl s (getsSplits c) key := by
  unfold getsReturns reads gets
  rw [Session.exec_bind, exec_lift, exec_normalizeKey]
  rcases cl.normalKey key with _ | key2
  · rfl
  · dsimp only [Option.bind_some]
    have hsend : Session.exec (casServer cas)
        (Session.send (ReadCmd.gets key2) : PyReads (Option (UInt32 × Bytes × UInt64))) s =
          (some ((find s key2).map fun (flags, val) => (flags, val, cas key2)), s) := rfl
    rw [Session.exec_bind_some hsend]
    rcases find s key2 with _ | ⟨flags, val⟩
    · rfl
    · dsimp only [Option.map_some]
      rw [Session.exec_bind, exec_lift, exec_readRecord]
      rcases rawReturns cl s (getsSplits c) key2 flags val with _ | ⟨_ | val, flags⟩
      · rfl
      · rfl
      · show (Session.exec (casServer cas) (Session.ofOption (decodeValue c val flags) >>= _)
          s).1.map _ = decodeValue c val flags
        rw [Session.exec_bind, Session.exec_ofOption]
        cases decodeValue c val flags <;> rfl

theorem getMultiReturns_eq (c : Codecs Obj) (cl : PyClient) (s : Store) (key : Bytes) :
    getMultiReturns c cl s key = reads c cl s (getMultiSplits c) key := by
  unfold getMultiReturns reads getMulti Session.each
  rw [Session.exec_bind, Session.exec_bind, exec_normalizeKey]
  rcases cl.normalKey key with _ | key2
  · rfl
  · dsimp only [Option.bind_some]
    show (Session.exec idealServer (getMultiRaw [key2] >>= _) s).1.map _ = _
    rw [Session.exec_bind_some (exec_getMultiRaw (List.nodup_singleton key2) s)]
    have hone : ([key2].filterMap fun key => (find s key).map (key, ·)) =
        ((find s key2).map (key2, ·)).toList := by
      cases hfind : find s key2 <;> simp [hfind]
    rw [hone]
    rcases find s key2 with _ | ⟨flags, val⟩
    · simp [getMultiLoop]
    · show (Session.exec idealServer (getMultiLoop c cl [(key2, flags, val)] [(key, key2)] _)
        s).1.map _ = _
      unfold getMultiLoop
      rw [List.lookup_cons, beq_self_eq_true]
      dsimp only
      rw [Session.exec_bind, exec_readRecord]
      rcases rawReturns cl s (getMultiSplits c) key2 flags val with _ | ⟨_ | val, flags⟩
      · rfl
      · rfl
      · show (Session.exec idealServer (Session.ofOption (decodeValue c val flags) >>= _) s).1.map _
          = decodeValue c val flags
        rw [Session.exec_bind, Session.exec_ofOption]
        cases decodeValue c val flags with
        | none => rfl
        | some obj =>
          show some ((Function.update (fun _ => none) key (some obj) key).join) = _
          rw [Function.update_self]
          rfl

/-! ### When they agree -/

/-- What is stored under a key is a value in chunks, for the client that reads it. -/
structure InChunks (cl : PyClient) (s : Store) (key key2 : Bytes) (flags : UInt32) (val : Bytes) :
    Prop where
  normal : cl.normalKey key = some key2
  found : find s key2 = some (flags, val)
  split : cl.doSplit = true
  chunked : hasFlag flags flagDoubanChunked = true

theorem InChunks.reads_eq (h : InChunks cl s key key2 flags val) (c : Codecs Obj)
    (splits : Bytes → Option ℤ) : reads c cl s splits key =
      (splits val).bind fun n => (largeRaw s key2 n flags).bind (objectReturns c) := by
  unfold reads rawReturns
  rw [h.normal, Option.bind_some, h.found]
  dsimp only
  rw [h.split, h.chunked, Bool.and_self, if_pos rfl, Option.bind_assoc]

/-- The text is looked at for values in chunks only. -/
theorem reads_congr (h : ∀ key2 flags val, ¬ InChunks cl s key key2 flags val)
    (splits splits' : Bytes → Option ℤ) : reads c cl s splits key = reads c cl s splits' key := by
  unfold reads
  rcases hkey : cl.normalKey key with _ | key2
  · rfl
  · rw [Option.bind_some, Option.bind_some]
    rcases hfind : find s key2 with _ | ⟨flags, val⟩
    · rfl
    · have hplain : ¬ (cl.doSplit && hasFlag flags flagDoubanChunked) = true := fun hboth => by
        obtain ⟨hsplit, hchunked⟩ := Bool.and_eq_true_iff.1 hboth
        exact h key2 flags val ⟨hkey, hfind, hsplit, hchunked⟩
      unfold rawReturns
      dsimp only
      rw [if_neg hplain, if_neg hplain]

/-- Reading a large value raises exactly if the number is negative or its chunks make no object. -/
theorem largeRaw_raises (c : Codecs Obj) (s : Store) (key : Bytes) (flags : UInt32) (n : ℤ) :
    (largeRaw s key n flags).bind (objectReturns c) = none ↔ Raises c s key flags n := by
  unfold largeRaw Raises
  split_ifs with hlimit hneg
  · refine iff_of_false nofun fun h => ?_
    omega
  · exact iff_of_true rfl ⟨by omega, by omega, .inl hneg⟩
  · have hfits : n ≤ 10 ∧ key.length ≤ 200 := by omega
    rcases findChunks s key n.toNat with _ | val
    · refine iff_of_false nofun ?_
      rintro ⟨-, -, hn | ⟨val, hval, -⟩⟩
      · exact hneg hn
      · cases hval
    · simp [objectReturns, hfits, hneg]

theorem InChunks.reads_eq_none (h : InChunks cl s key key2 flags val)
    (hraises : ∀ n ∈ getSplits c val, Raises c s key2 flags n) :
    reads c cl s (getSplits c) key = none := by
  rw [h.reads_eq]
  refine Option.bind_eq_none_iff.2 fun n hn => ?_
  exact (largeRaw_raises c s key2 flags n).2 (hraises n hn)

/-- Another way of reading that cannot make a number of the text agrees with `get` only if `get`
raises as well. -/
theorem InChunks.raises (h : InChunks cl s key key2 flags val) {splits : Bytes → Option ℤ}
    (hsplits : splits val = none)
    (hagree : ∀ obj ∈ reads c cl s (getSplits c) key, reads c cl s splits key = some obj) :
    ∀ n ∈ getSplits c val, Raises c s key2 flags n := by
  intro n hn
  rw [← largeRaw_raises]
  by_contra hreturns
  obtain ⟨obj, hobj⟩ := Option.ne_none_iff_exists'.1 hreturns
  have hget : reads c cl s (getSplits c) key = some obj := by
    rw [h.reads_eq, hn]
    exact hobj
  have hother := hagree obj hget
  rw [h.reads_eq, hsplits] at hother
  cases hother

/-- **The ways of reading agree** on a key exactly if its value is not in chunks, or `get` raises:
the text is no number of chunks, or a negative one, or the chunks are there and cannot be
decoded. -/
theorem reads_agree_iff (c : Codecs Obj) (cl : PyClient) (s : Store) (key : Bytes)
    (cas : Bytes → UInt64) : ReadsAgree c cl s key cas ↔
      ∀ key2 flags val, InChunks cl s key key2 flags val →
        ∀ n ∈ getSplits c val, Raises c s key2 flags n := by
  unfold ReadsAgree
  rw [getReturns_eq, getsReturns_eq, getMultiReturns_eq]
  constructor
  · intro h key2 flags val hchunks
    exact hchunks.raises (getsSplits_eq c val) fun obj hobj => (h obj hobj).1
  · intro h obj hobj
    have hplain : ∀ key2 flags val, ¬ InChunks cl s key key2 flags val := by
      intro key2 flags val hchunks
      rw [hchunks.reads_eq_none (h key2 flags val hchunks)] at hobj
      cases hobj
    rw [reads_congr hplain (getsSplits c) (getSplits c),
      reads_congr hplain (getMultiSplits c) (getSplits c)]
    exact ⟨hobj, hobj⟩

/-- The stores that `set` and `set_raw` leave. -/
inductive Left (c : Codecs Obj) (cl : PyClient) : Store → Prop
  | empty : Left c cl fun _ => none
  | set {s : Store} (hs : Left c cl s) (key : Bytes) (val : PyObject Obj) (compress : Bool) :
      Left c cl (Session.exec idealServer (cl.set c key val compress) s).2
  | setRaw {s : Store} (hs : Left c cl s) (key val : Bytes) (flags : UInt32) :
      Left c cl (Session.exec idealServer (cl.setRaw key val flags) s).2

/-- A value in one chunk, which `get` returns. `gets` raises. -/
theorem reads_disagree : ¬ ∀ (c : Codecs Empty) (cl : PyClient) (s : Store) (key : Bytes)
    (cas : Bytes → UInt64), c.Lawful → Left c cl s → isValidKey key = true →
      ReadsAgree c cl s key cas := by
  intro h
  have hleft : Left plainCodecs {} _ :=
    (Left.empty.setRaw (ascii "~1k/0") (ascii "v") 0).setRaw (ascii "k") (ascii "1")
      flagDoubanChunked
  have hagree := h plainCodecs {} _ (ascii "k") (fun _ => 0) plainCodecs_lawful hleft (by decide)
  obtain ⟨hgets, -⟩ := hagree (some (.bytes (ascii "v"))) (by decide +kernel)
  cases hgets

/-! ### `get_multi` -/

theorem getMultiSplits_of_stripped (c : Codecs Obj) (h : stripNul val = val) :
    getMultiSplits c val = getSplits c val := by
  unfold getMultiSplits getSplits PyString.decodeAscii Libmc.decodeAscii
  dsimp only
  split_ifs
  · show PyString.toInt c (.str val) = PyString.toInt c (.str (stripNul val))
    rw [h]
  · rfl

theorem getMultiSplits_of_padded (hc : ∀ text : Bytes, 0 ∈ text → c.toInt text = none)
    (h : stripNul val ≠ val) : getMultiSplits c val = none := by
  have hzero : 0 ∈ val := by
    by_contra hnone
    exact h (stripNul_of_forall_ne fun x hx hx0 => hnone (hx0 ▸ hx))
  unfold getMultiSplits PyString.decodeAscii Libmc.decodeAscii
  dsimp only
  split_ifs
  · show (c.toInt val).filter _ = none
    rw [hc val hzero]
    rfl
  · rfl

/-- `get_multi` alone. It agrees with `get` also where there is nothing to strip. -/
theorem getMulti_agrees_iff (hc : ∀ text : Bytes, 0 ∈ text → c.toInt text = none) (cl : PyClient)
    (s : Store) (key : Bytes) :
    (∀ obj ∈ getReturns c cl s key, getMultiReturns c cl s key = some obj) ↔
      ∀ key2 flags val, InChunks cl s key key2 flags val → stripNul val = val ∨
        ∀ n ∈ getSplits c val, Raises c s key2 flags n := by
  rw [getReturns_eq, getMultiReturns_eq]
  constructor
  · intro h key2 flags val hchunks
    refine or_iff_not_imp_left.2 fun hpadded => ?_
    exact hchunks.raises (getMultiSplits_of_padded hc hpadded) h
  · intro h obj hobj
    by_cases hchunks : ∃ key2 flags val, InChunks cl s key key2 flags val
    · obtain ⟨key2, flags, val, hchunks⟩ := hchunks
      rcases h key2 flags val hchunks with hstripped | hraises
      · rw [hchunks.reads_eq] at hobj ⊢
        rw [getMultiSplits_of_stripped c hstripped]
        exact hobj
      · rw [hchunks.reads_eq_none hraises] at hobj
        cases hobj
    · have hplain : ∀ key2 flags val, ¬ InChunks cl s key key2 flags val :=
        fun key2 flags val hc => hchunks ⟨key2, flags, val, hc⟩
      rw [reads_congr hplain (getMultiSplits c) (getSplits c)]
      exact hobj

/-- A text that is padded is read by `get`. -/
example :
    let c : Codecs Empty :=
      { plainCodecs with toInt := fun text => if 0 ∈ text then none else plainCodecs.toInt text }
    let s := (Session.exec idealServer (do
      let _ ← setRaw {} (ascii "~1k/0") (ascii "v") 0
      setRaw {} (ascii "k") (ascii "1" ++ [0]) flagDoubanChunked) fun _ => none).2
    getReturns c {} s (ascii "k") = some (some (.bytes (ascii "v"))) ∧
      getMultiReturns c {} s (ascii "k") = none := by
  decide +kernel

end PyClient

end Libmc
