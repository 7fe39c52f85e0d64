import Mathlib.Data.List.DropRight
import Libmc.Common
import Libmc.Support.Decimal
import Libmc.Support.Session

/-!
# The Python client

`PyClientShell` of `_client.pyx`, as sessions of single commands to the servers. Values are encoded
by their type, compressed above a threshold, and stored in chunks of a million bytes when they are
larger than one; reading undoes this. A Python exception that is not caught is a failed session.
`zlib`, `marshal`, `pickle` and `int` are parameters.
-/

namespace Libmc

/-- A Python object: exact `bytes`, `bool` and `int`, and anything else. -/
inductive PyObject (Obj : Type)
  | bytes (val : Bytes)
  | bool (val : Bool)
  | int (val : ℤ)
  | other (val : Obj)
  deriving DecidableEq, Repr

/-- The libraries that encode values; `none` is an exception. -/
structure Codecs (Obj : Type) where
  isNumpy : Obj → Bool
  compress : Bytes → Bytes
  decompress : Bytes → Option Bytes
  marshalDumps : Obj → Option Bytes
  marshalLoads : Bytes → Option (PyObject Obj)
  pickleDumps : Obj → Option Bytes
  pickleLoads : Bytes → Option (PyObject Obj)
  /-- `int` of a byte string. -/
  toInt : Bytes → Option ℤ

/-- `str` of an `int`, in ASCII. -/
def intStr (val : ℤ) : Bytes := Decimal.signed val

/-- What is assumed of the libraries: each undoes what it did. -/
structure Codecs.Lawful {Obj : Type} (c : Codecs Obj) : Prop where
  decompress_compress : ∀ bs, c.decompress (c.compress bs) = some bs
  marshal : ∀ val bs, c.marshalDumps val = some bs → c.marshalLoads bs = some (.other val)
  pickle : ∀ val bs, c.pickleDumps val = some bs → c.pickleLoads bs = some (.other val)
  toInt_intStr : ∀ val, c.toInt (intStr val) = some val

/-- What is assumed besides: each notices that what it made has been cut off. -/
structure Codecs.Strict {Obj : Type} (c : Codecs Obj) : Prop where
  decompress : ∀ bs p, p <+: c.compress bs → p ≠ c.compress bs → c.decompress p = none
  marshal : ∀ val bs p, c.marshalDumps val = some bs → p <+: bs → p ≠ bs → c.marshalLoads p = none
  pickle : ∀ val bs p, c.pickleDumps val = some bs → p <+: bs → p ≠ bs → c.pickleLoads p = none

/-! ### Flags -/

def flagEmpty : UInt32 := 0
def flagPickle : UInt32 := (1 : UInt32) <<< 0
def flagInteger : UInt32 := (1 : UInt32) <<< 1
def flagLong : UInt32 := (1 : UInt32) <<< 2
def flagBool : UInt32 := (1 : UInt32) <<< 3
def flagCompress : UInt32 := (1 : UInt32) <<< 4
def flagMarshal : UInt32 := (1 : UInt32) <<< 5
def flagDoubanChunked : UInt32 := (1 : UInt32) <<< 12

/-- `_DOUBAN_CHUNK_SIZE`. -/
def doubanChunkSize : ℕ := 1000000

/-- `flags & flag`, as a condition. -/
def hasFlag (flags flag : UInt32) : Bool := flags &&& flag ≠ 0

section Values

variable {Obj : Type} (c : Codecs Obj)

/-- `bytes.decode('ascii')`. -/
def decodeAscii (bs : Bytes) : Option Bytes := if bs.all (· < 128) then some bs else none

/-- The encoding by type. -/
def encodeByType : PyObject Obj → Option (Bytes × UInt32)
  | .bytes val => some (val, flagEmpty)
  | .bool val => some (if val then ascii "1" else ascii "0", flagBool)
  | .int val => some (intStr val, flagLong)
  | .other val =>
    if c.isNumpy val then (c.pickleDumps val).map (·, flagPickle)
    else
      match c.marshalDumps val with
      | some bs => some (bs, flagMarshal)
      | none => (c.pickleDumps val).map (·, flagPickle)

/-- `_encode_value`; `none` is `None`. -/
def encodeValue (val : PyObject Obj) (compThreshold : ℤ) : Option (Bytes × UInt32) :=
  (encodeByType c val).map fun (encVal, flags) =>
    if 0 < compThreshold ∧ compThreshold < encVal.length then
      (c.compress encVal, flags ||| flagCompress)
    else (encVal, flags)

/-- The decoding by flags; the inner `none` is `None`, the outer one an exception. -/
def decodeByFlags (decVal : Bytes) (flags : UInt32) : Option (Option (PyObject Obj)) :=
  if hasFlag flags flagBool then (c.toInt decVal).map fun n => some (.bool (n ≠ 0))
  else if hasFlag flags flagInteger then
    ((decodeAscii decVal).bind c.toInt).map fun n => some (.int n)
  else if hasFlag flags flagLong then
    ((decodeAscii decVal).bind c.toInt).map fun n => some (.int n)
  else if hasFlag flags flagMarshal then some (c.marshalLoads decVal)
  else if hasFlag flags flagPickle then some (c.pickleLoads decVal)
  else some (some (.bytes decVal))

/-- `decode_value`. -/
def decodeValue (val : Bytes) (flags : UInt32) : Option (Option (PyObject Obj)) :=
  if hasFlag flags flagCompress then
    match c.decompress val with
    | some decVal => decodeByFlags c decVal flags
    | none => some none
  else decodeByFlags c val flags

end Values

/-! ### Commands -/

/-- A single command to the servers. -/
inductive StoreCmd
  | set (key : Bytes) (flags : UInt32) (val : Bytes)
  | get (key : Bytes)
  deriving DecidableEq, Repr

/-- What comes of a `set`: `STORED`, nothing because of `noreply`, nothing because the key is not
valid and the command has not been sent, or an error. -/
inductive SetReply
  | stored
  | silent
  | unsent
  | failed
  deriving DecidableEq, Repr

/-- What comes of a command; a `get` gives the flags and the value. -/
def StoreReply : StoreCmd → Type
  | .set _ _ _ => SetReply
  | .get _ => Option (UInt32 × Bytes)

/-- A run of the client's code. -/
abbrev Py (α : Type) := Session StoreCmd StoreReply α

/-- `PyClientSettings`, without the servers; the prefix is not empty. -/
structure PyClient where
  doSplit : Bool := true
  compThreshold : ℤ := 0
  noreply : Bool := false
  keyPrefix : Option Bytes := none
  deriving DecidableEq, Repr

namespace PyClient

/-- `Client::set` with one item. -/
def sendSet (item : Bytes × UInt32 × Bytes) : Py SetReply :=
  Session.send (StoreCmd.set item.1 item.2.1 item.2.2)

/-- `Client::get` with one key. -/
def sendGet (key : Bytes) : Py (Option (UInt32 × Bytes)) := Session.send (StoreCmd.get key)

/-- `normalize_key`, of an encoded key. -/
def normalizeKey (cl : PyClient) (key : Bytes) : Py Bytes :=
  match cl.keyPrefix with
  | none => return key
  | some pre =>
    match key with
    | [] => Session.fail
    | c :: rest => return if c = 63 then 63 :: pre ++ rest else pre ++ key

/-! ### Storing -/

/-- Whether `Client::set` returns `RET_OK`: nothing has failed, and something has been sent. -/
def sentAll (rs : List SetReply) : Bool := rs.all (· ≠ .failed) && rs.any (· ≠ .unsent)

/-- `_store_raw` of `SET_OP`. -/
def storeRaw (cl : PyClient) (key : Bytes) (flags : UInt32) (val : Bytes) : Py Bool := do
  let r ← sendSet (key, flags, val)
  return sentAll [r] && (cl.noreply || r = .stored)

/-- `_store_multi_raw` of `SET_OP`, with `return_failure=False`. -/
def storeMultiRaw (cl : PyClient) (items : List (Bytes × UInt32 × Bytes)) : Py Bool := do
  let rs ← Session.each sendSet items
  return sentAll rs && (cl.noreply || rs.count .stored = items.length)

/-- `b'~%d%s/%d' % (len_key, key, i)`. -/
def chunkKey (key : Bytes) (i : ℕ) : Bytes :=
  ascii "~" ++ Decimal.numeral key.length ++ key ++ ascii "/" ++ Decimal.numeral i

/-- `val[i:i+_DOUBAN_CHUNK_SIZE]` for the `i`-th chunk. -/
def chunk (val : Bytes) (i : ℕ) : Bytes := (val.drop (i * doubanChunkSize)).take doubanChunkSize

/-- The number of chunks. -/
def nSplits (cValLen : ℕ) : ℕ :=
  cValLen / doubanChunkSize + if cValLen % doubanChunkSize = 0 then 0 else 1

/-- `cdef int c_val_len = len(val)`. -/
def cValLen (val : Bytes) : ℤ := cInt val.length

/-- The items of some chunks. -/
def chunkItems (n : ℕ) (key val : Bytes) (flags : UInt32) : List (Bytes × UInt32 × Bytes) :=
  (List.range n).map fun i => (chunkKey key i, flags, chunk val i)

/-- `_set`. -/
def set_ (cl : PyClient) (key val : Bytes) (flags : UInt32) : Py Bool := do
  if !cl.doSplit ∨ cValLen val ≤ doubanChunkSize then cl.storeRaw key flags val
  else if 10 * doubanChunkSize < cValLen val ∨ 200 < key.length then return false
  else
    let n := nSplits (cValLen val).toNat
    let rv ← cl.storeMultiRaw (chunkItems n key val flags)
    if rv = false then return false
    else cl.storeRaw key (flags ||| flagDoubanChunked) (Decimal.numeral n)

/-- `set_raw`. -/
def setRaw (cl : PyClient) (key val : Bytes) (flags : UInt32) : Py Bool := do
  let key2 ← cl.normalizeKey key
  cl.set_ key2 val flags

/-- `set`; `none` is `None`, for a value that cannot be encoded. -/
def set {Obj : Type} (c : Codecs Obj) (cl : PyClient) (key : Bytes) (val : PyObject Obj)
    (compress : Bool) : Py (Option Bool) :=
  match encodeValue c val (if compress then cl.compThreshold else 0) with
  | some (encVal, flags) => do
    let rv ← cl.setRaw key encVal flags
    return some rv
  | none => return none

/-! ### Reading -/

/-- `dct[key] = value`. -/
def dictSet (dct : List (Bytes × UInt32 × Bytes)) (key : Bytes) (value : UInt32 × Bytes) :
    List (Bytes × UInt32 × Bytes) := dct.filter (·.1 ≠ key) ++ [(key, value)]

/-- The values that were found, by key. -/
def collect (dct : List (Bytes × UInt32 × Bytes)) :
    List (Bytes × Option (UInt32 × Bytes)) → List (Bytes × UInt32 × Bytes)
  | [] => dct
  | (key, some value) :: rs => collect (dictSet dct key value) rs
  | (_, none) :: rs => collect dct rs

/-- `_get_multi_raw`. -/
def getMultiRaw (keys : List Bytes) : Py (List (Bytes × UInt32 × Bytes)) := do
  let rs ← Session.each sendGet keys
  return collect [] (keys.zip rs)

/-- `_get_large_raw`; the value is `none` for `None`. -/
def getLargeRaw (key : Bytes) (nSplits : ℤ) (chunkedFlags : UInt32) :
    Py (Option Bytes × UInt32) := do
  if 10 < nSplits ∨ 200 < key.length then return (none, 0)
  else if nSplits < 0 then Session.fail -- no `size_t`
  else
    let keys := (List.range nSplits.toNat).map (chunkKey key)
    let dct ← getMultiRaw keys
    if dct.length ≠ nSplits then return (none, 0)
    else
      return (some (keys.flatMap fun key => ((dct.lookup key).map (·.2)).getD []),
        chunkedFlags &&& ~~~flagDoubanChunked)

/-- `strip('\\0')`. -/
def stripNul (bs : Bytes) : Bytes := bs.rdropWhile (· = 0) |>.dropWhile (· = 0)

/-- `int(py_value.decode('ascii').strip('\\0'))`, as a C `int`. -/
def parseSplits {Obj : Type} (c : Codecs Obj) (val : Bytes) : Option ℤ :=
  ((decodeAscii val).bind fun text => c.toInt (stripNul text)).filter fun n =>
    -2 ^ 31 ≤ n ∧ n < 2 ^ 31

/-- `get_raw`. -/
def getRaw {Obj : Type} (c : Codecs Obj) (cl : PyClient) (key : Bytes) :
    Py (Option Bytes × UInt32) := do
  let key2 ← cl.normalizeKey key
  let r ← sendGet key2
  match r with
  | none => return (none, 0)
  | some (flags, val) =>
    if cl.doSplit && hasFlag flags flagDoubanChunked then
      let n ← Session.ofOption (parseSplits c val)
      getLargeRaw key2 n flags
    else return (some val, flags)

/-- `get`; `none` is `None`. -/
def get {Obj : Type} (c : Codecs Obj) (cl : PyClient) (key : Bytes) :
    Py (Option (PyObject Obj)) := do
  let (val, flags) ← cl.getRaw c key
  match val with
  | none => return none
  | some val => Session.ofOption (decodeValue c val flags)

end PyClient

end Libmc
