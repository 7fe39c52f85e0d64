import Libmc.PyClient

/-!
# What `set` stores, `get` returns

On a store that has no other writer and takes every valid key with at most a million bytes, a value
that was set is read back: encoding and decoding are inverse, the chunks are read in the order in
which they were cut, and the index record gives their number. But `_set` has the length in a C `int`,
so of a value of more than `2 ^ 31` bytes it can store a few chunks only (`Cut`), and these are all
that is read back (`get_after_set_iff`).
-/

namespace Libmc

variable {Obj : Type} {c : Codecs Obj} {val : PyObject Obj} {bs : Bytes} {flags : UInt32}

/-! ### Encoding -/

theorem ascii_of_mem_numeral {n : ℕ} {x : UInt8} (h : x ∈ Decimal.numeral n) : 48 ≤ x ∧ x < 128 := by
  obtain ⟨h1, h2⟩ := Decimal.bounds_of_mem_numeral h
  exact ⟨h1, UInt8.lt_of_le_of_lt h2 (by decide)⟩

theorem decodeAscii_intStr (n : ℤ) : decodeAscii (intStr n) = some (intStr n) := by
  refine if_pos (List.all_eq_true.2 fun x hx => decide_eq_true ?_)
  unfold intStr Decimal.signed at hx
  split_ifs at hx
  · rcases List.mem_cons.1 hx with rfl | hx
    · decide
    · exact (ascii_of_mem_numeral hx).2
  · exact (ascii_of_mem_numeral hx).2

theorem intStr_natCast (n : ℕ) : intStr n = Decimal.numeral n := Decimal.signed_of_nonneg (by omega)

theorem toInt_ascii (hc : c.Lawful) {n : ℕ} (hn : n < 10) :
    c.toInt [Decimal.digit n] = some (n : ℤ) := by
  rw [← Decimal.numeral_of_lt hn, ← intStr_natCast]
  exact hc.toInt_intStr n

def typeFlags : List UInt32 := [flagEmpty, flagPickle, flagLong, flagBool, flagMarshal]

theorem typeFlags_spec : ∀ flags ∈ typeFlags,
    hasFlag flags flagCompress = false ∧ hasFlag (flags ||| flagCompress) flagCompress = true ∧
    ∀ flag ∈ [flagBool, flagInteger, flagLong, flagMarshal, flagPickle],
      hasFlag (flags ||| flagCompress) flag = hasFlag flags flag := by
  have h : typeFlags.all (fun flags =>
      !hasFlag flags flagCompress && hasFlag (flags ||| flagCompress) flagCompress &&
        [flagBool, flagInteger, flagLong, flagMarshal, flagPickle].all fun flag =>
          hasFlag (flags ||| flagCompress) flag == hasFlag flags flag) = true := by decide
  simpa [and_assoc] using h

theorem decodeByFlags_congr {flags' : UInt32} (h : ∀ flag ∈ [flagBool, flagInteger, flagLong,
    flagMarshal, flagPickle], hasFlag flags' flag = hasFlag flags flag) :
    decodeByFlags c bs flags' = decodeByFlags c bs flags := by
  simp only [List.mem_cons, List.not_mem_nil, or_false, forall_eq_or_imp, forall_eq] at h
  obtain ⟨h1, h2, h3, h4, h5⟩ := h
  unfold decodeByFlags
  rw [h1, h2, h3, h4, h5]

theorem decode_encodeByType (hc : c.Lawful) (h : encodeByType c val = some (bs, flags)) :
    flags ∈ typeFlags ∧ decodeByFlags c bs flags = some (some val) := by
  cases val with
  | bytes b =>
    obtain ⟨rfl, rfl⟩ := Prod.mk.inj (Option.some.inj h)
    exact ⟨by decide, rfl⟩
  | bool b =>
    obtain ⟨rfl, rfl⟩ := Prod.mk.inj (Option.some.inj h)
    refine ⟨by decide, ?_⟩
    cases b with
    | false =>
      have hint := toInt_ascii hc (n := 0) (by decide)
      show (c.toInt [Decimal.digit 0]).map _ = _
      rw [hint]
      rfl
    | true =>
      have hint := toInt_ascii hc (n := 1) (by decide)
      show (c.toInt [Decimal.digit 1]).map _ = _
      rw [hint]
      rfl
  | int n =>
    obtain ⟨rfl, rfl⟩ := Prod.mk.inj (Option.some.inj h)
    refine ⟨by decide, ?_⟩
    show ((decodeAscii (intStr n)).bind c.toInt).map _ = _
    rw [decodeAscii_intStr, Option.bind_some, hc.toInt_intStr]
    rfl
  | other o =>
    have hpickle : (c.pickleDumps o).map (·, flagPickle) = some (bs, flags) →
        flags ∈ typeFlags ∧ decodeByFlags c bs flags = some (some (.other o)) := by
      intro h
      obtain ⟨b, hb, heq⟩ := Option.map_eq_some_iff.1 h
      obtain ⟨rfl, rfl⟩ := Prod.mk.inj heq
      exact ⟨by decide, congrArg some (hc.pickle o b hb)⟩
    simp only [encodeByType] at h
    split_ifs at h
    · exact hpickle h
    · rcases hm : c.marshalDumps o with _ | b
      · rw [hm] at h
        exact hpickle h
      · rw [hm] at h
        obtain ⟨rfl, rfl⟩ := Prod.mk.inj (Option.some.inj h)
        exact ⟨by decide, congrArg some (hc.marshal o b hm)⟩

def valueFlags : List UInt32 := typeFlags ++ typeFlags.map (· ||| flagCompress)

/-- **Decoding undoes encoding.** -/
theorem decode_encodeValue (hc : c.Lawful) {compThreshold : ℤ}
    (h : encodeValue c val compThreshold = some (bs, flags)) :
    flags ∈ valueFlags ∧ decodeValue c bs flags = some (some val) := by
  obtain ⟨⟨encVal, fl⟩, henc, heq⟩ := Option.map_eq_some_iff.1 h
  obtain ⟨hmem, hdec⟩ := decode_encodeByType hc henc
  obtain ⟨hno, hyes, hsame⟩ := typeFlags_spec fl hmem
  simp only at heq
  split_ifs at heq
  · obtain ⟨rfl, rfl⟩ := Prod.mk.inj heq
    refine ⟨List.mem_append_right _ (List.mem_map_of_mem hmem), ?_⟩
    unfold decodeValue
    rw [if_pos hyes, hc.decompress_compress]
    exact (decodeByFlags_congr hsame).trans hdec
  · obtain ⟨rfl, rfl⟩ := Prod.mk.inj heq
    refine ⟨List.mem_append_left _ hmem, ?_⟩
    unfold decodeValue
    rw [hno]
    exact hdec

/-- The chunk flag is not used by the encoding, and can be put on and taken off. -/
theorem valueFlags_chunked : ∀ flags ∈ valueFlags, hasFlag flags flagDoubanChunked = false ∧
    hasFlag (flags ||| flagDoubanChunked) flagDoubanChunked = true ∧
    (flags ||| flagDoubanChunked) &&& ~~~flagDoubanChunked = flags := by
  have h : valueFlags.all (fun flags => !hasFlag flags flagDoubanChunked &&
      hasFlag (flags ||| flagDoubanChunked) flagDoubanChunked &&
        ((flags ||| flagDoubanChunked) &&& ~~~flagDoubanChunked) == flags) = true := by decide
  intro flags hmem
  have := List.all_eq_true.1 h flags hmem
  rw [Bool.and_eq_true, Bool.and_eq_true, Bool.not_eq_true', beq_iff_eq, and_assoc] at this
  exact this

/-! ### The store -/

/-- A map from raw keys to flags and values. -/
abbrev Store := Bytes → Option (UInt32 × Bytes)

/-- Every valid key is taken with at most a million bytes; the client does not send the others. -/
def accept (key val : Bytes) : SetReply :=
  if isValidKey key then if val.length ≤ 1000000 then .stored else .failed else .unsent

/-- The store of one writer. -/
def idealServer (s : Store) : (cmd : StoreCmd) → StoreReply cmd × Store
  | .set key flags val =>
    (accept key val,
      if accept key val = .stored then Function.update s key (some (flags, val)) else s)
  | .get key => (if isValidKey key then s key else none, s)

theorem isValidKey_of_stored {key v : Bytes} (h : accept key v = .stored) : isValidKey key := by
  unfold accept at h
  split_ifs at h with hkey
  exact hkey

theorem length_of_stored {key v : Bytes} (h : accept key v = .stored) : v.length ≤ 1000000 := by
  unfold accept at h
  split_ifs at h with _ hlen
  exact hlen

def Store.put (s : Store) : List (Bytes × UInt32 × Bytes) → Store
  | [] => s
  | item :: items => Store.put (Function.update s item.1 (some item.2)) items

namespace PyClient

variable {cl : PyClient} {s s' : Store} {key : Bytes} {items : List (Bytes × UInt32 × Bytes)}

theorem exec_sendSet (item : Bytes × UInt32 × Bytes) (s : Store) :
    Session.exec idealServer (sendSet item) s = (some (accept item.1 item.2.2),
      if accept item.1 item.2.2 = .stored then Function.update s item.1 (some item.2) else s) := rfl

theorem exec_each_sendSet (items : List (Bytes × UInt32 × Bytes)) (s : Store) :
    Session.exec idealServer (Session.each sendSet items) s =
      (some (items.map fun item => accept item.1 item.2.2),
        s.put (items.filter fun item => accept item.1 item.2.2 = .stored)) := by
  induction items generalizing s with
  | nil => rfl
  | cons item items ih =>
    unfold Session.each
    rw [Session.exec_bind_some (exec_sendSet item s), Session.exec_bind_some (ih _)]
    by_cases hstored : accept item.1 item.2.2 = .stored
    · rw [if_pos hstored, List.filter_cons_of_pos (by simpa using hstored)]
      rfl
    · rw [if_neg hstored, List.filter_cons_of_neg (by simpa using hstored)]
      rfl

theorem exec_storeRaw_iff (hno : cl.noreply = false) {v : Bytes} :
    Session.exec idealServer (cl.storeRaw key flags v) s = (some true, s') ↔
      accept key v = .stored ∧ s' = Function.update s key (some (flags, v)) := by
  unfold storeRaw
  rw [Session.exec_bind_some (exec_sendSet _ s), Session.exec_pure, hno]
  cases accept key v <;> simp [sentAll, eq_comm]

theorem exec_storeMultiRaw_iff (hno : cl.noreply = false) :
    Session.exec idealServer (cl.storeMultiRaw items) s = (some true, s') ↔
      items ≠ [] ∧ (∀ item ∈ items, accept item.1 item.2.2 = .stored) ∧ s' = s.put items := by
  unfold storeMultiRaw
  rw [Session.exec_bind_some (exec_each_sendSet items s), Session.exec_pure, hno, Bool.false_or,
    Prod.mk.injEq, Option.some_inj, Bool.and_eq_true_iff, decide_eq_true_iff,
    ← List.length_map (f := fun item => accept item.1 item.2.2), List.count_eq_length,
    List.forall_mem_map]
  constructor
  · rintro ⟨⟨hsent, hall⟩, rfl⟩
    refine ⟨?_, fun item hitem => (hall item hitem).symm, ?_⟩
    · rintro rfl
      cases hsent
    · rw [List.filter_eq_self.2 fun item hitem => decide_eq_true (hall item hitem).symm]
  · rintro ⟨hne, hall, rfl⟩
    refine ⟨⟨?_, fun item hitem => (hall item hitem).symm⟩, ?_⟩
    · obtain ⟨item, items, rfl⟩ := List.exists_cons_of_ne_nil hne
      unfold sentAll
      rw [Bool.and_eq_true_iff, List.all_eq_true, List.any_eq_true]
      refine ⟨fun r hr => ?_, _, List.mem_cons_self, ?_⟩
      · obtain ⟨other, hother, rfl⟩ := List.mem_map.1 hr
        rw [hall other hother]
        rfl
      · have hfirst := hall item List.mem_cons_self
        exact decide_eq_true fun hunsent => by cases hfirst.symm.trans hunsent
    · rw [List.filter_eq_self.2 fun item hitem => decide_eq_true (hall item hitem)]

theorem put_append (items' : List (Bytes × UInt32 × Bytes)) :
    s.put (items ++ items') = (s.put items).put items' := by
  induction items generalizing s with
  | nil => rfl
  | cons item items ih => exact ih

theorem put_of_not_mem (h : ∀ item ∈ items, item.1 ≠ key) : s.put items key = s key := by
  induction items generalizing s with
  | nil => rfl
  | cons item items ih =>
    unfold Store.put
    rw [ih fun i hi => h i (List.mem_cons_of_mem item hi),
      Function.update_of_ne (h item List.mem_cons_self).symm]

theorem put_of_mem (hnd : (items.map Prod.fst).Nodup) {v : UInt32 × Bytes}
    (h : (key, v) ∈ items) : s.put items key = some v := by
  induction items generalizing s with
  | nil => cases h
  | cons item items ih =>
    rw [List.map_cons, List.nodup_cons] at hnd
    unfold Store.put
    rcases List.mem_cons.1 h with rfl | h
    · have hnot : ∀ i ∈ items, i.1 ≠ key := fun i hi heq =>
        hnd.1 (List.mem_map.2 ⟨i, hi, heq⟩)
      rw [put_of_not_mem hnot, Function.update_self]
    · exact ih hnd.2 h

theorem exec_each_sendGet (keys : List Bytes) (s : Store) :
    Session.exec idealServer (Session.each sendGet keys) s =
      (some (keys.map fun key => if isValidKey key then s key else none), s) := by
  induction keys with
  | nil => rfl
  | cons key keys ih =>
    have hget : Session.exec idealServer (sendGet key) s =
        (some (if isValidKey key then s key else none), s) := rfl
    unfold Session.each
    rw [Session.exec_bind_some hget, Session.exec_bind_some ih]
    rfl

/-! ### The chunks -/

theorem chunkKey_injective (key : Bytes) : Function.Injective (chunkKey key) := by
  intro i j h
  have hnum : Decimal.numeral i = Decimal.numeral j := List.append_cancel_left h
  rw [← Decimal.value_numeral i, hnum, Decimal.value_numeral]

theorem chunkKey_ne (key : Bytes) (i : ℕ) : chunkKey key i ≠ key := by
  intro h
  have hlen := congrArg List.length h
  simp only [chunkKey, List.length_append] at hlen
  have : (ascii "~").length = 1 := rfl
  omega

theorem flatMap_chunk (v : Bytes) (n : ℕ) :
    (List.range n).flatMap (chunk v) = v.take (n * doubanChunkSize) := by
  induction n with
  | zero => simp
  | succ n ih =>
    rw [List.range_succ, List.flatMap_append, ih, List.flatMap_singleton, chunk, Nat.succ_mul,
      List.take_add]

theorem le_nSplits (n : ℕ) : n ≤ nSplits n * doubanChunkSize := by
  have hdiv := Nat.div_add_mod n doubanChunkSize
  have hlt := Nat.mod_lt n (show 0 < doubanChunkSize by decide)
  unfold nSplits
  split_ifs with h
  · rw [Nat.add_zero, Nat.mul_comm]
    omega
  · rw [Nat.succ_mul, Nat.mul_comm]
    omega

theorem nSplits_le {n : ℕ} (h : n ≤ 10 * doubanChunkSize) : nSplits n ≤ 10 := by
  unfold nSplits doubanChunkSize at *
  split_ifs <;> omega

theorem nSplits_lt {m n : ℕ} (h : m + doubanChunkSize ≤ n) : nSplits m < nSplits n := by
  unfold nSplits doubanChunkSize at *
  split_ifs <;> omega

theorem chunk_length_le (v : Bytes) (i : ℕ) : (chunk v i).length ≤ 1000000 := List.length_take_le _ _

theorem collect_zip {keys : List Bytes} {rs : List (Option (UInt32 × Bytes))}
    {dct : List (Bytes × UInt32 × Bytes)} (hnd : keys.Nodup)
    (hdct : ∀ k ∈ keys, ∀ e ∈ dct, e.1 ≠ k) :
    collect dct (keys.zip rs) = dct ++ (keys.zip rs).filterMap fun e => e.2.map (e.1, ·) := by
  induction keys generalizing dct rs with
  | nil => exact (List.append_nil dct).symm
  | cons k keys ih =>
    rw [List.nodup_cons] at hnd
    rcases rs with _ | ⟨_ | v, rs⟩
    · exact (List.append_nil dct).symm
    · exact ih hnd.2 fun k' hk' => hdct k' (List.mem_cons_of_mem k hk')
    · have hfilter : dct.filter (·.1 ≠ k) = dct :=
        List.filter_eq_self.2 fun e he => decide_eq_true (hdct k List.mem_cons_self e he)
      have hnew : ∀ k' ∈ keys, ∀ e ∈ dct ++ [(k, v)], e.1 ≠ k' := by
        intro k' hk' e he
        rcases List.mem_append.1 he with he | he
        · exact hdct k' (List.mem_cons_of_mem k hk') e he
        · obtain rfl := List.mem_singleton.1 he
          rintro rfl
          exact hnd.1 hk'
      rw [List.zip_cons_cons, collect, dictSet, hfilter, ih hnd.2 hnew, List.append_assoc]
      rfl

theorem filterMap_zip_some (keys : List Bytes) (vs : List (UInt32 × Bytes)) :
    ((keys.zip (vs.map some)).filterMap fun e => e.2.map (e.1, ·)) = keys.zip vs := by
  induction keys generalizing vs with
  | nil => rfl
  | cons k keys ih =>
    cases vs with
    | nil => rfl
    | cons v vs => exact congrArg ((k, v) :: ·) (ih vs)

theorem flatMap_lookup {keys : List Bytes} {vs : List (UInt32 × Bytes)} (hnd : keys.Nodup)
    (hlen : vs.length = keys.length) :
    (keys.flatMap fun k => (((keys.zip vs).lookup k).map (·.2)).getD []) =
      (vs.map Prod.snd).flatten := by
  induction keys generalizing vs with
  | nil => rw [List.length_eq_zero_iff.1 hlen]; rfl
  | cons k keys ih =>
    rw [List.nodup_cons] at hnd
    obtain ⟨v, vs, rfl⟩ := List.exists_cons_of_length_eq_add_one hlen
    have hrest : (keys.flatMap fun k' => ((((k, v) :: keys.zip vs).lookup k').map (·.2)).getD []) =
        keys.flatMap fun k' => (((keys.zip vs).lookup k').map (·.2)).getD [] := by
      refine List.flatMap_congr fun k' hk' => ?_
      have hne : k' ≠ k := fun heq => hnd.1 (heq ▸ hk')
      rw [List.lookup_cons, beq_false_of_ne hne]
    rw [List.zip_cons_cons, List.flatMap_cons, hrest, ih hnd.2 (Nat.succ.inj hlen),
      List.lookup_cons, beq_self_eq_true]
    rfl

theorem chunkKeys_nodup (key : Bytes) (n : ℕ) : ((List.range n).map (chunkKey key)).Nodup :=
  List.nodup_range.map (chunkKey_injective key)

theorem getLargeRaw_found {parts : List Bytes} (hparts : parts.length ≤ 10)
    (hkey : key.length ≤ 200) (flags' : UInt32)
    (hfound : ∀ i (hi : i < parts.length),
      isValidKey (chunkKey key i) ∧ s (chunkKey key i) = some (flags, parts[i])) :
    Session.exec idealServer (getLargeRaw key parts.length flags') s =
      (some (some parts.flatten, flags' &&& ~~~flagDoubanChunked), s) := by
  have hnd := chunkKeys_nodup key parts.length
  have hreplies : ((List.range parts.length).map (chunkKey key)).map
      (fun k => if isValidKey k then s k else none) = (parts.map (flags, ·)).map some := by
    refine List.ext_getElem (by simp) fun i hi _ => ?_
    have hlt : i < parts.length := by simpa using hi
    obtain ⟨hvalid, hs⟩ := hfound i hlt
    rw [List.getElem_map, List.getElem_map, List.getElem_range, List.getElem_map, List.getElem_map,
      if_pos hvalid, hs]
  have hmulti : Session.exec idealServer
      (getMultiRaw ((List.range parts.length).map (chunkKey key))) s =
      (some (((List.range parts.length).map (chunkKey key)).zip (parts.map (flags, ·))), s) := by
    unfold getMultiRaw
    rw [Session.exec_bind_some (exec_each_sendGet _ s), hreplies, Session.exec_pure,
      collect_zip hnd (by simp), filterMap_zip_some]
    rfl
  unfold getLargeRaw
  rw [if_neg (by omega), if_neg (by omega), Int.toNat_natCast, Session.exec_bind_some hmulti,
    if_neg (by simp), flatMap_lookup hnd (by simp), List.map_map]
  show (some (some (parts.map id).flatten, _), s) = _
  rw [List.map_id]

/-! ### Storing and reading -/

/-- What `get_raw` finds of a value under its key: the value itself, or the number of its parts. -/
structure Stored (cl : PyClient) (s : Store) (key v : Bytes) (flags : UInt32) : Prop where
  valid : isValidKey key
  record : s key = some (flags, v) ∨ ∃ parts : List Bytes, parts.length ≤ 10 ∧ parts.flatten = v ∧
    cl.doSplit = true ∧ key.length ≤ 200 ∧
      s key = some (flags ||| flagDoubanChunked, Decimal.numeral parts.length) ∧
      ∀ i (hi : i < parts.length),
        isValidKey (chunkKey key i) ∧ s (chunkKey key i) = some (flags, parts[i])

/-- The items that `_set` gives to `Client::set`. -/
def setItems (cl : PyClient) (key v : Bytes) (flags : UInt32) : List (Bytes × UInt32 × Bytes) :=
  if !cl.doSplit ∨ cValLen v ≤ doubanChunkSize then [(key, flags, v)]
  else
    let n := nSplits (cValLen v).toNat
    chunkItems n key v flags ++ [(key, flags ||| flagDoubanChunked, Decimal.numeral n)]

/-- What they hold of the value. -/
def kept (cl : PyClient) (v : Bytes) : Bytes :=
  if !cl.doSplit ∨ cValLen v ≤ doubanChunkSize then v
  else v.take (nSplits (cValLen v).toNat * doubanChunkSize)

theorem chunkItems_ne_nil {n : ℤ} (h : doubanChunkSize < n) (key v : Bytes) (flags : UInt32) :
    chunkItems (nSplits n.toNat) key v flags ≠ [] := by
  have hle := le_nSplits n.toNat
  have hpos : 0 < doubanChunkSize := by decide
  intro hnil
  have hzero : nSplits n.toNat = 0 := by
    simpa [chunkItems] using hnil
  rw [hzero, Nat.zero_mul] at hle
  omega

theorem set_cases (cl : PyClient) (key v : Bytes) (flags : UInt32) :
    ((!cl.doSplit ∨ cValLen v ≤ doubanChunkSize) ∧
      cl.set_ key v flags = cl.storeRaw key flags v) ∨
    ((¬ (!cl.doSplit ∨ cValLen v ≤ doubanChunkSize) ∧
      (10 * doubanChunkSize < cValLen v ∨ 200 < key.length)) ∧ cl.set_ key v flags = pure false) ∨
    ((¬ (!cl.doSplit ∨ cValLen v ≤ doubanChunkSize) ∧
      cValLen v ≤ 10 * doubanChunkSize ∧ key.length ≤ 200) ∧
      cl.set_ key v flags =
        (cl.storeMultiRaw (chunkItems (nSplits (cValLen v).toNat) key v flags) >>= fun rv =>
          if rv = false then pure false
          else cl.storeRaw key (flags ||| flagDoubanChunked)
            (Decimal.numeral (nSplits (cValLen v).toNat)))) := by
  unfold set_
  by_cases hsmall : !cl.doSplit ∨ cValLen v ≤ doubanChunkSize
  · exact .inl ⟨hsmall, if_pos hsmall⟩
  · rw [if_neg hsmall]
    by_cases hlimit : 10 * doubanChunkSize < cValLen v ∨ 200 < key.length
    · exact .inr (.inl ⟨⟨hsmall, hlimit⟩, if_pos hlimit⟩)
    · exact .inr (.inr ⟨⟨hsmall, by omega⟩, if_neg hlimit⟩)

/-- **A `_set` that succeeds.** -/
theorem exec_set_iff (hno : cl.noreply = false) {v : Bytes} :
    Session.exec idealServer (cl.set_ key v flags) s = (some true, s') ↔
      ((!cl.doSplit ∨ cValLen v ≤ doubanChunkSize) ∨
        cValLen v ≤ 10 * doubanChunkSize ∧ key.length ≤ 200) ∧
      (∀ item ∈ setItems cl key v flags, accept item.1 item.2.2 = .stored) ∧
      s' = s.put (setItems cl key v flags) := by
  unfold setItems
  rcases cl.set_cases key v flags with ⟨hsmall, hset⟩ | ⟨⟨hsmall, hlimit⟩, hset⟩ |
    ⟨⟨hsmall, hfits⟩, hset⟩
  · rw [hset, if_pos hsmall, exec_storeRaw_iff hno, List.forall_mem_singleton]
    exact ⟨fun h => ⟨.inl hsmall, h⟩, fun h => h.2⟩
  · rw [hset]
    refine iff_of_false nofun fun h => ?_
    obtain ⟨hlen, hkey⟩ := h.1.resolve_left hsmall
    omega
  · have hne := chunkItems_ne_nil (not_le.1 fun h => hsmall (.inr h)) key v flags
    rw [hset, if_neg hsmall]
    dsimp only
    generalize nSplits (cValLen v).toNat = n at hne ⊢
    rw [List.forall_mem_append, List.forall_mem_singleton, put_append]
    constructor
    · intro h
      obtain ⟨rv, t, hmulti, hrest⟩ := Session.exec_bind_eq_some h
      cases rv with
      | false => cases hrest
      | true =>
        obtain ⟨-, hall, rfl⟩ := (exec_storeMultiRaw_iff hno).1 hmulti
        obtain ⟨hindex, rfl⟩ := (exec_storeRaw_iff hno).1 hrest
        exact ⟨.inr hfits, ⟨hall, hindex⟩, rfl⟩
    · rintro ⟨-, ⟨hall, hindex⟩, rfl⟩
      rw [Session.exec_bind_some ((exec_storeMultiRaw_iff hno).2 ⟨hne, hall, rfl⟩)]
      exact (exec_storeRaw_iff hno).2 ⟨hindex, rfl⟩

theorem nodup_chunkItems (n : ℕ) (key v : Bytes) (flags : UInt32) :
    ((chunkItems n key v flags).map Prod.fst).Nodup := by
  unfold chunkItems
  rw [List.map_map]
  exact chunkKeys_nodup key n

theorem mem_chunkItems {n i : ℕ} (hi : i < n) (key v : Bytes) (flags : UInt32) :
    (chunkKey key i, flags, chunk v i) ∈ chunkItems n key v flags :=
  List.mem_map.2 ⟨i, List.mem_range.2 hi, rfl⟩

theorem stored_of_exec (hno : cl.noreply = false) {v : Bytes}
    (h : Session.exec idealServer (cl.set_ key v flags) s = (some true, s')) :
    Stored cl s' key (kept cl v) flags := by
  obtain ⟨hfits, hall, rfl⟩ := (exec_set_iff hno).1 h
  unfold setItems at hall ⊢
  unfold kept
  split_ifs at hall ⊢ with hsmall
  · have hkey := hall _ (List.mem_singleton_self _)
    exact ⟨isValidKey_of_stored hkey, .inl (Function.update_self ..)⟩
  · obtain ⟨hlen, hkey⟩ := hfits.resolve_left hsmall
    have hsplit : cl.doSplit = true := by
      by_contra hoff
      exact hsmall (.inl (by simpa using hoff))
    have hn : nSplits (cValLen v).toNat ≤ 10 := nSplits_le (by omega)
    dsimp only at hall ⊢
    rw [← flatMap_chunk]
    generalize nSplits (cValLen v).toNat = n at hall hn ⊢
    obtain ⟨hchunks, hindex⟩ := List.forall_mem_append.1 hall
    refine ⟨isValidKey_of_stored (hindex _ (List.mem_singleton_self _)), .inr
      ⟨(List.range n).map (chunk v), by simpa using hn, List.flatMap_def.symm, hsplit, hkey, ?_,
        fun i hi => ?_⟩⟩
    · rw [put_append, List.length_map, List.length_range]
      exact Function.update_self ..
    · have hlt : i < n := by simpa using hi
      have hmem := mem_chunkItems hlt key v flags
      refine ⟨isValidKey_of_stored (hchunks _ hmem), ?_⟩
      rw [put_append, List.getElem_map, List.getElem_range]
      show Function.update _ key _ _ = _
      rw [Function.update_of_ne (chunkKey_ne key i), put_of_mem (nodup_chunkItems n key v flags) hmem]

theorem numeral_ne_zero {n : ℕ} {x : UInt8} (h : x ∈ Decimal.numeral n) : x ≠ 0 := by
  rintro rfl
  exact absurd (ascii_of_mem_numeral h).1 (by decide)

theorem stripNul_of_forall_ne (h : ∀ x ∈ bs, x ≠ 0) : stripNul bs = bs := by
  have hright : bs.rdropWhile (· = 0) = bs :=
    List.rdropWhile_eq_self_iff.2 fun hne => by simpa using h _ (List.getLast_mem hne)
  unfold stripNul
  rw [hright]
  refine List.dropWhile_eq_self_iff.2 fun hlt => ?_
  simpa using h _ (List.getElem_mem hlt)

theorem parseSplits_numeral (hc : c.Lawful) {n : ℕ} (hn : n ≤ 10) :
    parseSplits c (Decimal.numeral n) = some (n : ℤ) := by
  unfold parseSplits
  rw [← intStr_natCast, decodeAscii_intStr, Option.bind_some, intStr_natCast,
    stripNul_of_forall_ne fun x => numeral_ne_zero, ← intStr_natCast, hc.toInt_intStr]
  exact Option.filter_eq_some_iff.2 ⟨rfl, decide_eq_true (by omega)⟩

theorem normalizeKey_cases (cl : PyClient) (key : Bytes) :
    (∃ key2, cl.normalizeKey key = pure key2) ∨ cl.normalizeKey key = Session.fail := by
  unfold normalizeKey
  rcases cl.keyPrefix with _ | pre
  · exact .inl ⟨key, rfl⟩
  · cases key with
    | nil => exact .inr rfl
    | cons x rest => exact .inl ⟨_, rfl⟩

theorem getRaw_stored (hc : c.Lawful) {key2 v : Bytes} (hflags : flags ∈ valueFlags)
    (hnorm : cl.normalizeKey key = pure key2) (h : Stored cl s key2 v flags) :
    Session.exec idealServer (cl.getRaw c key) s = (some (some v, flags), s) := by
  obtain ⟨hoff, hon, htake⟩ := valueFlags_chunked flags hflags
  have hget : Session.exec idealServer (sendGet key2) s = (some (s key2), s) := by
    show (some (if isValidKey key2 then s key2 else none), s) = _
    rw [if_pos h.valid]
  unfold getRaw
  rw [hnorm, Session.pure_bind, Session.exec_bind_some hget]
  rcases h.record with hs | ⟨parts, hlen, rfl, hsplit, hkey, hs, hfound⟩
  · rw [hs]
    simp only [hoff, Bool.and_false]
    rfl
  · rw [hs]
    simp only [hsplit, hon, Bool.and_self, if_true]
    rw [parseSplits_numeral hc hlen]
    refine (getLargeRaw_found hlen hkey _ hfound).trans ?_
    rw [htake]

/-! ### Values that are cut -/

/-- A value that `_set` stores in chunks. -/
structure Chunked (cl : PyClient) (key v : Bytes) : Prop where
  doSplit : cl.doSplit = true
  valid : isValidKey key = true
  key_le : key.length ≤ 200
  gt : doubanChunkSize < cValLen v
  le : cValLen v ≤ 10 * doubanChunkSize

namespace Chunked

variable {v : Bytes} (h : Chunked cl key v)

include h

theorem not_small : ¬ (!cl.doSplit ∨ cValLen v ≤ doubanChunkSize) := by
  rw [h.doSplit]
  exact fun hsmall => (hsmall.resolve_left Bool.false_ne_true).not_gt h.gt

theorem nSplits_bounds : 2 ≤ nSplits (cValLen v).toNat * doubanChunkSize ∧
    nSplits (cValLen v).toNat ≤ 10 := by
  have hgt := h.gt
  have hle := h.le
  refine ⟨le_trans ?_ (le_nSplits _), nSplits_le (by omega)⟩
  unfold doubanChunkSize at hgt
  omega

theorem chunkKey_valid {i : ℕ} (hi : i < 10) : isValidKey (chunkKey key i) = true := by
  have hvalid := h.valid
  have hkey := h.key_le
  unfold isValidKey at hvalid ⊢
  obtain ⟨-, hall⟩ := Bool.and_eq_true_iff.1 hvalid
  have hnumeral : ∀ n, (Decimal.numeral n).all
      (fun c => c ≠ space && c ≠ cr && c ≠ lf && c ≠ 0) = true := by
    intro n
    refine List.all_eq_true.2 fun x hx => ?_
    have hx := (ascii_of_mem_numeral hx).1
    have hne : ∀ y : UInt8, y < 48 → x ≠ y := fun y hy heq => absurd (heq ▸ hx) (UInt8.not_le.2 hy)
    simp [hne space (by decide), hne cr (by decide), hne lf (by decide), hne 0 (by decide)]
  refine Bool.and_eq_true_iff.2 ⟨decide_eq_true ?_, ?_⟩
  · have hlen : (Decimal.numeral key.length).length ≤ 3 :=
      Decimal.length_numeral_le (k := 2) (by omega)
    have hdigit : (Decimal.numeral i).length ≤ 1 := Decimal.length_numeral_le (k := 0) (by omega)
    have hone : (ascii "~").length = 1 ∧ (ascii "/").length = 1 := ⟨rfl, rfl⟩
    unfold chunkKey maxKeyLength
    rw [List.length_append, List.length_append, List.length_append, List.length_append]
    omega
  · unfold chunkKey
    rw [List.all_append, List.all_append, List.all_append, List.all_append, hnumeral, hnumeral, hall]
    rfl

theorem exec_set (hno : cl.noreply = false) (flags : UInt32) (s : Store) :
    Session.exec idealServer (cl.set_ key v flags) s =
      (some true, s.put (setItems cl key v flags)) := by
  refine (exec_set_iff hno).2 ⟨.inr ⟨h.le, h.key_le⟩, ?_, rfl⟩
  obtain ⟨-, hn⟩ := h.nSplits_bounds
  have hitems : setItems cl key v flags = chunkItems (nSplits (cValLen v).toNat) key v flags ++
      [(key, flags ||| flagDoubanChunked, Decimal.numeral (nSplits (cValLen v).toNat))] :=
    if_neg h.not_small
  rw [hitems, List.forall_mem_append, List.forall_mem_singleton]
  constructor
  · intro item hitem
    obtain ⟨i, hi, rfl⟩ := List.mem_map.1 hitem
    unfold accept
    rw [if_pos (h.chunkKey_valid ((List.mem_range.1 hi).trans_le hn)), if_pos (chunk_length_le v i)]
  · have hindex : (Decimal.numeral (nSplits (cValLen v).toNat)).length ≤ 2 :=
      Decimal.length_numeral_le (k := 1) (by omega)
    unfold accept
    rw [if_pos h.valid, if_pos (hindex.trans (by decide))]

end Chunked

/-- A value of at least `2 ^ 31` bytes, which `_set` takes for one of at most ten million. -/
structure Cut (cl : PyClient) (key v : Bytes) : Prop extends Chunked cl key v where
  large : 2 ^ 31 ≤ v.length

/-- A value that is stored and is not cut is kept whole. -/
theorem kept_eq_self {v : Bytes} (hcut : ¬ Cut cl key v)
    (hfits : (!cl.doSplit ∨ cValLen v ≤ doubanChunkSize) ∨
      cValLen v ≤ 10 * doubanChunkSize ∧ key.length ≤ 200)
    (hvalid : isValidKey key = true) : kept cl v = v := by
  unfold kept
  split_ifs with hsmall
  · rfl
  · obtain ⟨hlen, hkey⟩ := hfits.resolve_left hsmall
    obtain ⟨hsplit, hlarge⟩ := not_or.1 hsmall
    rcases cInt_cases v.length with ⟨-, heq⟩ | ⟨hbig, -⟩
    · have hwhole : (cValLen v).toNat = v.length := by
        unfold cValLen
        rw [heq, Int.toNat_natCast]
      rw [hwhole, List.take_of_length_le (le_nSplits _)]
    · exact absurd ⟨⟨by simpa using hsplit, hvalid, hkey, not_le.1 hlarge, hlen⟩, hbig⟩ hcut

/-- Of a value that is cut some chunks are kept. -/
theorem Cut.kept_spec {v : Bytes} (h : Cut cl key v) :
    kept cl v <+: v ∧ kept cl v ≠ v ∧ 2 ≤ (kept cl v).length := by
  obtain ⟨htwo, hn⟩ := h.nSplits_bounds
  have hlength : nSplits (cValLen v).toNat * doubanChunkSize < v.length :=
    (Nat.mul_le_mul_right doubanChunkSize hn).trans_lt
      (lt_of_lt_of_le (by norm_num [doubanChunkSize]) h.large)
  have hkept : kept cl v = v.take (nSplits (cValLen v).toNat * doubanChunkSize) :=
    if_neg h.not_small
  have hlen : (v.take (nSplits (cValLen v).toNat * doubanChunkSize)).length =
      nSplits (cValLen v).toNat * doubanChunkSize := by
    rw [List.length_take, min_eq_left hlength.le]
  rw [hkept]
  refine ⟨List.take_prefix _ _, fun heq => ?_, by omega⟩
  have := congrArg List.length heq
  omega

/-- **A value that was cut off is not read back**, by libraries that notice it. -/
theorem decode_prefix (hc : c.Lawful) (hstrict : c.Strict) {compThreshold : ℤ}
    (h : encodeValue c val compThreshold = some (bs, flags)) {p : Bytes} (hp : p <+: bs)
    (hne : p ≠ bs) (htwo : 2 ≤ p.length) : decodeValue c p flags ≠ some (some val) := by
  obtain ⟨⟨encVal, fl⟩, henc, heq⟩ := Option.map_eq_some_iff.1 h
  obtain ⟨hmem, -⟩ := decode_encodeByType hc henc
  obtain ⟨hno, hyes, -⟩ := typeFlags_spec fl hmem
  simp only at heq
  unfold decodeValue
  split_ifs at heq
  · obtain ⟨rfl, rfl⟩ := Prod.mk.inj heq
    rw [if_pos hyes, hstrict.decompress encVal p hp hne]
    exact nofun
  · obtain ⟨rfl, rfl⟩ := Prod.mk.inj heq
    rw [hno, if_neg Bool.false_ne_true]
    cases val with
    | bytes b =>
      obtain ⟨rfl, rfl⟩ := Prod.mk.inj (Option.some.inj henc)
      exact fun hdec => hne (PyObject.bytes.inj (Option.some.inj (Option.some.inj hdec)))
    | bool b =>
      have hone : encVal.length = 1 := by
        obtain ⟨rfl, -⟩ := Prod.mk.inj (Option.some.inj henc)
        cases b <;> rfl
      have := hp.length_le
      omega
    | int n =>
      obtain ⟨rfl, rfl⟩ := Prod.mk.inj (Option.some.inj henc)
      obtain ⟨m, rfl⟩ := Decimal.signed_of_prefix hp htwo
      show ((decodeAscii (intStr m)).bind c.toInt).map _ ≠ _
      rw [decodeAscii_intStr, Option.bind_some, hc.toInt_intStr]
      rintro hdec
      obtain rfl : m = n := PyObject.int.inj (Option.some.inj (Option.some.inj hdec))
      exact hne rfl
    | other o =>
      have hpickle : (c.pickleDumps o).map (·, flagPickle) = some (encVal, fl) →
          decodeByFlags c p fl ≠ some (some (.other o)) := by
        intro h
        obtain ⟨b, hb, heq⟩ := Option.map_eq_some_iff.1 h
        obtain ⟨rfl, rfl⟩ := Prod.mk.inj heq
        show some (c.pickleLoads p) ≠ _
        rw [hstrict.pickle o b p hb hp hne]
        exact nofun
      simp only [encodeByType] at henc
      split_ifs at henc
      · exact hpickle henc
      · rcases hm : c.marshalDumps o with _ | b
        · rw [hm] at henc
          exact hpickle henc
        · rw [hm] at henc
          obtain ⟨rfl, rfl⟩ := Prod.mk.inj (Option.some.inj henc)
          show some (c.marshalLoads p) ≠ _
          rw [hstrict.marshal o b p hm hp hne]
          exact nofun

/-! ### What `set` stores, `get` returns -/

/-- `set`, by its key and its value as they are stored. -/
theorem exec_set_true {compress : Bool} :
    Session.exec idealServer (cl.set c key val compress) s = (some (some true), s') ↔
      ∃ key2 encVal flags, cl.normalizeKey key = pure key2 ∧
        encodeValue c val (if compress then cl.compThreshold else 0) = some (encVal, flags) ∧
        Session.exec idealServer (cl.set_ key2 encVal flags) s = (some true, s') := by
  unfold set
  rcases henc : encodeValue c val (if compress then cl.compThreshold else 0) with _ | ⟨encVal, flags⟩
  · exact iff_of_false nofun nofun
  · unfold setRaw
    rcases cl.normalizeKey_cases key with ⟨key2, hnorm⟩ | hnorm
    · rw [hnorm]
      simp only [Session.pure_bind]
      constructor
      · intro h
        obtain ⟨rv, t, hset, hret⟩ := Session.exec_bind_eq_some h
        obtain ⟨hrv, rfl⟩ := Prod.mk.inj hret
        obtain rfl : rv = true := Option.some.inj (Option.some.inj hrv)
        exact ⟨key2, encVal, flags, rfl, rfl, hset⟩
      · rintro ⟨key3, encVal', flags', hkey, henc', hset⟩
        obtain rfl : key2 = key3 := Session.ret.inj hkey
        obtain ⟨rfl, rfl⟩ := Prod.mk.inj (Option.some.inj henc')
        rw [Session.exec_bind_some hset]
        rfl
    · rw [hnorm]
      refine iff_of_false nofun ?_
      rintro ⟨key3, -, -, hkey, -⟩
      cases hkey

theorem get_of_exec (hc : c.Lawful) (hno : cl.noreply = false) {compThreshold : ℤ}
    {key2 encVal : Bytes} (hnorm : cl.normalizeKey key = pure key2)
    (henc : encodeValue c val compThreshold = some (encVal, flags))
    (h : Session.exec idealServer (cl.set_ key2 encVal flags) s = (some true, s')) :
    Session.exec idealServer (cl.get c key) s' = (decodeValue c (kept cl encVal) flags, s') := by
  obtain ⟨hflags, -⟩ := decode_encodeValue hc henc
  unfold get
  rw [Session.exec_bind_some (getRaw_stored hc hflags hnorm (stored_of_exec hno h))]
  exact Session.exec_ofOption _ _

/-- **What `set` stores, `get` returns**, exactly if the value is not cut: if `set` returns `True` on
a store without other writers, `get` of the same key returns the value. -/
theorem get_after_set_iff (hc : c.Lawful) (hstrict : c.Strict) (cl : PyClient)
    (hno : cl.noreply = false) (key : Bytes) (val : PyObject Obj) (compress : Bool) (s : Store) :
    (∀ s', Session.exec idealServer (cl.set c key val compress) s = (some (some true), s') →
        Session.exec idealServer (cl.get c key) s' = (some (some val), s')) ↔
      ∀ key2 encVal flags, cl.normalizeKey key = pure key2 →
        encodeValue c val (if compress then cl.compThreshold else 0) = some (encVal, flags) →
          ¬ Cut cl key2 encVal := by
  constructor
  · intro h key2 encVal flags hnorm henc hcut
    obtain ⟨hpre, hne, htwo⟩ := hcut.kept_spec
    have hset := hcut.exec_set hno flags s
    have hget := h _ (exec_set_true.2 ⟨key2, encVal, flags, hnorm, henc, hset⟩)
    rw [get_of_exec hc hno hnorm henc hset] at hget
    exact decode_prefix hc hstrict henc hpre hne htwo (Prod.mk.inj hget).1
  · intro h s' hset
    obtain ⟨key2, encVal, flags, hnorm, henc, hset⟩ := exec_set_true.1 hset
    obtain ⟨hfits, -⟩ := (exec_set_iff hno).1 hset
    have hwhole := kept_eq_self (h key2 encVal flags hnorm henc) hfits (stored_of_exec hno hset).valid
    rw [get_of_exec hc hno hnorm henc hset, hwhole, (decode_encodeValue hc henc).2]

/-- The libraries on objects that are `bytes`, `bool` or `int`, and with nothing compressed. -/
def plainCodecs : Codecs Empty where
  isNumpy := nofun
  compress := id
  decompress := some
  marshalDumps := nofun
  marshalLoads _ := none
  pickleDumps := nofun
  pickleLoads _ := none
  toInt bs := some (if bs.head? = some 45 then -Decimal.value bs.tail else Decimal.value bs)

theorem plainCodecs_lawful : plainCodecs.Lawful where
  decompress_compress _ := rfl
  marshal := nofun
  pickle := nofun
  toInt_intStr val := by
    refine congrArg some ?_
    unfold intStr Decimal.signed
    split_ifs with h hhead hhead
    · rw [List.tail_cons, Decimal.value_numeral]
      omega
    · exact absurd rfl hhead
    · exact absurd (ascii_of_mem_numeral (List.mem_of_mem_head? hhead)).1 (by decide)
    · rw [Decimal.value_numeral]
      omega

/-- The bytes behind a mark each, and a mark for the end. -/
def frame (bs : Bytes) : Bytes := bs.flatMap (fun b => [1, b]) ++ [0]

def unframe : Bytes → Option Bytes
  | [0] => some []
  | 1 :: b :: rest => (unframe rest).map (b :: ·)
  | _ => none

theorem unframe_frame (bs : Bytes) : unframe (frame bs) = some bs := by
  induction bs with
  | nil => rfl
  | cons b bs ih => exact congrArg (Option.map (b :: ·)) ih

theorem unframe_prefix {p : Bytes} (hp : p <+: frame bs) (hne : p ≠ frame bs) :
    unframe p = none := by
  induction bs generalizing p with
  | nil =>
    rcases List.prefix_cons_iff.1 hp with rfl | ⟨q, rfl, hq⟩
    · rfl
    · rw [List.prefix_nil.1 hq] at hne
      exact absurd rfl hne
  | cons b bs ih =>
    rcases List.prefix_cons_iff.1 hp with rfl | ⟨q, rfl, hq⟩
    · rfl
    · rcases List.prefix_cons_iff.1 hq with rfl | ⟨r, rfl, hr⟩
      · rfl
      · have hrest : unframe r = none := ih hr fun heq => hne (by rw [heq]; rfl)
        exact congrArg (Option.map (b :: ·)) hrest

/-- The same libraries, with values in frames in place of compressed ones. -/
def framedCodecs : Codecs Empty := { plainCodecs with compress := frame, decompress := unframe }

theorem framedCodecs_lawful : framedCodecs.Lawful :=
  { plainCodecs_lawful with decompress_compress := unframe_frame }

theorem framedCodecs_strict : framedCodecs.Strict where
  decompress _ _ := unframe_prefix
  marshal := nofun
  pickle := nofun

theorem encodeValue_bytes (c : Codecs Obj) (v : Bytes) :
    encodeValue c (.bytes v) (if true then ({} : PyClient).compThreshold else 0) =
      some (v, flagEmpty) := by
  simp [encodeValue, encodeByType]

theorem chunked_replicate : Chunked {} (ascii "k") (List.replicate 1000001 97) := by
  have hint : cValLen (List.replicate 1000001 97) = 1000001 := by
    unfold cValLen
    rw [List.length_replicate, cInt_of_lt (by decide)]
    rfl
  exact ⟨rfl, by decide, by decide, by rw [hint]; decide, by rw [hint]; decide⟩

/-- A value of two chunks. -/
theorem get_after_set_iff_chunks :
    let v : Bytes := List.replicate 1000001 97
    ∃ s', Session.exec idealServer (set framedCodecs {} (ascii "k") (.bytes v) true)
        (fun _ => none) = (some (some true), s') ∧
      Session.exec idealServer (get framedCodecs {} (ascii "k")) s' =
        (some (some (.bytes v)), s') := by
  intro v
  have hlen : v.length = 1000001 := List.length_replicate
  have hset := exec_set_true.2 ⟨_, _, _, rfl, encodeValue_bytes framedCodecs v,
    chunked_replicate.exec_set rfl flagEmpty fun _ => none⟩
  refine ⟨_, hset, (get_after_set_iff framedCodecs_lawful framedCodecs_strict {} rfl (ascii "k")
    (.bytes v) true _).2 ?_ _ hset⟩
  intro key2 encVal flags _ henc hcut
  obtain ⟨rfl, -⟩ := Prod.mk.inj (Option.some.inj ((encodeValue_bytes framedCodecs v).symm.trans henc))
  exact absurd hcut.large (by rw [hlen]; decide)

/-- **A value that is cut**: of `2 ^ 32 + 2000000` bytes two chunks are stored, and `set` returns
`True`. -/
theorem get_after_set_cut :
    let v : Bytes := List.replicate (2 ^ 32 + 2000000) 97
    ∃ s', Session.exec idealServer (set plainCodecs {} (ascii "k") (.bytes v) true)
        (fun _ => none) = (some (some true), s') ∧
      Session.exec idealServer (get plainCodecs {} (ascii "k")) s' ≠
        (some (some (.bytes v)), s') := by
  intro v
  have hlen : v.length = 2 ^ 32 + 2000000 := List.length_replicate
  have hint : cValLen v = 2000000 := by
    unfold cValLen
    rw [hlen]
    decide
  have hcut : Cut {} (ascii "k") v :=
    ⟨⟨rfl, by decide, by decide, by rw [hint]; decide, by rw [hint]; decide⟩, by rw [hlen]; decide⟩
  obtain ⟨-, hne, -⟩ := hcut.kept_spec
  have hset := hcut.exec_set rfl flagEmpty fun _ => none
  refine ⟨_, exec_set_true.2 ⟨_, _, _, rfl, encodeValue_bytes plainCodecs v, hset⟩, ?_⟩
  rw [get_of_exec plainCodecs_lawful rfl rfl (encodeValue_bytes plainCodecs v) hset]
  intro heq
  exact hne (PyObject.bytes.inj (Option.some.inj (Option.some.inj (Prod.mk.inj heq).1)))

end PyClient

end Libmc
