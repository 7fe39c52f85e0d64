import Libmc.ParserSteps
import Libmc.Result

/-!
# Replies to `get` and `gets`

The reply to a retrieval command is a list of items, each a header line and a data block, and
`END`. `process_packets_retrieval` says what is collected from a parser that has been given a
prefix of such a reply: the items whose header line and data lie inside the prefix, and nothing
else.
-/

namespace Libmc

structure Item where
  key : Bytes
  flags : ℕ
  data : Bytes
  cas : Option ℕ
  deriving DecidableEq, Repr

namespace Item

/-- The field of a `cas` number. -/
def casField : Option ℕ → Bytes
  | none => []
  | some cas => space :: Decimal.numeral cas

def header (i : Item) : Bytes :=
  ascii "VALUE " ++ i.key ++ space :: Decimal.numeral i.flags ++
    space :: Decimal.numeral i.data.length ++ casField i.cas ++ crlf

def bytes (i : Item) : Bytes := i.header ++ i.data ++ crlf

/-- What the numbers of the protocol can hold. -/
structure Valid (i : Item) : Prop where
  key_pos : 1 ≤ i.key.length
  key_le : i.key.length ≤ 250
  key_space : space ∉ i.key
  flags_lt : i.flags < 2 ^ 32
  data_lt : i.data.length < 2 ^ 32 - 1
  cas_lt : ∀ cas ∈ i.cas, cas < 2 ^ 64

def result (i : Item) : RetrievalResultInner where
  key := some i.key
  dataBlock := if i.data = [] then none else some i.data
  casUnique := i.cas.getD 0
  bytes := i.data.length
  flags := i.flags
  keyLen := i.key.length

end Item

def reply (items : List Item) : Bytes := items.flatMap Item.bytes ++ ascii "END\r\n"

/-- The items, from offset `off` on, whose header line and data lie inside the first `len` bytes. -/
def inside (len : ℕ) : ℕ → List Item → List Item
  | _, [] => []
  | off, i :: is =>
    (if off + i.header.length + i.data.length ≤ len then [i] else []) ++
      inside len (off + i.bytes.length) is

theorem inside_of_lt {len off : ℕ} (h : len < off) (is : List Item) : inside len off is = [] := by
  induction is generalizing off with
  | nil => rfl
  | cons i is ih =>
    rw [inside, if_neg (by omega), ih (by omega)]
    rfl

theorem inside_add (k len off : ℕ) (is : List Item) :
    inside (k + len) (k + off) is = inside len off is := by
  induction is generalizing off with
  | nil => rfl
  | cons i is ih =>
    rw [inside, inside, Nat.add_assoc k off i.bytes.length, ih]
    simp only [Nat.add_assoc, Nat.add_le_add_iff_left]

theorem mem_of_mem_inside {i : Item} {is : List Item} {len off : ℕ} (h : i ∈ inside len off is) :
    i ∈ is := by
  induction is generalizing off with
  | nil => cases h
  | cons j js ih =>
    rw [inside] at h
    rcases List.mem_append.1 h with h | h
    · split_ifs at h
      · exact List.mem_singleton.1 h ▸ List.mem_cons_self
      · cases h
    · exact List.mem_cons_of_mem j (ih h)

theorem inside_cons_whole (i : Item) (is : List Item) (n : ℕ) :
    inside (i.bytes.length + n) 0 (i :: is) = i :: inside n 0 is := by
  have hle : i.header.length + i.data.length ≤ i.bytes.length + n := by
    simp only [Item.bytes, List.length_append]
    omega
  have hrest := inside_add i.bytes.length n 0 is
  rw [Nat.add_zero] at hrest
  rw [inside, Nat.zero_add, Nat.zero_add, if_pos hle, hrest]
  rfl

theorem inside_cons_cut {i : Item} {len : ℕ} (h : len < i.bytes.length) (is : List Item) :
    inside len 0 (i :: is) = if i.header.length + i.data.length ≤ len then [i] else [] := by
  rw [inside, Nat.zero_add, Nat.zero_add, inside_of_lt h, List.append_nil]

namespace PacketParser

variable {v v' : Flat} {st st' st'' : ParserState} {kv kv' kv'' : RetrievalResult Bytes}
  {f g P t : Bytes} {i : Item} {c : UInt8} {n : ℕ}

/-! ### Reading the fields of an item -/

/-- The parser in the middle of an item. -/
def atItem (v : Flat) (st : ParserState) (kv : RetrievalResult Bytes) (P : Bytes) : Flat :=
  { v with state := st, retrievalResults := v.retrievalResults ++ [kv], bufferReader := P }

/-- The call asks for more bytes, with an item that is not finished. -/
def Waits (v v' : Flat) : Prop :=
  ∃ w kv, Loop.Returns body v' (.incompleteBufferErr, w) ∧
    w.retrievalResults = v.retrievalResults ++ [kv] ∧ kv.bytesRemain ≠ 0

/-- The bytes `f` take the parser from one place in an item to another, and less do not. -/
structure Takes (v : Flat) (st : ParserState) (kv : RetrievalResult Bytes) (f : Bytes)
    (st' : ParserState) (kv' : RetrievalResult Bytes) : Prop where
  reaches : ∀ P, Loop.Reaches body (v.atItem st kv (f ++ P)) (v.atItem st' kv' P)
  waits : ∀ P, P <+: f → P ≠ f → Waits v (v.atItem st kv P)

theorem prefix_append_cases (h : P <+: f ++ g) :
    (P <+: f ∧ P ≠ f) ∨ ∃ Q, P = f ++ Q ∧ Q <+: g := by
  by_cases hf : f <+: P
  · obtain ⟨Q, rfl⟩ := hf
    exact .inr ⟨Q, rfl, (List.prefix_append_right_inj f).1 h⟩
  · refine .inl ⟨?_, fun heq => hf (heq ▸ List.prefix_rfl)⟩
    exact (List.prefix_or_prefix_of_prefix h (List.prefix_append f g)).resolve_right hf

theorem Takes.trans (h : Takes v st kv f st' kv') (h' : Takes v st' kv' g st'' kv'') :
    Takes v st kv (f ++ g) st'' kv'' where
  reaches P := by
    rw [List.append_assoc]
    exact (h.reaches (g ++ P)).trans (h'.reaches P)
  waits P hP hne := by
    rcases prefix_append_cases hP with ⟨hP, hne⟩ | ⟨Q, rfl, hQ⟩
    · exact h.waits P hP hne
    · obtain ⟨w, kw, hret, hw⟩ := h'.waits Q hQ fun heq => hne (heq ▸ rfl)
      exact ⟨w, kw, (h.reaches Q).returns_iff.2 hret, hw⟩

theorem modifyKv_atItem (f : RetrievalResult Bytes → RetrievalResult Bytes) (v : Flat)
    (st : ParserState) (kv : RetrievalResult Bytes) (P : Bytes) :
    modifyKv f (v.atItem st kv P) = v.atItem st (f kv) P := by
  unfold modifyKv atItem
  simp only [List.modifyLast_concat]

theorem kv_atItem (v : Flat) (st : ParserState) (kv : RetrievalResult Bytes) (P : Bytes) :
    (v.atItem st kv P).kv = kv := by
  unfold PacketParser.kv atItem
  simp only [List.getLast?_concat, Option.getD_some]

theorem body_atItem (hm : v.mode = .endState) (hst : st.isEndState = false) :
    body (v.atItem st kv P) = goOn (stateAction st (v.atItem st kv P)) := by
  have hend : (v.atItem st kv P).canEndParse = false := by
    unfold canEndParse atItem
    rw [if_pos hm, hst]
  exact body_eq hend

theorem waits_round (kv' : RetrievalResult Bytes) (hm : v.mode = .endState) (hst : st.isEndState = false)
    (hrem : kv'.bytesRemain ≠ 0)
    (h : stateAction st (v.atItem st kv P) = (incomplete, v.atItem st kv' P)) :
    Waits v (v.atItem st kv P) := by
  have hbody : body (v.atItem st kv P) = .inr (.incompleteBufferErr, v.atItem st kv' P) := by
    rw [body_atItem hm hst, h]
    rfl
  exact ⟨_, kv', Loop.returns_of_inr hbody, rfl, hrem⟩

theorem takes_round (hm : v.mode = .endState) (hst : st.isEndState = false)
    (hfull : ∀ P, stateAction st (v.atItem st kv (f ++ P)) = (.ok (), v.atItem st' kv' P))
    (hshort : ∀ P, P <+: f → P ≠ f → ∃ kw : RetrievalResult Bytes, kw.bytesRemain ≠ 0 ∧
      stateAction st (v.atItem st kv P) = (incomplete, v.atItem st kw P)) :
    Takes v st kv f st' kv' := by
  refine ⟨fun P => .single ?_, fun P hP hne => ?_⟩
  · rw [body_atItem hm hst, hfull P]
    rfl
  · obtain ⟨kw, hkw, hact⟩ := hshort P hP hne
    exact waits_round kw hm hst hkw hact

/-- A proper prefix of a field and its terminator lies in the field. -/
theorem prefix_concat_ne {u : Bytes} (hP : P <+: u ++ [c]) (hne : P ≠ u ++ [c]) : P <+: u :=
  (List.prefix_concat_iff.1 hP).resolve_left hne

theorem leave_atItem (g : RetrievalResult Bytes → RetrievalResult Bytes) (P Q : Bytes) :
    setState st' (modifyKv g { v.atItem st kv P with bufferReader := Q }) =
      v.atItem st' (g kv) Q := by
  show setState st' (modifyKv g (v.atItem st kv Q)) = _
  rw [modifyKv_atItem]
  rfl

theorem takes_key {key : Bytes} (hm : v.mode = .endState) (hkey : space ∉ key)
    (hlen : key.length ≤ 250) (hrem : kv.bytesRemain ≠ 0) :
    Takes v .getStart kv (key ++ [space]) .getKey { kv with key := key, keyLen := key.length } := by
  refine takes_round hm rfl (fun P => ?_) fun P hP hne =>
    ⟨{ kv with key := [], keyLen := 0 }, hrem, ?_⟩
  · have hmod : key.length % 2 ^ 8 = key.length := Nat.mod_eq_of_lt (by omega)
    refine (getStart_at (t := P) (by simp [atItem]) hkey).trans ?_
    rw [leave_atItem, hmod]
  · have hsub := prefix_concat_ne hP hne
    refine (getStart_none fun hmem => hkey (hsub.subset hmem)).trans ?_
    rw [modifyKv_atItem]

theorem digits_of_cut (hP : P <+: Decimal.numeral n ++ [c]) (hne : P ≠ Decimal.numeral n ++ [c]) :
    ∀ x ∈ P, isDigit x := fun _ hx =>
  isDigit_of_mem_numeral ((prefix_concat_ne hP hne).subset hx)

theorem takes_flags (hm : v.mode = .endState) (hn : n < 2 ^ 32) (hc : isDigit c = false)
    (hrem : kv.bytesRemain ≠ 0) :
    Takes v .getKey kv (Decimal.numeral n ++ [c]) .getFlags { kv with flags := n } := by
  refine takes_round hm rfl (fun P => ?_) fun P hP hne => ⟨kv, hrem, ?_⟩
  · have hmod : foldDigits 0 (Decimal.numeral n) % 2 ^ 32 = n := by
      rw [foldDigits_numeral (by omega), Nat.mod_eq_of_lt hn]
    refine (getKey_at (t := P) (by simp [atItem]) (Decimal.numeral_ne_nil n)
      (fun _ => isDigit_of_mem_numeral) hc).trans ?_
    rw [leave_atItem, hmod]
  · exact ParseM.bind_error (readUnsigned_none (v := v.atItem .getKey kv P) (digits_of_cut hP hne))

theorem takes_bytes (hm : v.mode = .endState) (hn : n < 2 ^ 32 - 1) (hc : isDigit c = false)
    (hrem : kv.bytesRemain ≠ 0) :
    Takes v .getFlags kv (Decimal.numeral n ++ [c]) .getBytes
      { kv with bytes := n, bytesRemain := n + 1 } := by
  refine takes_round hm rfl (fun P => ?_) fun P hP hne => ⟨kv, hrem, ?_⟩
  · have hmod : foldDigits 0 (Decimal.numeral n) % 2 ^ 32 = n := by
      rw [foldDigits_numeral (by omega), Nat.mod_eq_of_lt (by omega)]
    have hsucc : (n + 1) % 2 ^ 32 = n + 1 := Nat.mod_eq_of_lt (by omega)
    refine (getFlags_at (t := P) (by simp [atItem]) (Decimal.numeral_ne_nil n)
      (fun _ => isDigit_of_mem_numeral) hc).trans ?_
    rw [leave_atItem, hmod, hsucc]
  · exact ParseM.bind_error (readUnsigned_none (v := v.atItem .getFlags kv P)
      (digits_of_cut hP hne))

/-- Without a `cas` number the state only looks at the line feed, which it leaves there. -/
theorem takes_lineEnd (hm : v.mode = .endState) (hrem : kv.bytesRemain ≠ 0)
    (hlt : kv.bytesRemain < 2 ^ 32) :
    Takes v .getCas kv [lf] .getValueRemaining { kv with bytesRemain := kv.bytesRemain - 1 } := by
  refine takes_round hm rfl (fun P => ?_) fun P hP hne => ⟨kv, hrem, ?_⟩
  · have hpred : (kv.bytesRemain + (2 ^ 32 - 1)) % 2 ^ 32 = kv.bytesRemain - 1 := by omega
    refine (getCas_at (t := P) rfl).trans ?_
    rw [leave_atItem, hpred]
  · obtain rfl : P = [] := List.prefix_nil.1 (prefix_concat_ne (u := []) hP hne)
    exact ParseM.bind_error (skipBytes_none (v := v.atItem .getCas kv []) Nat.one_pos)

/-- What follows the size in a header line, up to the line feed. -/
def casRest : Option ℕ → Bytes
  | none => []
  | some cas => Decimal.numeral cas ++ [cr]

theorem getBytes_waits (kv : RetrievalResult Bytes) (hu : ∀ x ∈ P, isDigit x)
    (hrem : kv.bytesRemain ≠ 0) : ∃ kw : RetrievalResult Bytes, kw.bytesRemain ≠ 0 ∧
      stateAction .getBytes (v.atItem .getBytes kv P) = (incomplete, v.atItem .getBytes kw P) := by
  have hget := getBytes_none (v := v.atItem .getBytes kv P) hu
  rw [modifyKv_atItem] at hget
  split_ifs at hget
  · exact ⟨kv, hrem, hget⟩
  · exact ⟨{ kv with casUnique := 0 }, hrem, hget⟩

theorem takes_cas {cas : Option ℕ} (hm : v.mode = .endState) (hcas : ∀ n ∈ cas, n < 2 ^ 64)
    (hrem : kv.bytesRemain ≠ 0) (hlt : kv.bytesRemain < 2 ^ 32) :
    Takes v .getBytes kv (casRest cas ++ [lf]) .getValueRemaining
      { kv with casUnique := cas.getD 0, bytesRemain := kv.bytesRemain - 1 } := by
  rcases cas with _ | n
  · -- the state only looks at the line feed, and leaves it to the next one
    have hline : Takes v .getCas { kv with casUnique := 0 } _ _ _ := takes_lineEnd hm hrem hlt
    refine ⟨fun P => .head ?_ (hline.reaches P), fun P hP hne => ?_⟩
    · have hlook := getBytes_lf (v := v.atItem .getBytes kv (lf :: P)) (t := P) rfl
      rw [modifyKv_atItem] at hlook
      show body (v.atItem .getBytes kv (lf :: P)) = _
      rw [body_atItem hm rfl]
      exact congrArg goOn hlook
    · obtain rfl : P = [] := List.prefix_nil.1 (prefix_concat_ne (u := []) hP hne)
      obtain ⟨kw, hkw, hact⟩ := getBytes_waits (v := v) kv (P := []) (by simp) hrem
      exact waits_round kw hm rfl hkw hact
  · have hnum : Takes v .getBytes kv (Decimal.numeral n ++ [cr]) .getCas
        { kv with casUnique := n } := by
      refine takes_round hm rfl (fun P => ?_) fun P hP hne =>
        getBytes_waits kv (digits_of_cut hP hne) hrem
      refine (getBytes_at (t := P) (by simp [atItem]) (Decimal.numeral_ne_nil n)
        (fun _ => isDigit_of_mem_numeral) isDigit_cr).trans ?_
      rw [leave_atItem, foldDigits_numeral (hcas n rfl)]
    exact hnum.trans (takes_lineEnd hm hrem hlt)

/-- The byte after the size. -/
def sizeEnd : Option ℕ → UInt8
  | none => cr
  | some _ => space

/-- The header line after `VALUE `. -/
def headerRest (i : Item) : Bytes :=
  i.key ++ [space] ++ (Decimal.numeral i.flags ++ [space]) ++
    (Decimal.numeral i.data.length ++ [sizeEnd i.cas]) ++ (casRest i.cas ++ [lf])

theorem header_eq (i : Item) : i.header = ascii "VALUE " ++ headerRest i := by
  unfold Item.header headerRest
  rcases i.cas with _ | n <;> simp [Item.casField, casRest, sizeEnd, crlf]

def headerResult (i : Item) : RetrievalResult Bytes where
  key := i.key
  dataBlock := []
  casUnique := i.cas.getD 0
  bytesRemain := i.data.length
  bytes := i.data.length
  flags := i.flags
  keyLen := i.key.length

def itemResult (i : Item) : RetrievalResult Bytes :=
  { headerResult i with dataBlock := i.data, bytesRemain := 0 }

theorem takes_header (hi : i.Valid) (hm : v.mode = .endState) :
    Takes v .getStart { key := [], dataBlock := [] } (headerRest i) .getValueRemaining
      (headerResult i) := by
  have hsep : isDigit (sizeEnd i.cas) = false := by
    rcases i.cas with _ | n
    · exact isDigit_cr
    · exact isDigit_space
  have hdata := hi.data_lt
  exact (((takes_key hm hi.key_space hi.key_le Nat.one_ne_zero).trans
    (takes_flags hm hi.flags_lt isDigit_space Nat.one_ne_zero)).trans
    (takes_bytes hm hi.data_lt hsep Nat.one_ne_zero)).trans
    (takes_cas hm hi.cas_lt (Nat.succ_ne_zero _) (by show i.data.length + 1 < 2 ^ 32; omega))

/-! ### Reading an item -/

theorem dataLeft_headerResult (i : Item) : dataLeft (headerResult i) = i.data.length := by
  show (if 0 < i.data.length then i.data.length else 0) = _
  split_ifs <;> omega

theorem itemResult_of_nil (h : i.data = []) : itemResult i = headerResult i := by
  unfold itemResult headerResult
  rw [h]
  rfl

theorem reaches_data (i : Item) (hm : v.mode = .endState) (P : Bytes) :
    body (v.atItem .getValueRemaining (headerResult i) (i.data ++ crlf ++ P)) =
      .inl (v.atItem .start (itemResult i) P) := by
  have hkv := kv_atItem v .getValueRemaining (headerResult i) (i.data ++ crlf ++ P)
  have hget := getValueRemaining_at (v := v.atItem .getValueRemaining (headerResult i) _)
    (u := i.data) (w := crlf) (t := P) rfl (by rw [hkv, dataLeft_headerResult]) rfl
  rw [body_atItem hm rfl]
  refine congrArg goOn (hget.trans (congrArg (Prod.mk (Except.ok ())) ?_))
  rw [hkv]
  split_ifs with hpos
  · exact leave_atItem _ _ _
  · rw [itemResult_of_nil (List.length_eq_zero_iff.1 (Nat.eq_zero_of_not_pos hpos))]
    rfl

/-- Less than the data block: the item stays unfinished. -/
theorem waits_data (i : Item) (hm : v.mode = .endState) (hP : P.length < i.data.length) :
    Waits v (v.atItem .getValueRemaining (headerResult i) P) := by
  have hkv := kv_atItem v .getValueRemaining (headerResult i) P
  have hne : i.data.length ≠ 0 := by omega
  refine waits_round (headerResult i) hm rfl hne ?_
  have hdata := readDataBlock_none (v := v.atItem .getValueRemaining (headerResult i) P)
    (by rw [hkv]; exact Nat.pos_of_ne_zero hne) (by rw [hkv]; exact hP)
  rw [modifyKv_atItem] at hdata
  exact ParseM.bind_error hdata

/-- The data block but not the line end after it: the item is finished. -/
theorem returns_data (i : Item) (hm : v.mode = .endState) {s : Bytes} (hs : s.length < 2) :
    Loop.Returns body (v.atItem .getValueRemaining (headerResult i) (i.data ++ s))
      (.incompleteBufferErr, v.atItem .getValueRemaining (itemResult i) s) := by
  have hkv := kv_atItem v .getValueRemaining (headerResult i) (i.data ++ s)
  have hdata : readDataBlock (v.atItem .getValueRemaining (headerResult i) (i.data ++ s)) =
      (.ok (), v.atItem .getValueRemaining (itemResult i) s) := by
    by_cases hpos : 0 < i.data.length
    · refine (readDataBlock_at (t := s) rfl (by rw [hkv]; exact hpos) (by rw [hkv]; rfl)).trans ?_
      exact congrArg (Prod.mk (Except.ok ())) (modifyKv_atItem _ v .getValueRemaining _ s)
    · have hnil : i.data = [] := List.length_eq_zero_iff.1 (by omega)
      rw [readDataBlock_done (by rw [hkv]; exact Nat.eq_zero_of_not_pos hpos),
        itemResult_of_nil hnil, hnil]
      rfl
  have hact : getValueRemaining (v.atItem .getValueRemaining (headerResult i) (i.data ++ s)) =
      (incomplete, v.atItem .getValueRemaining (itemResult i) s) := by
    unfold getValueRemaining
    rw [ParseM.bind_ok hdata]
    exact ParseM.bind_error (skipBytes_none hs)
  refine Loop.returns_of_inr ?_
  rw [body_atItem hm rfl]
  exact congrArg goOn hact

theorem canEndParse_start (hm : v.mode = .endState) (hst : v.state = .start) :
    v.canEndParse = false := by
  unfold canEndParse
  rw [if_pos hm, hst]
  rfl

theorem body_value (hm : v.mode = .endState) (hst : v.state = .start)
    (hr : v.bufferReader = ascii "VALUE " ++ P) :
    body v = .inl (v.atItem .getStart { key := [], dataBlock := [] } P) := by
  rw [body_start (canEndParse_start hm hst) hst, startState_value (w := [76, 85, 69, 32]) hr rfl]
  rfl

def afterItem (v : Flat) (i : Item) (P : Bytes) : Flat :=
  { v with retrievalResults := v.retrievalResults ++ [itemResult i], bufferReader := P }

theorem finished_afterItem (v : Flat) (i : Item) (P : Bytes) :
    (v.afterItem i P).finished = v.finished ++ [itemResult i] := by
  unfold finished afterItem
  rw [List.filter_append]
  rfl

/-- **A whole item** becomes a result. -/
theorem item_done (hi : i.Valid) (hm : v.mode = .endState) (hst : v.state = .start)
    (hr : v.bufferReader = i.bytes ++ P) : Loop.Reaches body v (v.afterItem i P) := by
  have hval : v.bufferReader = ascii "VALUE " ++ (headerRest i ++ (i.data ++ crlf ++ P)) := by
    rw [hr, Item.bytes, header_eq]
    simp only [List.append_assoc]
  have hdone := ((takes_header hi hm).reaches (i.data ++ crlf ++ P)).tail (reaches_data i hm P)
  have hstart : v.afterItem i P = v.atItem .start (itemResult i) P := by
    unfold afterItem atItem
    rw [hst]
  rw [hstart]
  exact .head (body_value hm hst hval) hdone

/-- What happens to an item of which only a beginning is there. -/
def Cut (v v' : Flat) (done : List (RetrievalResult Bytes)) : Prop :=
  ∃ w, Loop.Returns body v' (.incompleteBufferErr, w) ∧ w.finished = v.finished ++ done

theorem Waits.cut (h : Waits v v') : Cut v v' [] := by
  obtain ⟨w, kv, hret, hw, hrem⟩ := h
  refine ⟨w, hret, ?_⟩
  unfold finished
  rw [hw, List.filter_append, List.filter_singleton, decide_eq_false hrem]
  rfl

theorem Cut.of_reaches {u : Flat} {done : List (RetrievalResult Bytes)}
    (hreach : Loop.Reaches body u v') (h : Cut v v' done) : Cut v u done := by
  obtain ⟨w, hret, hw⟩ := h
  exact ⟨w, hreach.returns_iff.2 hret, hw⟩

theorem prefix_length_lt (h : P <+: f) (hne : P ≠ f) : P.length < f.length :=
  lt_of_le_of_ne h.length_le fun heq => hne (h.eq_of_length heq)

theorem cut_word (hm : v.mode = .endState) (hst : v.state = .start) (hP : v.bufferReader <+: f)
    (hne : v.bufferReader ≠ f)
    (hfull : (startState { v with bufferReader := f }).2.bufferReader = []) : Cut v v [] := by
  obtain ⟨b, hb⟩ := hP
  have hbne : b ≠ [] := fun hnil => hne (by rw [← hb, hnil, List.append_nil])
  have hshort := startState_short (v := v) hbne (by unfold feed; rwa [hb])
  have hbody : body v = .inr (.incompleteBufferErr, v) := by
    rw [body_start (canEndParse_start hm hst) hst, hshort]
    rfl
  exact ⟨v, Loop.returns_of_inr hbody, (List.append_nil _).symm⟩

/-- **A part of an item**: it is finished if the header line and the data are there. -/
theorem item_cut (hi : i.Valid) (hm : v.mode = .endState) (hst : v.state = .start)
    (hP : v.bufferReader <+: i.bytes) (hne : v.bufferReader ≠ i.bytes) :
    Cut v v (if i.header.length + i.data.length ≤ v.bufferReader.length then [itemResult i]
      else []) := by
  have hbytes : i.bytes = ascii "VALUE " ++ (headerRest i ++ (i.data ++ crlf)) := by
    rw [Item.bytes, header_eq]
    simp only [List.append_assoc]
  have hlen : i.header.length = 6 + (headerRest i).length := by
    rw [header_eq, List.length_append]
    rfl
  rw [hbytes] at hP hne
  rcases prefix_append_cases hP with ⟨hP, hne⟩ | ⟨Q, hQ, hQpre⟩
  · have hlt : v.bufferReader.length < 6 := prefix_length_lt hP hne
    rw [if_neg (by omega)]
    refine cut_word hm hst hP hne ?_
    rw [startState_value (w := [76, 85, 69, 32]) (t := []) rfl rfl]
    rfl
  · have hstart : Loop.Reaches body v (v.atItem .getStart { key := [], dataBlock := [] } Q) :=
      .single (body_value hm hst hQ)
    have hQlen : v.bufferReader.length = 6 + Q.length := by
      rw [hQ, List.length_append]
      rfl
    have hne' : Q ≠ headerRest i ++ (i.data ++ crlf) := fun heq => hne (by rw [hQ, heq])
    refine .of_reaches hstart ?_
    rcases prefix_append_cases hQpre with ⟨hQ, hne⟩ | ⟨D, rfl, hD⟩
    · have hlt := prefix_length_lt hQ hne
      rw [if_neg (by omega)]
      exact ((takes_header hi hm).waits Q hQ hne).cut
    · refine .of_reaches ((takes_header hi hm).reaches D) ?_
      rw [List.length_append] at hQlen
      rcases prefix_append_cases hD with ⟨hD, hne⟩ | ⟨s, rfl, hs⟩
      · have hlt := prefix_length_lt hD hne
        rw [if_neg (by omega)]
        exact (waits_data i hm hlt).cut
      · have hslt : s.length < 2 := prefix_length_lt hs fun heq => hne' (by rw [heq])
        rw [List.length_append] at hQlen
        rw [if_pos (by omega)]
        exact ⟨_, returns_data i hm hslt, finished_afterItem v i s⟩

theorem innerFlat_itemResult (hi : i.Valid) : innerFlat (itemResult i) = i.result := by
  have hkey : ¬ (itemResult i).keyLen = 0 := fun h => by
    have := hi.key_pos
    rw [show i.key.length = 0 from h] at this
    omega
  unfold innerFlat Item.result
  rw [if_neg hkey]
  simp only [itemResult, headerResult, List.length_eq_zero_iff]

/-! ### Reading a reply -/

theorem reply_cons (i : Item) (is : List Item) : reply (i :: is) = i.bytes ++ reply is := by
  unfold reply
  rw [List.flatMap_cons, List.append_assoc]

/-- How the call on a prefix of the rest of a reply ends. -/
structure Collects (v : Flat) (items : List Item) (e : ErrCode) (w : Flat) : Prop where
  code : e = if v.bufferReader = reply items then .ok else .incompleteBufferErr
  unread : v.bufferReader = reply items → w.bufferReader = []
  finished : w.finished = v.finished ++ (inside v.bufferReader.length 0 items).map itemResult

theorem returns_end (hm : v.mode = .endState) (hst : v.state = .start)
    (hP : v.bufferReader <+: reply []) :
    ∃ e w, Loop.Returns body v (e, w) ∧ Collects v [] e w := by
  by_cases heq : v.bufferReader = reply []
  · have hstep : startState v = (.ok (), setState .end_ { v with bufferReader := [] }) :=
      startState_end (w := [68, 13, 10]) heq rfl
    have hbody : body v = .inl (setState .end_ { v with bufferReader := [] }) := by
      rw [body_start (canEndParse_start hm hst) hst, hstep]
      rfl
    have hstop : (setState .end_ { v with bufferReader := [] } : Flat).canEndParse = true := by
      show (if v.mode = .endState then true else _) = true
      rw [if_pos hm]
    refine ⟨.ok, _, (Loop.returns_of_inl hbody).2
      (Loop.returns_of_inr (body_of_canEndParse hstop)), (if_pos heq).symm, fun _ => rfl, ?_⟩
    exact (List.append_nil _).symm
  · obtain ⟨w, hret, hw⟩ := cut_word hm hst hP heq (by
      rw [startState_end (w := [68, 13, 10]) (t := []) rfl rfl]
      rfl)
    exact ⟨_, w, hret, (if_neg heq).symm, fun h => absurd h heq, hw⟩

theorem returns_reply {items : List Item} (hv : ∀ i ∈ items, i.Valid) (hm : v.mode = .endState)
    (hst : v.state = .start) (hP : v.bufferReader <+: reply items) :
    ∃ e w, Loop.Returns body v (e, w) ∧ Collects v items e w := by
  induction items generalizing v with
  | nil => exact returns_end hm hst hP
  | cons i is ih =>
    have hi := hv i List.mem_cons_self
    rw [reply_cons] at hP
    rcases prefix_append_cases hP with ⟨hP, hne⟩ | ⟨Q, hQ, hQpre⟩
    · obtain ⟨w, hret, hw⟩ := item_cut hi hm hst hP hne
      have hlt := prefix_length_lt hP hne
      have hneq : v.bufferReader ≠ reply (i :: is) := fun heq => by
        rw [heq, reply_cons, List.length_append] at hlt
        omega
      refine ⟨_, w, hret, (if_neg hneq).symm, fun h => absurd h hneq, ?_⟩
      rw [hw, inside_cons_cut hlt, apply_ite (List.map itemResult)]
      rfl
    · have hreach := item_done hi hm hst hQ
      obtain ⟨e, w, hret, hcode, hunread, hfin⟩ := ih (v := v.afterItem i Q)
        (fun i' hi' => hv i' (List.mem_cons_of_mem i hi')) hm hst hQpre
      have hiff : v.bufferReader = reply (i :: is) ↔ Q = reply is := by
        rw [hQ, reply_cons, List.append_cancel_left_eq]
      refine ⟨e, w, hreach.returns_iff.2 hret, ?_, fun h => hunread (hiff.1 h), ?_⟩
      · rw [hcode]
        simp only [hiff]
        rfl
      · rw [hfin, finished_afterItem, hQ, List.length_append, inside_cons_whole, List.append_assoc]
        rfl

/-- **What is collected from a part of a reply.** A parser in `MODE_END_STATE` is given a prefix of a
reply in any chunks, with a call after each chunk. The last call returns `RET_OK` for the whole
reply, which it uses up, and asks for more bytes otherwise. The results collected then are the items
whose header line and data lie inside the prefix, in order. -/
theorem process_packets_retrieval (keys : List Bytes) (items : List Item)
    (hv : ∀ i ∈ items, i.Valid) (minCapacity : ℕ) (chunks : List Bytes) (hne : chunks ≠ [])
    (htail : ∀ c ∈ chunks.tail, c ≠ []) (hP : chunks.flatten <+: reply items) :
    ∃ n e q, (machine minCapacity).feedPieces n (fresh keys .endState) chunks =
        some (e, q, []) ∧
      e = (if chunks.flatten = reply items then .ok else .incompleteBufferErr) ∧
      collectRetrievalResult [q] = (inside chunks.flatten.length 0 items).map Item.result ∧
      (chunks.flatten = reply items → q.bufferReader.unread = []) := by
  obtain ⟨e, w, hret, hcode, hunread, hfin⟩ :
      ∃ e w, Loop.Returns body ((fresh keys .endState).view.feed chunks.flatten) (e, w) ∧
        Collects ((fresh keys .endState).view.feed chunks.flatten) items e w :=
    returns_reply hv rfl rfl hP
  obtain ⟨n, q, rest, hpieces, hok, hq⟩ :=
    feedPieces_of_returns (fresh_ok keys .endState) hne minCapacity hret
  obtain ⟨hsuf, hmore⟩ := Incremental.feedPieces_rest hpieces
  have hrest : rest = [] := by
    by_cases hall : chunks.flatten = reply items
    · have hnil : q.view.bufferReader ++ rest.flatten = [] :=
        (congrArg bufferReader hq).trans (hunread hall)
      refine List.eq_nil_iff_forall_not_mem.2 fun c hc => ?_
      exact htail c (hsuf.subset hc) (List.flatten_eq_nil_iff.1 (List.append_eq_nil_iff.1 hnil).2 c hc)
    · exact hmore (hcode.trans (if_neg hall))
  subst hrest
  have hview : q.view = w := by
    rw [← hq]
    unfold feed
    simp
  refine ⟨n, e, q, hpieces, hcode, ?_, fun hall => ?_⟩
  · have hfinq : q.view.finished = (inside chunks.flatten.length 0 items).map itemResult := by
      rw [hview]
      exact hfin
    have hlen : ∀ kv ∈ q.view.finished,
        kv.key.length = kv.keyLen ∧ kv.dataBlock.length = kv.bytes := by
      rw [hfinq]
      exact List.forall_mem_map.2 fun i _ => ⟨rfl, rfl⟩
    show [q].flatMap completeResults = _
    rw [List.flatMap_singleton, completeResults_eq hok hlen, hfinq, List.map_map]
    exact List.map_congr_left fun i hi => innerFlat_itemResult (hv i (mem_of_mem_inside hi))
  · rw [← hview] at hunread
    exact hunread hall

theorem process_packets_retrieval_cut :
    ∃ n e q, (machine 4).feedPieces n (fresh [] .endState)
        [ascii "VALUE a 0 2\r\n\r", ascii "\n\r\nVAL"] = some (e, q, []) ∧
      e = (if [ascii "VALUE a 0 2\r\n\r", ascii "\n\r\nVAL"].flatten =
        reply [⟨ascii "a", 0, crlf, none⟩, ⟨ascii "b", 0, [], some 7⟩] then .ok
        else .incompleteBufferErr) ∧
      collectRetrievalResult [q] =
        (inside [ascii "VALUE a 0 2\r\n\r", ascii "\n\r\nVAL"].flatten.length 0
          [⟨ascii "a", 0, crlf, none⟩, ⟨ascii "b", 0, [], some 7⟩]).map Item.result ∧
      ([ascii "VALUE a 0 2\r\n\r", ascii "\n\r\nVAL"].flatten =
        reply [⟨ascii "a", 0, crlf, none⟩, ⟨ascii "b", 0, [], some 7⟩] →
          q.bufferReader.unread = []) :=
  process_packets_retrieval [] [⟨ascii "a", 0, crlf, none⟩, ⟨ascii "b", 0, [], some 7⟩]
    (by
      intro i hi
      rcases List.mem_pair.1 hi with rfl | rfl
      · exact ⟨by decide, by decide, by decide, by decide, by decide, nofun⟩
      · exact ⟨by decide, by decide, by decide, by decide, by decide, by simp⟩)
    4 [ascii "VALUE a 0 2\r\n\r", ascii "\n\r\nVAL"] (by decide) (by decide)
    ⟨ascii "UE b 0 0 7\r\n\r\nEND\r\n", by
      have h0 : Decimal.numeral 0 = [48] := Decimal.numeral_of_lt (by decide)
      have h2 : Decimal.numeral 2 = [50] := Decimal.numeral_of_lt (by decide)
      have h7 : Decimal.numeral 7 = [55] := Decimal.numeral_of_lt (by decide)
      simp only [reply, Item.bytes, Item.header, Item.casField, List.flatMap_cons, List.flatMap_nil,
        show crlf.length = 2 from rfl, List.length_nil, h0, h2, h7]
      decide⟩

end PacketParser

end Libmc
