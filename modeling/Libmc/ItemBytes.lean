import Mathlib.Data.UInt
import Libmc.Dispatch
import Libmc.ParserRetrieval

/-!
# Numbers in a command

`takeNumber` writes a signed number, and `dispatchStorage` and `dispatchIncrDecr` give it an
unsigned one: the `cas` number of an item and the delta. Up to `2 ^ 63` the field is the numeral of
the number and is read back; from there on it has a minus sign (`carries_number_iff`).
-/

namespace Libmc

variable {c : Connection} {bs : Bytes}

/-- The fields of the first line of what is queued. -/
def lineFields (queued : Bytes) : List Bytes :=
  (splitLine queued).elim [] fun r => r.1.splitOn space

/-- The field `n` of a command is the numeral of `v`, and a reader that gets the field and what ends
it reads `v`. -/
structure Carries (queued : Bytes) (n : ℕ) (v : UInt64) : Prop where
  numeral : (lineFields queued)[n]? = some (Decimal.numeral v.toNat)
  readBack : ∀ field e t, (lineFields queued)[n]? = some field → isDigit e = false →
    ∀ r : BufferReader, r.Wf → r.unread = field ++ e :: t →
      ∃ r', r.readUnsigned = (.ok, v.toNat, r') ∧ r'.unread = e :: t

namespace Connection

/-- What a connection has queued since it was `c`. -/
def takenSince (c c' : Connection) : Bytes :=
  c'.bufferWriter.unread.drop c.bufferWriter.unread.length

theorem queued_self (h : c.bufferWriter.Loaded bs) :
    Queued c bs c.parser.requestKeys c.counter c where
  loaded := h
  parser_eq := rfl
  counter_eq := rfl
  socket _ := .inl ⟨rfl, rfl, rfl⟩

theorem takenSince_of_loaded {c' : Connection} {new : Bytes} (h : c.bufferWriter.Loaded bs)
    (h' : c'.bufferWriter.Loaded (bs ++ new)) : c.takenSince c' = new := by
  unfold takenSince
  rw [h.unread_eq, h'.unread_eq, List.drop_left]

theorem takenSince_takeStorage (h : c.bufferWriter.Loaded bs) (op : StorageOp) (exptime : Int64)
    (noreply : Bool) (item : StorageItem) :
    c.takenSince (c.takeStorage op exptime noreply item) =
      (Request.storageCommand op exptime noreply item).bytes :=
  takenSince_of_loaded h ((queued_self h).takeStorage op exptime noreply item).loaded

theorem takenSince_takeIncrDecr (h : c.bufferWriter.Loaded bs) (op : IncrDecrOp) (delta : UInt64)
    (noreply : Bool) (key : Bytes) :
    c.takenSince (c.takeIncrDecr op delta noreply key) =
      (Command.incrDecr op key delta.toInt64.toInt noreply).bytes :=
  takenSince_of_loaded h ((queued_self h).takeIncrDecr op delta noreply key).loaded

end Connection

/-! ### The field of a number -/

theorem lineFields_bytes {cmd : Command} (h : cmd.Valid) : lineFields cmd.bytes = cmd.fields := by
  unfold lineFields Command.bytes
  rw [splitLine_append h.not_mem_line.1]
  exact List.splitOn_intercalate space (fun l hl => (h.isField l hl).1) cmd.fields_ne_nil

theorem toInt_toInt64 (v : UInt64) :
    v.toInt64.toInt = if v.toNat < 2 ^ 63 then (v.toNat : ℤ) else v.toNat - 2 ^ 64 := by
  have hcond : v.toInt64.toInt = v.toBitVec.toInt := rfl
  rw [hcond, BitVec.toInt_eq_toNat_cond]
  have hnat : v.toBitVec.toNat = v.toNat := rfl
  rw [hnat]
  split_ifs <;> omega

theorem signed_eq_numeral_iff (v : UInt64) :
    Decimal.signed v.toInt64.toInt = Decimal.numeral v.toNat ↔ v.toNat < 2 ^ 63 := by
  rw [toInt_toInt64]
  split_ifs with h
  · rw [Decimal.signed_of_nonneg (by omega), Int.natAbs_natCast]
    exact iff_of_true rfl h
  · have hneg : ((v.toNat : ℤ) - 2 ^ 64) < 0 := by
      have := v.toNat_lt
      omega
    rw [Decimal.signed_of_neg hneg]
    refine iff_of_false (fun heq => ?_) h
    -- a numeral has no minus sign
    have hmem : (45 : UInt8) ∈ Decimal.numeral v.toNat := by
      rw [← heq]
      exact List.mem_cons_self
    exact absurd (Decimal.bounds_of_mem_numeral hmem).1 (by decide)

theorem readUnsigned_numeral (v : UInt64) {e : UInt8} {t : Bytes} (he : isDigit e = false)
    {r : BufferReader} (hr : r.Wf) (hunread : r.unread = Decimal.numeral v.toNat ++ e :: t) :
    ∃ r', r.readUnsigned = (.ok, v.toNat, r') ∧ r'.unread = e :: t := by
  obtain ⟨code, n, r', hread, hq, -⟩ := BufferReader.readUnsigned_unread hr
  have hdigits : ∀ x ∈ Decimal.numeral v.toNat, isDigit x = true :=
    List.all_eq_true.1 (all_isDigit_numeral _)
  rw [hunread, ByteQueue.readUnsigned_append (Decimal.numeral_ne_nil _) hdigits he,
    foldDigits_numeral v.toNat_lt] at hq
  injection hq with hcode hrest
  injection hrest with hn hunread'
  subst hcode hn
  exact ⟨r', hread, hunread'.symm⟩

theorem carries_iff {queued : Bytes} {n : ℕ} {v : UInt64}
    (h : (lineFields queued)[n]? = some (Decimal.signed v.toInt64.toInt)) :
    Carries queued n v ↔ v.toNat < 2 ^ 63 := by
  constructor
  · intro hc
    rw [← signed_eq_numeral_iff]
    exact Option.some.inj (h.symm.trans hc.numeral)
  · intro hv
    have hnumeral := (signed_eq_numeral_iff v).2 hv
    rw [hnumeral] at h
    refine ⟨h, fun field e t hfield he r hr hunread => ?_⟩
    obtain rfl := Option.some.inj (h.symm.trans hfield)
    exact readUnsigned_numeral v he hr hunread

theorem storageCommand_valid (op : StorageOp) (exptime : Int64) (noreply : Bool)
    {item : StorageItem} (hkey : isValidKey item.key = true) :
    (Request.storageCommand op exptime noreply item).Valid := by
  refine ⟨op.2, isField_of_isValidKey hkey, ?_⟩
  split_ifs with hop <;> simp [hop]

theorem carries_cas_iff (h : c.bufferWriter.Loaded bs) (exptime : Int64) (noreply : Bool)
    {item : StorageItem} (hkey : isValidKey item.key = true) :
    Carries (c.takenSince (c.takeStorage .cas exptime noreply item)) 5 item.casUnique ↔
      item.casUnique.toNat < 2 ^ 63 := by
  apply carries_iff
  rw [Connection.takenSince_takeStorage h ⟨.cas, by decide⟩,
    lineFields_bytes (storageCommand_valid _ exptime noreply hkey)]
  rfl

theorem carries_incrDecr_iff (h : c.bufferWriter.Loaded bs) (op : IncrDecrOp) (delta : UInt64)
    (noreply : Bool) {key : Bytes} (hkey : isValidKey key = true) :
    Carries (c.takenSince (c.takeIncrDecr op delta noreply key)) 2 delta ↔
      delta.toNat < 2 ^ 63 := by
  have hvalid : (Command.incrDecr op key delta.toInt64.toInt noreply).Valid :=
    ⟨op.2, isField_of_isValidKey hkey⟩
  apply carries_iff
  rw [Connection.takenSince_takeIncrDecr h, lineFields_bytes hvalid]
  rfl

/-- **Numbers in commands.** At any connection that is being loaded, and for any valid key, a `cas`
command and an `incr` or `decr` command carry the number `v` they are given exactly when it is below
`2 ^ 63`. -/
theorem carries_number_iff (h : c.bufferWriter.Loaded bs) (v : UInt64) (exptime : Int64)
    (noreply : Bool) {item : StorageItem} (hkey : isValidKey item.key = true)
    (hv : item.casUnique = v) (op : IncrDecrOp) :
    (Carries (c.takenSince (c.takeStorage .cas exptime noreply item)) 5 v ↔ v.toNat < 2 ^ 63) ∧
      (Carries (c.takenSince (c.takeIncrDecr op v noreply item.key)) 2 v ↔ v.toNat < 2 ^ 63) := by
  subst hv
  exact ⟨carries_cas_iff h exptime noreply hkey, carries_incrDecr_iff h op _ noreply hkey⟩

/-- A `cas` number and a delta of five. -/
theorem carries_number_five :
    Carries (({} : Connection).takenSince (Connection.takeStorage .cas 0 false
        ⟨ascii "k", 0, 5, ascii "v", by decide⟩ {})) 5 5 ∧
      Carries (({} : Connection).takenSince (Connection.takeIncrDecr .incr 5 false (ascii "k") {}))
        2 5 := by
  have hload : ({} : Connection).bufferWriter.Loaded [] := BufferWriter.loaded_reset {}
  have h := @carries_number_iff {} [] hload 5 0 false ⟨ascii "k", 0, 5, ascii "v", by decide⟩
    (by decide) rfl ⟨.incr, by decide⟩
  exact ⟨h.1.2 (by decide), h.2.2 (by decide)⟩

/-- A delta of `2 ^ 63` goes out with a minus sign. -/
theorem carries_number_minus :
    ({} : Connection).takenSince (Connection.takeIncrDecr .incr (2 ^ 63) false (ascii "k") {}) =
        ascii "incr k -9223372036854775808" ++ crlf ∧
      ¬ Carries (({} : Connection).takenSince
        (Connection.takeIncrDecr .incr (2 ^ 63) false (ascii "k") {})) 2 (2 ^ 63) := by
  refine ⟨by decide +kernel, fun h => ?_⟩
  have hload : ({} : Connection).bufferWriter.Loaded [] := BufferWriter.loaded_reset {}
  have hiff := @carries_incrDecr_iff {} [] hload ⟨.incr, by decide⟩ (2 ^ 63) false (ascii "k")
    (by decide)
  exact absurd (hiff.1 h) (by decide +kernel)

end Libmc
