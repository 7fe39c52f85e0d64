import Libmc.ItemBytes

/-!
# What a server makes of an item

A server splits the line of a command at runs of spaces, so an empty field is no field. A line with
other fields than its command has is answered with an error, and the next line is read as a command.
`isValidKey` accepts the empty key: the line of an item with it lacks a field, and its value is
executed (`serve_unsafe`). With any other key, and a `cas` number below `2 ^ 63`, an item is one
command, and the value is its data (`readAs_iff`).
-/

namespace Libmc

/-! ## The server -/

def serverFields (line : Bytes) : List Bytes := (line.splitOn space).filter (· ≠ [])

def serverNumber (w : Bytes) : Option ℤ :=
  if w ≠ [] ∧ w.all isDigit then some (Decimal.value w) else none

/-- `<cas unique>`, for `cas` only. -/
def serverCas (op : OpCode) (args : List Bytes) : Option (Option ℤ × List Bytes) :=
  if op = .cas then
    match args with
    | w :: args => (serverNumber w).map fun n => (some n, args)
    | [] => none
  else some (none, args)

/-- `<key> <flags> <exptime> <bytes>[ <cas unique>][ noreply]`: the number of bytes, and the command
that they complete. -/
def serverStorage (op : OpCode) (args : List Bytes) : Option (ℤ × (Bytes → Command)) :=
  match args with
  | key :: flags :: exptime :: bytes :: args =>
    if key.length ≤ maxKeyLength then do
      let flags ← serverNumber flags
      let exptime ← readNumber exptime
      let len ← serverNumber bytes
      let (casUnique, args) ← serverCas op args
      let noreply ← readNoreply args
      return (len, fun value => .storage op key flags exptime casUnique value noreply)
    else none
  | _ => none

/-- What a server does with the front of its input. -/
inductive Served
  | command (cmd : Command)
  | error (line : Bytes)
  deriving DecidableEq, Repr

def serveLine (line rest : Bytes) : Option (Command × Bytes) → Option (Served × Bytes)
  | some (cmd, rest) => some (.command cmd, rest)
  | none => some (.error line, rest)

/-- The data block of a storage command; one that does not end with `\r\n` is passed over. -/
def serveData (line rest : Bytes) (len : ℤ) (command : Bytes → Command) : Option (Served × Bytes) :=
  match readData len rest with
  | some (value, rest) => some (.command (command value), rest)
  | none =>
    if rest.length < len.toNat + 2 then none else some (.error line, rest.drop (len.toNat + 2))

/-- The first line and its data, if all of it is there, and what comes after it. -/
def serve (bs : Bytes) : Option (Served × Bytes) := do
  let (line, rest) ← splitLine bs
  match serverFields line with
  | [] => serveLine line rest none
  | w :: args =>
    match readWord w with
    | none => serveLine line rest none
    | some op =>
      if op ∈ [OpCode.set, .add, .replace, .append, .prepend, .cas] then
        match serverStorage op args with
        | none => serveLine line rest none
        | some (len, command) => serveData line rest len command
      else serveLine line rest (readArgs op args rest)

/-- Whatever comes after it, what is queued is one storage command on this key with this value. -/
def ReadAs (queued : Bytes) (op : OpCode) (key value : Bytes) : Prop :=
  ∀ rest, ∃ flags exptime casUnique noreply, serve (queued ++ rest) =
    some (.command (.storage op key flags exptime casUnique value noreply), rest)

/-! ## The fields of an item -/

variable {c : Connection} {bs rest : Bytes} {item : StorageItem} {n : ℤ}

theorem serverNumber_signed (h : 0 ≤ n) : serverNumber (Decimal.signed n) = some n := by
  rw [Decimal.signed_of_nonneg h, serverNumber,
    if_pos ⟨Decimal.numeral_ne_nil _, all_isDigit_numeral _⟩, Decimal.value_numeral]
  congr 1
  omega

theorem serverNumber_minus (h : n < 0) : serverNumber (Decimal.signed n) = none := by
  rw [Decimal.signed_of_neg h]
  exact if_neg fun hall => absurd hall.2 (by simp [isDigit])

theorem signed_ne_nil (n : ℤ) : Decimal.signed n ≠ [] := by
  unfold Decimal.signed
  split_ifs
  · exact List.cons_ne_nil _ _
  · exact Decimal.numeral_ne_nil _

theorem serverFields_line {cmd : Command} (h : cmd.Valid) :
    serverFields cmd.line = cmd.fields.filter (· ≠ []) := by
  unfold serverFields Command.line
  rw [List.splitOn_intercalate space (fun l hl => (h.isField l hl).1) cmd.fields_ne_nil]

def afterKey (flags exptime len : ℤ) (casUnique : Option ℤ) (noreply : Bool) : List Bytes :=
  Decimal.signed flags :: Decimal.signed exptime :: Decimal.signed len ::
    (casUnique.toList.map Decimal.signed ++ Command.noreplyField noreply)

theorem filter_afterKey (flags exptime len : ℤ) (casUnique : Option ℤ) (noreply : Bool) :
    (afterKey flags exptime len casUnique noreply).filter (· ≠ []) =
      afterKey flags exptime len casUnique noreply := by
  rw [List.filter_eq_self]
  intro w hw
  rw [decide_eq_true_eq]
  simp only [afterKey, List.mem_cons, List.mem_append, List.mem_map] at hw
  rcases hw with rfl | rfl | rfl | ⟨n, -, rfl⟩ | hw
  · exact signed_ne_nil _
  · exact signed_ne_nil _
  · exact signed_ne_nil _
  · exact signed_ne_nil _
  · rw [mem_noreplyField hw]
    decide

variable {op : OpCode} {key : Bytes} {flags exptime len : ℤ} {casUnique : Option ℤ} {noreply : Bool}

theorem serverCas_fields (h : casUnique.isSome = decide (op = .cas)) (hpos : ∀ n ∈ casUnique, 0 ≤ n)
    (args : List Bytes) :
    serverCas op (casUnique.toList.map Decimal.signed ++ args) = some (casUnique, args) := by
  unfold serverCas
  cases casUnique with
  | none =>
    have hop : op ≠ .cas := fun hop => by simp [hop] at h
    rw [if_neg hop]
    rfl
  | some n =>
    have hop : op = .cas := by simpa using h.symm
    rw [if_pos hop]
    show (serverNumber (Decimal.signed n)).map _ = _
    rw [serverNumber_signed (hpos n rfl)]
    rfl

theorem serverStorage_afterKey (hkey : key.length ≤ maxKeyLength)
    (hcas : casUnique.isSome = decide (op = .cas)) (hpos : ∀ n ∈ casUnique, 0 ≤ n)
    (hflags : 0 ≤ flags) (hlen : 0 ≤ len) :
    serverStorage op (key :: afterKey flags exptime len casUnique noreply) =
      some (len, fun value => .storage op key flags exptime casUnique value noreply) := by
  unfold serverStorage afterKey
  simp only [if_pos hkey, serverNumber_signed hflags, serverNumber_signed hlen, readNumber_signed,
    serverCas_fields hcas hpos, readNoreply_noreplyField, Option.bind_eq_bind, Option.bind_some,
    Option.pure_def]

/-- A number with a minus sign is no `cas` number. -/
theorem serverStorage_minus (hn : n < 0) :
    serverStorage .cas (key :: afterKey flags exptime len (some n) noreply) = none := by
  have hcas : ∀ args, serverCas .cas (Decimal.signed n :: args) = none := by
    intro args
    unfold serverCas
    rw [if_pos rfl]
    show (serverNumber (Decimal.signed n)).map _ = none
    rw [serverNumber_minus hn]
    rfl
  unfold serverStorage afterKey
  simp only [Option.toList_some, List.map_cons, List.map_nil, List.cons_append, hcas,
    Option.bind_eq_bind, Option.bind_none, Option.bind_fun_none, ite_self]

theorem serverNumber_noreply : serverNumber (ascii "noreply") = none := by decide

theorem serverCas_noreply (noreply : Bool) :
    serverCas .cas (Command.noreplyField noreply) = none := by
  cases noreply with
  | false => rfl
  | true =>
    show (serverNumber (ascii "noreply")).map (fun n => (some n, ([] : List Bytes))) = none
    rw [serverNumber_noreply]
    rfl

/-- Without its key a line lacks a field: `noreply`, or nothing, is where a number should be. -/
theorem serverStorage_noKey (hcas : casUnique.isSome = decide (op = .cas)) :
    serverStorage op (afterKey flags exptime len casUnique noreply) = none := by
  cases casUnique with
  | none =>
    cases noreply with
    | false => rfl
    | true =>
      unfold serverStorage afterKey
      simp only [Option.toList_none, List.map_nil, List.nil_append, Command.noreplyField, if_true,
        serverNumber_noreply, Option.bind_eq_bind, Option.bind_none, Option.bind_fun_none, ite_self]
  | some n =>
    obtain rfl : op = .cas := by simpa using hcas.symm
    unfold serverStorage afterKey
    simp only [Option.toList_some, List.map_cons, List.map_nil, List.cons_append, List.nil_append,
      serverCas_noreply, Option.bind_eq_bind, Option.bind_none, Option.bind_fun_none, ite_self]

/-! ## An item -/

theorem serve_storage {cmd : Command} (h : cmd.Valid) {op : StorageOp} {args : List Bytes}
    (hfields : cmd.fields.filter (· ≠ []) = op.1.word :: args) (rest : Bytes) :
    serve (cmd.bytes ++ rest) =
      match serverStorage op args with
      | none => some (.error cmd.line, cmd.data ++ rest)
      | some (len, command) => serveData cmd.line (cmd.data ++ rest) len command := by
  have hassoc : cmd.bytes ++ rest = cmd.line ++ crlf ++ (cmd.data ++ rest) :=
    List.append_assoc _ _ _
  unfold serve
  rw [hassoc, splitLine_append h.not_mem_line.1]
  simp only [Option.bind_eq_bind, Option.bind_some, serverFields_line h, hfields, readWord_word,
    if_pos op.2]
  rfl

theorem fields_storageCommand (op : StorageOp) (exptime : Int64) (noreply : Bool)
    (item : StorageItem) :
    (Request.storageCommand op exptime noreply item).fields.filter (· ≠ []) =
      op.1.word :: ([item.key].filter (· ≠ []) ++
        afterKey item.flags.toNat exptime.toInt item.val.length
          (if op.1 = .cas then some item.casUnique.toInt64.toInt else none) noreply) := by
  have hword : op.1.word ≠ [] := by
    cases op.1 <;> decide
  have hfields : (Request.storageCommand op exptime noreply item).fields =
      [op.1.word] ++ ([item.key] ++ afterKey item.flags.toNat exptime.toInt item.val.length
        (if op.1 = .cas then some item.casUnique.toInt64.toInt else none) noreply) := rfl
  rw [hfields, List.filter_append, List.filter_append, filter_afterKey,
    List.filter_cons_of_pos (by simpa using hword)]
  rfl

/-- An item with a key, and a `cas` number without a minus sign. -/
def StorageItem.Safe (op : OpCode) (item : StorageItem) : Prop :=
  item.key ≠ [] ∧ (op = .cas → item.casUnique.toNat < 2 ^ 63)

theorem serve_safe (op : StorageOp) (exptime : Int64) (noreply : Bool)
    (hkey : isValidKey item.key = true) (hsafe : item.Safe op) (rest : Bytes) :
    serve ((Request.storageCommand op exptime noreply item).bytes ++ rest) =
      some (.command (Request.storageCommand op exptime noreply item), rest) := by
  have hfields := fields_storageCommand op exptime noreply item
  rw [List.filter_cons_of_pos (by simpa using hsafe.1)] at hfields
  have hlen : item.key.length ≤ maxKeyLength := by
    unfold isValidKey at hkey
    rw [Bool.and_eq_true] at hkey
    simpa using hkey.1
  have hpos : ∀ n ∈ (if op.1 = .cas then some item.casUnique.toInt64.toInt else none), 0 ≤ n := by
    intro n hn
    split_ifs at hn with hop
    · obtain rfl := Option.some.inj hn
      rw [toInt_toInt64, if_pos (hsafe.2 hop)]
      omega
    · cases hn
  have hcas : (if op.1 = .cas then some item.casUnique.toInt64.toInt else none).isSome =
      decide (op.1 = .cas) := by
    split_ifs with hop <;> simp [hop]
  rw [serve_storage (storageCommand_valid op exptime noreply hkey) hfields]
  simp only [List.filter_nil, List.cons_append, List.nil_append,
    serverStorage_afterKey hlen hcas hpos (by omega : (0 : ℤ) ≤ item.flags.toNat)
      (by omega : (0 : ℤ) ≤ item.val.length)]
  unfold serveData
  have hdata : (Request.storageCommand op exptime noreply item).data = item.val ++ crlf := rfl
  rw [hdata, Command.readData_append]
  rfl

/-- The line of any other item is an error, and its value is read as the next command. -/
theorem serve_unsafe (op : StorageOp) (exptime : Int64) (noreply : Bool)
    (hkey : isValidKey item.key = true) (hsafe : ¬ item.Safe op) (rest : Bytes) :
    ∃ line, serve ((Request.storageCommand op exptime noreply item).bytes ++ rest) =
      some (.error line, item.val ++ crlf ++ rest) := by
  have hfields := fields_storageCommand op exptime noreply item
  have hnone : serverStorage op ([item.key].filter (· ≠ []) ++
      afterKey item.flags.toNat exptime.toInt item.val.length
        (if op.1 = .cas then some item.casUnique.toInt64.toInt else none) noreply) = none := by
    by_cases hnil : item.key = []
    · rw [List.filter_cons_of_neg (by simpa using hnil)]
      exact serverStorage_noKey (by split_ifs with hop <;> simp [hop])
    · have hbig : op.1 = .cas ∧ 2 ^ 63 ≤ item.casUnique.toNat := by
        by_contra hc
        refine hsafe ⟨hnil, fun hop => ?_⟩
        by_contra hlt
        exact hc ⟨hop, by omega⟩
      have hneg : item.casUnique.toInt64.toInt < 0 := by
        have := item.casUnique.toNat_lt
        rw [toInt_toInt64, if_neg (by omega)]
        omega
      rw [List.filter_cons_of_pos (by simpa using hnil), if_pos hbig.1, hbig.1]
      exact serverStorage_minus hneg
  refine ⟨(Request.storageCommand op exptime noreply item).line, ?_⟩
  rw [serve_storage (storageCommand_valid op exptime noreply hkey) hfields]
  simp only [hnone]
  rfl

/-- **What keeps a value from being executed.** At any connection that is being loaded, the bytes
queued for an item with a valid key are one storage command on that key with that value, exactly
when the key is not empty and the `cas` number of a `cas` command is below `2 ^ 63`. -/
theorem readAs_iff (h : c.bufferWriter.Loaded bs) (op : StorageOp) (exptime : Int64)
    (noreply : Bool) (item : StorageItem) (hkey : isValidKey item.key = true) :
    ReadAs (c.takenSince (c.takeStorage op exptime noreply item)) op item.key item.val ↔
      item.Safe op := by
  rw [Connection.takenSince_takeStorage h]
  constructor
  · intro hread
    by_contra hsafe
    obtain ⟨line, herr⟩ := serve_unsafe op exptime noreply hkey hsafe []
    obtain ⟨flags, exptime', casUnique, noreply', hcmd⟩ := hread []
    rw [herr] at hcmd
    cases hcmd
  · intro hsafe rest
    exact ⟨_, _, _, _, serve_safe op exptime noreply hkey hsafe rest⟩

/-- The value `v` under the key `k`. -/
theorem readAs_value :
    ReadAs (({} : Connection).takenSince
      (Connection.takeStorage .set 0 false ⟨ascii "k", 0, 0, ascii "v", by decide⟩ {})) .set
      (ascii "k") (ascii "v") := by
  have hload : ({} : Connection).bufferWriter.Loaded [] := BufferWriter.loaded_reset {}
  exact (readAs_iff hload ⟨.set, by decide⟩ 0 false ⟨ascii "k", 0, 0, ascii "v", by decide⟩
    (by decide)).2 ⟨by decide, fun hop => absurd hop (by decide)⟩

/-- The value `flush_all` under the empty key: it is executed. -/
theorem readAs_flushAll :
    isValidKey [] = true ∧
      ({} : Connection).takenSince
        (Connection.takeStorage .set 0 false ⟨[], 0, 0, ascii "flush_all", by decide⟩ {}) =
          ascii "set  0 0 9" ++ crlf ++ (ascii "flush_all" ++ crlf) ∧
      serve (ascii "set  0 0 9" ++ crlf ++ (ascii "flush_all" ++ crlf)) =
        some (.error (ascii "set  0 0 9"), ascii "flush_all" ++ crlf) ∧
      serve (ascii "flush_all" ++ crlf) = some (.command (.bare .flushall), []) ∧
      ¬ ReadAs (({} : Connection).takenSince
        (Connection.takeStorage .set 0 false ⟨[], 0, 0, ascii "flush_all", by decide⟩ {})) .set
        [] (ascii "flush_all") := by
  have hqueued : ({} : Connection).takenSince
      (Connection.takeStorage .set 0 false ⟨[], 0, 0, ascii "flush_all", by decide⟩ {}) =
        ascii "set  0 0 9" ++ crlf ++ (ascii "flush_all" ++ crlf) := by decide +kernel
  have hserve : serve (ascii "set  0 0 9" ++ crlf ++ (ascii "flush_all" ++ crlf)) =
      some (.error (ascii "set  0 0 9"), ascii "flush_all" ++ crlf) := by decide +kernel
  refine ⟨by decide, hqueued, hserve, by decide +kernel, fun h => ?_⟩
  obtain ⟨flags, exptime, casUnique, noreply, hcmd⟩ := h []
  rw [List.append_nil, hqueued, hserve] at hcmd
  cases hcmd

/-! ## The whole queue -/

theorem readN_safe (op : StorageOp) (exptime : Int64) (noreply : Bool) {items : List StorageItem}
    {k : ℕ} (hkeys : ∀ item ∈ items, isValidKey item.key = true)
    (hsafe : ∀ item ∈ items, item.Safe op) (hk : items.length ≤ k) :
    Framing.readN serve k ((items.map (Request.storageCommand op exptime noreply)).flatMap
      Command.bytes) =
      ((items.map (Request.storageCommand op exptime noreply)).map .command, []) := by
  induction items generalizing k with
  | nil => exact Framing.readN_none rfl
  | cons item items ih =>
    obtain ⟨k, rfl⟩ : ∃ m, k = m + 1 := ⟨k - 1, by rw [List.length_cons] at hk; omega⟩
    rw [List.map_cons, List.flatMap_cons, Framing.readN_some (serve_safe op exptime noreply
      (hkeys item List.mem_cons_self) (hsafe item List.mem_cons_self) _),
      ih (fun x hx => hkeys x (List.mem_cons_of_mem _ hx))
        (fun x hx => hsafe x (List.mem_cons_of_mem _ hx)) (by rw [List.length_cons] at hk; omega)]
    rfl

/-- **What a server reads of a storage command.** In any state between commands, if the items that
are routed to a connection are safe, its queue is read as their commands, and nothing else is
executed. -/
theorem dispatchStorage_served {rules : Rules} {p : ConnectionPool} {i : ℕ} (hp : Reachable rules p)
    (op : StorageOp) (exptime : Int64) (noreply : Bool) (items : List (StorageItem × Routed))
    (hc : ((Request.storage op exptime noreply items).dispatch p).conns[i]? = some c)
    (hsafe : ∀ item ∈ Request.itemsFor (·.key) i items, item.Safe op) :
    Framing.readAll serve c.bufferWriter.unread =
      (((Request.storage op exptime noreply items).commandsFor p i).map .command, []) := by
  have hlt : i < p.conns.length := by
    rw [← (Request.storage op exptime noreply items).dispatch_length p]
    exact (List.getElem?_eq_some_iff.1 hc).1
  obtain ⟨d, hd, hdis, -⟩ := (Request.storage op exptime noreply items).dispatches hp.clean
    (List.getElem?_eq_getElem hlt)
  obtain rfl := Option.some.inj (hd.symm.trans hc)
  have hkeys : ∀ item ∈ Request.itemsFor (·.key) i items, isValidKey item.key = true := by
    intro item hitem
    obtain ⟨routed, hrouted, rfl⟩ := List.mem_map.1 hitem
    exact (Bool.and_eq_true _ _ ▸ (List.mem_filter.1 hrouted).2).1
  rw [hdis.loaded.unread_eq]
  have hlen := Command.frames.flatMap_length ((Request.storage op exptime noreply
    items).commandsFor_valid (p := p) (i := i))
  rw [Request.commandsFor, List.length_map] at hlen
  exact readN_safe op exptime noreply hkeys hsafe hlen

end Libmc
