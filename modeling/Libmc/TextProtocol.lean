import Libmc.Common
import Libmc.Support.Decimal
import Libmc.Support.Framing

/-!
# The commands of the text protocol

The grammar of `op_code_t`: a command is a line of fields with single spaces between them, ended by
`\r\n`; a storage command is followed by a data block of as many bytes as the line says, and
another `\r\n`. `readCommand` reads one command by this grammar, and `Command.bytes` writes one.
-/

namespace Libmc

/-- `op_code_t`. -/
inductive OpCode
  | set
  | add
  | replace
  | append
  | prepend
  | cas
  | get
  | gets
  | incr
  | decr
  | touch
  | delete
  | stats
  | flushall
  | version
  | quit
  deriving DecidableEq, Repr

def OpCode.word : OpCode → Bytes
  | set => ascii "set"
  | add => ascii "add"
  | replace => ascii "replace"
  | append => ascii "append"
  | prepend => ascii "prepend"
  | cas => ascii "cas"
  | get => ascii "get"
  | gets => ascii "gets"
  | incr => ascii "incr"
  | decr => ascii "decr"
  | touch => ascii "touch"
  | delete => ascii "delete"
  | stats => ascii "stats"
  | flushall => ascii "flush_all"
  | version => ascii "version"
  | quit => ascii "quit"

/-- A command; `bare` is one without arguments. -/
inductive Command
  | storage (op : OpCode) (key : Bytes) (flags exptime : ℤ) (casUnique : Option ℤ) (value : Bytes)
      (noreply : Bool)
  | retrieval (op : OpCode) (keys : List Bytes)
  | incrDecr (op : OpCode) (key : Bytes) (delta : ℤ) (noreply : Bool)
  | touch (key : Bytes) (exptime : ℤ) (noreply : Bool)
  | delete (key : Bytes) (noreply : Bool)
  | bare (op : OpCode)
  deriving DecidableEq, Repr

/-! ### Reading -/

/-- The line up to the first `\r\n`, and what comes after it. -/
def splitLine : Bytes → Option (Bytes × Bytes)
  | c :: d :: rest =>
    if c = cr ∧ d = lf then some ([], rest)
    else (splitLine (d :: rest)).map fun r => (c :: r.1, r.2)
  | _ => none

def readNumber : Bytes → Option ℤ
  | [] => none
  | c :: ds =>
    if c = 45 then if ds ≠ [] ∧ ds.all isDigit then some (-Decimal.value ds) else none
    else if (c :: ds).all isDigit then some (Decimal.value (c :: ds)) else none

/-- `[ noreply]` at the end of a line. -/
def readNoreply : List Bytes → Option Bool
  | [] => some false
  | [w] => if w = ascii "noreply" then some true else none
  | _ => none

/-- A data block of `len` bytes and its `\r\n`. -/
def readData (len : ℤ) (bs : Bytes) : Option (Bytes × Bytes) :=
  if 0 ≤ len ∧ (bs.drop len.toNat).take 2 = crlf then
    some (bs.take len.toNat, bs.drop (len.toNat + 2))
  else none

/-- `<cas unique>`, for `cas` only. -/
def readCas (op : OpCode) (args : List Bytes) : Option (Option ℤ × List Bytes) :=
  if op = .cas then
    match args with
    | w :: args => (readNumber w).map fun n => (some n, args)
    | [] => none
  else some (none, args)

/-- `<key> <flags> <exptime> <bytes>[ <cas unique>][ noreply]` and the data block. -/
def readStorage (op : OpCode) (args : List Bytes) (rest : Bytes) : Option (Command × Bytes) :=
  match args with
  | key :: flags :: exptime :: bytes :: args => do
    let flags ← readNumber flags
    let exptime ← readNumber exptime
    let len ← readNumber bytes
    let (casUnique, args) ← readCas op args
    let noreply ← readNoreply args
    let (value, rest) ← readData len rest
    return (.storage op key flags exptime casUnique value noreply, rest)
  | _ => none

/-- What comes after the name of a command. -/
def readArgs (op : OpCode) (args : List Bytes) (rest : Bytes) : Option (Command × Bytes) :=
  match op, args with
  | .get, keys => some (.retrieval .get keys, rest)
  | .gets, keys => some (.retrieval .gets keys, rest)
  | .incr, key :: delta :: args => do
    return (.incrDecr .incr key (← readNumber delta) (← readNoreply args), rest)
  | .decr, key :: delta :: args => do
    return (.incrDecr .decr key (← readNumber delta) (← readNoreply args), rest)
  | .touch, key :: exptime :: args => do
    return (.touch key (← readNumber exptime) (← readNoreply args), rest)
  | .delete, key :: args => do
    return (.delete key (← readNoreply args), rest)
  | .stats, [] => some (.bare .stats, rest)
  | .flushall, [] => some (.bare .flushall, rest)
  | .version, [] => some (.bare .version, rest)
  | .quit, [] => some (.bare .quit, rest)
  | .incr, _ | .decr, _ | .touch, _ | .delete, _ => none
  | .stats, _ | .flushall, _ | .version, _ | .quit, _ => none
  | op, args => readStorage op args rest

/-- The commands there are. -/
def OpCode.all : List OpCode :=
  [.set, .add, .replace, .append, .prepend, .cas, .get, .gets, .incr, .decr, .touch, .delete, .stats,
    .flushall, .version, .quit]

def readWord (w : Bytes) : Option OpCode := OpCode.all.find? fun op => op.word = w

def readCommand (bs : Bytes) : Option (Command × Bytes) := do
  let (line, rest) ← splitLine bs
  match line.splitOn space with
  | w :: args => do
    let op ← readWord w
    readArgs op args rest
  | [] => none

/-- The commands of a stream, and what is left of it. -/
def readCommands (bs : Bytes) : List Command × Bytes := Framing.readAll readCommand bs

/-! ### Writing -/

namespace Command

/-- `[ noreply]`. -/
def noreplyField (noreply : Bool) : List Bytes := if noreply then [ascii "noreply"] else []

def fields : Command → List Bytes
  | storage op key flags exptime casUnique value noreply =>
    [op.word, key, Decimal.signed flags, Decimal.signed exptime, Decimal.signed value.length] ++
      casUnique.toList.map Decimal.signed ++ noreplyField noreply
  | retrieval op keys => op.word :: keys
  | incrDecr op key delta noreply =>
    [op.word, key, Decimal.signed delta] ++ noreplyField noreply
  | touch key exptime noreply =>
    [OpCode.touch.word, key, Decimal.signed exptime] ++ noreplyField noreply
  | delete key noreply => [OpCode.delete.word, key] ++ noreplyField noreply
  | bare op => [op.word]

/-- What follows the line. -/
def data : Command → Bytes
  | storage _ _ _ _ _ value _ => value ++ crlf
  | _ => []

def line (c : Command) : Bytes := [space].intercalate c.fields

def bytes (c : Command) : Bytes := c.line ++ crlf ++ c.data

/-- A field: it has no space, `\r` or `\n`. -/
def IsField (w : Bytes) : Prop := space ∉ w ∧ cr ∉ w ∧ lf ∉ w

/-- The commands of each form, with keys that are fields. -/
def Valid : Command → Prop
  | storage op key _ _ casUnique _ _ =>
    op ∈ [.set, .add, .replace, .append, .prepend, .cas] ∧ IsField key ∧
      casUnique.isSome = decide (op = .cas)
  | retrieval op keys => op ∈ [.get, .gets] ∧ ∀ key ∈ keys, IsField key
  | incrDecr op key _ _ => op ∈ [.incr, .decr] ∧ IsField key
  | touch key _ _ => IsField key
  | delete key _ => IsField key
  | bare op => op ∈ [.stats, .flushall, .version, .quit]

end Command

/-! ### Lines -/

variable {c : UInt8} {s l rest : Bytes} {w key : Bytes} {op : OpCode} {n : ℤ} {noreply : Bool}

theorem splitLine_cons (hc : c ≠ cr) (hs : s ≠ []) :
    splitLine (c :: s) = (splitLine s).map fun r => (c :: r.1, r.2) := by
  cases s with
  | nil => exact absurd rfl hs
  | cons d s =>
    rw [splitLine]
    exact if_neg fun h => hc h.1

theorem splitLine_append (hl : cr ∉ l) : splitLine (l ++ crlf ++ rest) = some (l, rest) := by
  induction l with
  | nil => rfl
  | cons c l ih =>
    rw [List.mem_cons, not_or] at hl
    rw [List.cons_append, List.cons_append, splitLine_cons (Ne.symm hl.1) (by simp [crlf]), ih hl.2]
    rfl

theorem splitLine_of_not_mem (hs : lf ∉ s) : splitLine s = none := by
  induction s with
  | nil => rfl
  | cons c s ih =>
    rw [List.mem_cons, not_or] at hs
    cases s with
    | nil => rfl
    | cons d s =>
      rw [List.mem_cons, not_or] at hs
      rw [splitLine, if_neg fun h => hs.2.1 h.2.symm, ih (by simpa using hs.2)]
      rfl

/-! ### Numbers -/

theorem all_isDigit_numeral (n : ℕ) : (Decimal.numeral n).all isDigit := by
  rw [List.all_eq_true]
  intro c hc
  exact decide_eq_true (Decimal.bounds_of_mem_numeral hc)

theorem readNumber_signed (n : ℤ) : readNumber (Decimal.signed n) = some n := by
  rcases lt_or_ge n 0 with hn | hn
  · rw [Decimal.signed_of_neg hn, readNumber, if_pos rfl,
      if_pos ⟨Decimal.numeral_ne_nil _, all_isDigit_numeral _⟩, Decimal.value_numeral]
    congr 1
    omega
  · rw [Decimal.signed_of_nonneg hn]
    obtain ⟨c, ds, hcds⟩ := List.exists_cons_of_ne_nil (Decimal.numeral_ne_nil n.natAbs)
    have hc : c ≠ 45 := by
      have := (Decimal.bounds_of_mem_numeral (n := n.natAbs) (by rw [hcds]; exact List.mem_cons_self)).1
      rintro rfl
      exact absurd this (by decide)
    have hall := all_isDigit_numeral n.natAbs
    rw [hcds] at hall
    rw [hcds, readNumber, if_neg hc, if_pos hall, ← hcds, Decimal.value_numeral]
    congr 1
    omega

theorem isField_signed (n : ℤ) : Command.IsField (Decimal.signed n) := by
  have hdigit : ∀ c ∈ Decimal.signed n, c = 45 ∨ 48 ≤ c ∧ c ≤ 57 := by
    intro c hc
    unfold Decimal.signed at hc
    split_ifs at hc
    · rcases List.mem_cons.1 hc with rfl | hc
      · exact .inl rfl
      · exact .inr (Decimal.bounds_of_mem_numeral hc)
    · exact .inr (Decimal.bounds_of_mem_numeral hc)
  refine ⟨fun h => ?_, fun h => ?_, fun h => ?_⟩
  · exact absurd (hdigit _ h) (by decide)
  · exact absurd (hdigit _ h) (by decide)
  · exact absurd (hdigit _ h) (by decide)

/-! ### Commands -/

theorem readWord_word (op : OpCode) : readWord op.word = some op := by
  cases op <;> rfl

theorem isField_word (op : OpCode) : Command.IsField op.word := by
  unfold Command.IsField
  cases op <;> decide

theorem isField_noreply : Command.IsField (ascii "noreply") := by
  unfold Command.IsField
  decide

theorem readNoreply_noreplyField (noreply : Bool) :
    readNoreply (Command.noreplyField noreply) = some noreply := by
  cases noreply <;> rfl

theorem mem_noreplyField (h : w ∈ Command.noreplyField noreply) : w = ascii "noreply" := by
  cases noreply with
  | false => cases h
  | true => exact List.mem_singleton.1 h

namespace Command

variable {cmd : Command}

theorem Valid.isField (h : cmd.Valid) : ∀ w ∈ cmd.fields, IsField w := by
  intro w hw
  cases cmd with
  | storage op key flags exptime casUnique value noreply =>
    simp only [fields, List.mem_append, List.mem_cons, List.not_mem_nil, or_false, List.mem_map] at hw
    rcases hw with ((rfl | rfl | rfl | rfl | rfl) | ⟨n, -, rfl⟩) | hw
    · exact isField_word op
    · exact h.2.1
    · exact isField_signed _
    · exact isField_signed _
    · exact isField_signed _
    · exact isField_signed _
    · exact mem_noreplyField hw ▸ isField_noreply
  | retrieval op keys =>
    rcases List.mem_cons.1 hw with rfl | hw
    · exact isField_word op
    · exact h.2 w hw
  | incrDecr op key delta noreply =>
    simp only [fields, List.mem_append, List.mem_cons, List.not_mem_nil, or_false] at hw
    rcases hw with (rfl | rfl | rfl) | hw
    · exact isField_word op
    · exact h.2
    · exact isField_signed _
    · exact mem_noreplyField hw ▸ isField_noreply
  | touch key exptime noreply =>
    simp only [fields, List.mem_append, List.mem_cons, List.not_mem_nil, or_false] at hw
    rcases hw with (rfl | rfl | rfl) | hw
    · exact isField_word _
    · exact h
    · exact isField_signed _
    · exact mem_noreplyField hw ▸ isField_noreply
  | delete key noreply =>
    simp only [fields, List.mem_append, List.mem_cons, List.not_mem_nil, or_false] at hw
    rcases hw with (rfl | rfl) | hw
    · exact isField_word _
    · exact h
    · exact mem_noreplyField hw ▸ isField_noreply
  | bare op =>
    obtain rfl := List.mem_singleton.1 hw
    exact isField_word op

theorem fields_ne_nil (cmd : Command) : cmd.fields ≠ [] := by
  cases cmd <;> simp [fields]

theorem mem_intercalate {ls : List Bytes} (h : c ∈ [space].intercalate ls) :
    c = space ∨ ∃ l ∈ ls, c ∈ l := by
  induction ls with
  | nil => simp [List.intercalate] at h
  | cons l ls ih =>
    cases ls with
    | nil => exact .inr ⟨l, List.mem_cons_self, by simpa using h⟩
    | cons l' ls =>
      rw [List.intercalate_cons_cons] at h
      rcases List.mem_append.1 h with h | h
      · rcases List.mem_append.1 h with h | h
        · exact .inr ⟨l, List.mem_cons_self, h⟩
        · exact .inl (List.mem_singleton.1 h)
      · rcases ih h with h | ⟨l'', hl'', hc⟩
        · exact .inl h
        · exact .inr ⟨l'', List.mem_cons_of_mem l hl'', hc⟩

theorem Valid.not_mem_line (h : cmd.Valid) : cr ∉ cmd.line ∧ lf ∉ cmd.line := by
  constructor
  · intro hc
    rcases mem_intercalate hc with hc | ⟨l, hl, hc⟩
    · exact absurd hc (by decide)
    · exact (h.isField l hl).2.1 hc
  · intro hc
    rcases mem_intercalate hc with hc | ⟨l, hl, hc⟩
    · exact absurd hc (by decide)
    · exact (h.isField l hl).2.2 hc

theorem readCommand_line (h : cmd.Valid) {op : OpCode} {args : List Bytes}
    (hfields : cmd.fields = op.word :: args) (rest : Bytes) :
    readCommand (cmd.line ++ crlf ++ rest) = readArgs op args rest := by
  have hsplit : cmd.line.splitOn space = op.word :: args := by
    rw [← hfields]
    exact List.splitOn_intercalate space (fun l hl => (h.isField l hl).1) cmd.fields_ne_nil
  unfold readCommand
  rw [splitLine_append h.not_mem_line.1]
  show (match cmd.line.splitOn space with
    | w :: args => do
      let op ← readWord w
      readArgs op args rest
    | [] => none) = _
  rw [hsplit]
  simp only [readWord_word]
  rfl

theorem readCas_fields {casUnique : Option ℤ} (h : casUnique.isSome = decide (op = .cas))
    (args : List Bytes) :
    readCas op (casUnique.toList.map Decimal.signed ++ args) = some (casUnique, args) := by
  unfold readCas
  cases casUnique with
  | none =>
    have hop : op ≠ .cas := fun hop => by simp [hop] at h
    rw [if_neg hop]
    rfl
  | some n =>
    have hop : op = .cas := by simpa using h.symm
    rw [if_pos hop]
    show (readNumber (Decimal.signed n)).map _ = _
    rw [readNumber_signed]
    rfl

theorem readData_append (value rest : Bytes) :
    readData value.length (value ++ crlf ++ rest) = some (value, rest) := by
  have hdrop : (value ++ crlf ++ rest).drop value.length = crlf ++ rest := by
    rw [List.append_assoc, List.drop_left]
  unfold readData
  rw [Int.toNat_natCast, hdrop, if_pos ⟨by omega, rfl⟩, ← List.drop_drop, hdrop, List.append_assoc,
    List.take_left]
  rfl

theorem readData_cut {value : Bytes} (hpre : s <+: value ++ crlf) (hne : s ≠ value ++ crlf) :
    readData value.length s = none := by
  have hlt : s.length < value.length + 2 := by
    have hle := hpre.length_le
    rw [List.length_append] at hle
    refine lt_of_le_of_ne hle fun heq => hne (hpre.eq_of_length ?_)
    rw [List.length_append, heq]
    rfl
  unfold readData
  refine if_neg fun h => ?_
  have hlen := congrArg List.length h.2
  rw [Int.toNat_natCast, List.length_take, List.length_drop] at hlen
  have : crlf.length = 2 := rfl
  omega

theorem readStorage_fields {flags exptime : ℤ} {casUnique : Option ℤ} {value : Bytes}
    (h : casUnique.isSome = decide (op = .cas)) (rest : Bytes) :
    readStorage op (key :: Decimal.signed flags :: Decimal.signed exptime ::
        Decimal.signed value.length ::
          (casUnique.toList.map Decimal.signed ++ noreplyField noreply)) rest =
      (readData value.length rest).map fun r =>
        (.storage op key flags exptime casUnique r.1 noreply, r.2) := by
  unfold readStorage
  simp only [readNumber_signed, readCas_fields h, readNoreply_noreplyField, Option.bind_eq_bind,
    Option.bind_some]
  cases readData value.length rest <;> rfl

/-- The arguments are read back, and so is the data; a part of the data is not enough. -/
theorem Valid.readArgs (h : cmd.Valid) : ∃ op args, cmd.fields = op.word :: args ∧
    (∀ rest, readArgs op args (cmd.data ++ rest) = some (cmd, rest)) ∧
    ∀ s, s <+: cmd.data → s ≠ cmd.data → Libmc.readArgs op args s = none := by
  have hnone : ∀ s : Bytes, s <+: [] → s ≠ [] → False := fun s h1 h2 => h2 (List.prefix_nil.1 h1)
  cases cmd with
  | storage op key flags exptime casUnique value noreply =>
    obtain ⟨hop, -, hcas⟩ := h
    refine ⟨op, _, rfl, fun rest => ?_, fun s hpre hne => ?_⟩
    · have hstorage : ∀ args, Libmc.readArgs op args (value ++ crlf ++ rest) =
          readStorage op args (value ++ crlf ++ rest) := by
        fin_cases hop <;> exact fun _ => rfl
      refine (hstorage _).trans ((readStorage_fields hcas _).trans ?_)
      rw [readData_append]
      rfl
    · have hstorage : ∀ args, Libmc.readArgs op args s = readStorage op args s := by
        fin_cases hop <;> exact fun _ => rfl
      refine (hstorage _).trans ((readStorage_fields hcas _).trans ?_)
      rw [readData_cut hpre hne]
      rfl
  | retrieval op keys =>
    refine ⟨op, keys, rfl, fun rest => ?_, fun s hpre hne => (hnone s hpre hne).elim⟩
    obtain ⟨hop, -⟩ := h
    fin_cases hop <;> rfl
  | incrDecr op key delta noreply =>
    refine ⟨op, _, rfl, fun rest => ?_, fun s hpre hne => (hnone s hpre hne).elim⟩
    obtain ⟨hop, -⟩ := h
    fin_cases hop
    · simp [Libmc.readArgs, readNumber_signed, readNoreply_noreplyField, data]
    · simp [Libmc.readArgs, readNumber_signed, readNoreply_noreplyField, data]
  | touch key exptime noreply =>
    refine ⟨.touch, _, rfl, fun rest => ?_, fun s hpre hne => (hnone s hpre hne).elim⟩
    simp [Libmc.readArgs, readNumber_signed, readNoreply_noreplyField, data]
  | delete key noreply =>
    refine ⟨.delete, _, rfl, fun rest => ?_, fun s hpre hne => (hnone s hpre hne).elim⟩
    simp [Libmc.readArgs, readNoreply_noreplyField, data]
  | bare op =>
    refine ⟨op, [], rfl, fun rest => ?_, fun s hpre hne => (hnone s hpre hne).elim⟩
    change op ∈ _ at h
    fin_cases h <;> rfl

/-- **The grammar is unambiguous.** A command is read back as it was written, whatever comes after
it, and a part of a command is not read as one. -/
theorem frames : Framing.Frames readCommand Command.bytes Command.Valid where
  write_ne cmd _ := by simp [bytes, crlf]
  read_write cmd rest h := by
    obtain ⟨op, args, hfields, hread, -⟩ := h.readArgs
    have hassoc : cmd.bytes ++ rest = cmd.line ++ crlf ++ (cmd.data ++ rest) := List.append_assoc _ _ _
    rw [hassoc, readCommand_line h hfields, hread]
  read_cut cmd s h hpre hne := by
    obtain ⟨op, args, hfields, -, hcut⟩ := h.readArgs
    rcases List.prefix_or_prefix_of_prefix hpre
      (show cmd.line ++ crlf <+: cmd.bytes from List.prefix_append _ _) with hline | ⟨s', rfl⟩
    · by_cases heq : s = cmd.line ++ crlf
      · subst heq
        have hdata : [] ≠ cmd.data := fun hnil => hne (by rw [bytes, ← hnil, List.append_nil])
        have := readCommand_line h hfields []
        rw [List.append_nil] at this
        rw [this, hcut [] List.nil_prefix hdata]
      · -- the line feed is not there yet
        have hcr : s <+: cmd.line ++ [cr] := by
          have hlast : cmd.line ++ crlf = (cmd.line ++ [cr]) ++ [lf] := by simp [crlf]
          rw [hlast] at hline heq
          exact (List.prefix_concat_iff.1 hline).resolve_left heq
        have hlf : lf ∉ s := fun hmem => by
          rcases List.mem_append.1 (hcr.subset hmem) with hmem | hmem
          · exact h.not_mem_line.2 hmem
          · exact absurd (List.mem_singleton.1 hmem) (by decide)
        unfold readCommand
        rw [splitLine_of_not_mem hlf]
        rfl
    · have hs' : s' <+: cmd.data := by
        have : cmd.line ++ crlf ++ s' <+: cmd.line ++ crlf ++ cmd.data := hpre
        exact (List.prefix_append_right_inj _).1 this
      have hne' : s' ≠ cmd.data := fun heq => hne (by rw [heq, bytes])
      rw [readCommand_line h hfields, hcut s' hs' hne']

end Command

end Libmc
