import Mathlib.Data.List.DropRight
import Libmc.Common

/-!
# Server strings

`splitServerString` splits `host[:port][ alias]` in place: it overwrites the separators with zeros
and gives pointers into the buffer. A space that is preceded by an odd run of backslashes is not a
separator. One scan with a flag finds this, and the separators of the documented format are found in
it (`splitServerString_format`).
-/

namespace Libmc

/-- `:`. -/
def colon : UInt8 := 58

def backslash : UInt8 := 92

/-- `server_string_split_t`, with positions in the buffer. -/
structure ServerStringSplit where
  host : ℕ := 0
  port : Option ℕ := none
  aliasName : Option ℕ := none
  deriving DecidableEq, Repr

/-- The loop of `splitServerString`: the buffer is `done` up to `input`, and the rest of it from
there on. None if `input` leaves the buffer. -/
def splitLoop (done : Bytes) (escaped : Bool) (res : ServerStringSplit) :
    Bytes → Option (Bytes × ServerStringSplit)
  | [] => none
  | c :: rest =>
    if c = 0 then some (done ++ c :: rest, res)
    else if c = colon then
      if res.aliasName = none then
        splitLoop (done ++ [0]) false
          { res with port := if res.port = none then some (done.length + 1) else res.port } rest
      else splitLoop (done ++ [c]) false res rest
    else if c = space ∧ escaped = false then
      if res.aliasName = none then
        splitLoop (done ++ [0]) escaped { res with aliasName := some (done.length + 1) } rest
      else some (done ++ 0 :: rest, res)
    else if c = backslash then splitLoop (done ++ [c]) (!escaped) res rest
    else splitLoop (done ++ [c]) false res rest

/-- `splitServerString`, with the buffer that it leaves. -/
def splitServerString (input : Bytes) : Option (Bytes × ServerStringSplit) :=
  splitLoop [] false {} input

/-- The string that a pointer into a buffer points to. -/
def cString (buf : Bytes) (p : ℕ) : Bytes := (buf.drop p).takeWhile (· ≠ 0)

/-! ### The format -/

/-- What follows is escaped: the bytes end in an odd run of backslashes. -/
def Escapes (s : Bytes) : Prop := Odd (s.rtakeWhile (· = backslash)).length

instance (s : Bytes) : Decidable (Escapes s) :=
  inferInstanceAs (Decidable (Odd (s.rtakeWhile (· = backslash)).length))

/-- A host or an alias: without zeros, and every space is escaped. -/
structure ServerField (s : Bytes) : Prop where
  zero : 0 ∉ s
  space : ∀ pre post, s = pre ++ space :: post → Escapes pre

instance (s : Bytes) : Decidable (ServerField s) :=
  decidable_of_iff (0 ∉ s ∧ ∀ i < s.length, s[i]? = some space → Escapes (s.take i)) <| by
    constructor
    · rintro ⟨hzero, hspace⟩
      refine ⟨hzero, ?_⟩
      rintro pre post rfl
      simpa using hspace pre.length (by simp) (by simp)
    · rintro ⟨hzero, hspace⟩
      refine ⟨hzero, fun i hi hget => hspace _ (s.drop (i + 1)) ?_⟩
      rw [List.getElem?_eq_some_iff] at hget
      obtain ⟨_, hget⟩ := hget
      rw [← hget, List.getElem_cons_drop, List.take_append_drop]

/-- `host[:port][ alias]`. -/
def serverString (host : Bytes) (port aliasName : Option Bytes) : Bytes :=
  host ++ port.elim [] (colon :: ·) ++ aliasName.elim [] (space :: ·)

/-! ### The scan -/

variable {s w pre done rest after : Bytes} {c : UInt8} {res : ServerStringSplit} {escaped : Bool}

@[simp] theorem escapes_nil : ¬ Escapes [] := by decide

theorem escapes_concat : Escapes (s ++ [c]) ↔ c = backslash ∧ ¬ Escapes s := by
  unfold Escapes
  rw [List.rtakeWhile_concat]
  by_cases hc : c = backslash
  · rw [if_pos (by simpa using hc), List.length_append, List.length_singleton, Nat.odd_add_one]
    simp [hc]
  · rw [if_neg (by simpa using hc)]
    simp [hc]

/-- A byte of a field is kept, and the flag says whether it escapes the next one. -/
theorem splitLoop_byte (hzero : c ≠ 0) (hspace : c = space → Escapes pre)
    (hcolon : c = colon → res.aliasName ≠ none) :
    splitLoop done (decide (Escapes pre)) res (c :: rest) =
      splitLoop (done ++ [c]) (decide (Escapes (pre ++ [c]))) res rest := by
  have hflag : decide (Escapes (pre ++ [c])) = (decide (c = backslash) && !decide (Escapes pre)) := by
    rw [decide_eq_decide.2 escapes_concat, Bool.decide_and, decide_not]
  rw [hflag, splitLoop, if_neg hzero]
  by_cases h1 : c = colon
  · have hne : c ≠ backslash := by
      rw [h1]
      decide
    rw [if_pos h1, if_neg (hcolon h1), decide_eq_false hne, Bool.false_and]
  · have hescaped : ¬ (c = space ∧ decide (Escapes pre) = false) := by
      rintro ⟨h, hnot⟩
      exact of_decide_eq_false hnot (hspace h)
    rw [if_neg h1, if_neg hescaped]
    by_cases h2 : c = backslash
    · rw [if_pos h2, decide_eq_true h2, Bool.true_and]
    · rw [if_neg h2, decide_eq_false h2, Bool.false_and]

theorem splitLoop_field (pre w done rest : Bytes) (hfield : ServerField (pre ++ w))
    (hcolon : colon ∈ w → res.aliasName ≠ none) :
    splitLoop done (decide (Escapes pre)) res (w ++ rest) =
      splitLoop (done ++ w) (decide (Escapes (pre ++ w))) res rest := by
  induction w generalizing pre done with
  | nil => simp
  | cons c w ih =>
    have hzero : c ≠ 0 := by
      rintro rfl
      exact hfield.zero (by simp)
    have hspace : c = space → Escapes pre := by
      rintro rfl
      exact hfield.space pre w rfl
    have hrest : ServerField ((pre ++ [c]) ++ w) := by
      rw [List.append_assoc]
      exact hfield
    rw [List.cons_append, splitLoop_byte hzero hspace fun h => hcolon (h ▸ List.mem_cons_self),
      ih _ _ hrest fun h => hcolon (List.mem_cons_of_mem _ h)]
    simp

theorem splitLoop_zero : splitLoop done escaped res (0 :: rest) = some (done ++ 0 :: rest, res) := by
  rw [splitLoop, if_pos rfl]

theorem splitLoop_colon (h : res.aliasName = none) :
    splitLoop done escaped res (colon :: rest) = splitLoop (done ++ [0]) false
      { res with port := if res.port = none then some (done.length + 1) else res.port } rest := by
  rw [splitLoop, if_neg (by decide), if_pos rfl, if_pos h]

theorem splitLoop_space (h : res.aliasName = none) :
    splitLoop done false res (space :: rest) =
      splitLoop (done ++ [0]) false { res with aliasName := some (done.length + 1) } rest := by
  rw [splitLoop, if_neg (by decide), if_neg (by decide), if_pos ⟨rfl, rfl⟩, if_pos h]

theorem serverField_of_digits (h : ∀ c ∈ s, isDigit c) : ServerField s ∧ ¬ Escapes s ∧ colon ∉ s := by
  have hne : ∀ d, isDigit d = false → d ∉ s := by
    rintro d hd hmem
    rw [h d hmem] at hd
    cases hd
  refine ⟨⟨hne 0 (by decide), ?_⟩, ?_, hne colon (by decide)⟩
  · rintro pre post rfl
    exact absurd (by simp) (hne space (by decide))
  · rcases s.eq_nil_or_concat with rfl | ⟨s, c, rfl⟩
    · exact escapes_nil
    · rw [List.concat_eq_append, escapes_concat]
      rintro ⟨rfl, -⟩
      exact hne backslash (by decide) (by simp)

theorem cString_append (done rest : Bytes) (h : 0 ∉ s) :
    cString (done ++ (s ++ 0 :: rest)) done.length = s := by
  unfold cString
  rw [List.drop_left, List.takeWhile_append_of_pos, List.takeWhile_cons_of_neg (by simp),
    List.append_nil]
  exact fun c hc => decide_eq_true fun h0 => h (h0 ▸ hc)

theorem splitLoop_alias {aliasName : Option Bytes} (halias : ∀ s ∈ aliasName, ServerField s)
    (hres : res.aliasName = none) (hescaped : aliasName ≠ none → escaped = false) :
    splitLoop done escaped res (aliasName.elim [] (space :: ·) ++ 0 :: after) =
      some (done ++ (aliasName.elim [] (0 :: ·) ++ 0 :: after),
        { res with aliasName := aliasName.map fun _ => done.length + 1 }) := by
  cases aliasName with
  | none =>
    show splitLoop done escaped res (0 :: after) = _
    rw [splitLoop_zero]
    obtain ⟨host, port, aliasName⟩ := res
    obtain rfl := hres
    rfl
  | some s =>
    have hscan : splitLoop (done ++ [0]) false { res with aliasName := some (done.length + 1) }
        (s ++ 0 :: after) = _ := splitLoop_field [] s _ _ (halias s rfl) nofun
    obtain rfl := hescaped nofun
    show splitLoop done false res (space :: (s ++ 0 :: after)) = _
    rw [splitLoop_space hres, hscan, splitLoop_zero]
    simp

theorem splitLoop_address {host : Bytes} {port : Option Bytes} (hhost : ServerField host)
    (hcolon : colon ∉ host) (hport : ∀ s ∈ port, ∀ c ∈ s, isDigit c) :
    ∃ escaped, (port = none → ¬ Escapes host → escaped = false) ∧ (port ≠ none → escaped = false) ∧
      ∀ rest, splitLoop [] false {} (host ++ port.elim [] (colon :: ·) ++ rest) =
        splitLoop (host ++ port.elim [] (0 :: ·)) escaped
          { port := port.map fun _ => host.length + 1 } rest := by
  have hscan : ∀ rest, splitLoop [] false {} (host ++ rest) = _ := fun rest =>
    splitLoop_field [] host [] rest hhost fun h => absurd h hcolon
  cases port with
  | none =>
    refine ⟨decide (Escapes host), fun _ hends => decide_eq_false hends, nofun, fun rest => ?_⟩
    simpa using hscan rest
  | some s =>
    obtain ⟨hfield, hends, hnot⟩ := serverField_of_digits (hport s rfl)
    refine ⟨false, nofun, fun _ => rfl, fun rest => ?_⟩
    have hdigits : splitLoop (host ++ [0]) false { port := some (host.length + 1) } (s ++ rest) = _ :=
      splitLoop_field [] s _ _ hfield fun h => absurd h hnot
    have htext : host ++ (some s).elim [] (colon :: ·) ++ rest = host ++ colon :: (s ++ rest) := by
      simp
    have hbuf : host ++ (some s).elim [] (0 :: ·) = host ++ [0] ++ s := by simp
    rw [htext, hbuf, hscan, splitLoop_colon rfl]
    rw [List.nil_append] at hdigits ⊢
    exact hdigits.trans (by rw [decide_eq_false hends]; rfl)

/-- **The documented format.** The scan gives back the host, the port and the alias that a server
string is made of, and it ends at the end of the string. -/
theorem splitServerString_format (host : Bytes) (port aliasName : Option Bytes) (after : Bytes)
    (hhost : ServerField host) (hcolon : colon ∉ host) (hport : ∀ s ∈ port, ∀ c ∈ s, isDigit c)
    (halias : ∀ s ∈ aliasName, ServerField s)
    (hends : port = none → aliasName ≠ none → ¬ Escapes host) :
    ∃ buf res, splitServerString (serverString host port aliasName ++ 0 :: after) =
        some (buf ++ 0 :: after, res) ∧
      buf.length = (serverString host port aliasName).length ∧
      cString (buf ++ 0 :: after) res.host = host ∧
      res.port.map (cString (buf ++ 0 :: after)) = port ∧
      res.aliasName.map (cString (buf ++ 0 :: after)) = aliasName := by
  obtain ⟨escaped, hdirect, hbehind, hscan⟩ := splitLoop_address hhost hcolon hport
  have hescaped : aliasName ≠ none → escaped = false := by
    intro hne
    by_cases hp : port = none
    · exact hdirect hp (hends hp hne)
    · exact hbehind hp
  -- every part that is there begins with a zero, and so does the end
  have hends : ∀ (o : Option Bytes) (x : Bytes), ∃ y, o.elim [] (0 :: ·) ++ 0 :: x = 0 :: y := by
    rintro (_ | s) x <;> exact ⟨_, rfl⟩
  obtain ⟨y, hy⟩ := hends aliasName after
  obtain ⟨z, hz⟩ := hends port y
  refine ⟨host ++ port.elim [] (0 :: ·) ++ aliasName.elim [] (0 :: ·),
    { port := port.map fun _ => host.length + 1
      aliasName := aliasName.map fun _ => (host ++ port.elim [] (0 :: ·)).length + 1 },
    ?_, ?_, ?_, ?_, ?_⟩
  · unfold splitServerString serverString
    rw [List.append_assoc, hscan, splitLoop_alias halias rfl hescaped]
    simp only [List.append_assoc]
  · unfold serverString
    cases port <;> cases aliasName <;> simp
  · rw [List.append_assoc, hy, List.append_assoc, hz]
    exact cString_append [] z hhost.zero
  · cases port with
    | none => rfl
    | some s =>
      have hzero := (serverField_of_digits (hport s rfl)).1.zero
      have hport' := cString_append (host ++ [0]) y hzero
      rw [List.append_assoc, hy]
      simpa using hport'
  · cases aliasName with
    | none => rfl
    | some s =>
      have halias' := cString_append (host ++ port.elim [] (0 :: ·) ++ [0]) after (halias s rfl).zero
      simpa [Nat.add_assoc] using halias'

/-- A path with a space in it, and an alias with another one. -/
theorem splitServerString_format_path : ∃ buf res,
    splitServerString (ascii "/tmp/spacey\\ path :testing\\ alias" ++ [0]) = some (buf ++ [0], res) ∧
      cString (buf ++ [0]) res.host = ascii "/tmp/spacey\\ path" ∧ res.port = none ∧
      res.aliasName.map (cString (buf ++ [0])) = some (ascii ":testing\\ alias") := by
  obtain ⟨buf, res, hsplit, -, hhost, hport, halias⟩ := splitServerString_format
    (ascii "/tmp/spacey\\ path") none (some (ascii ":testing\\ alias")) [] (by decide) (by decide)
    nofun (by decide) (fun _ _ => by decide)
  exact ⟨buf, res, hsplit, hhost, Option.map_eq_none_iff.1 hport, halias⟩

end Libmc
