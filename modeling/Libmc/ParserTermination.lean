import Libmc.ParserSteps

/-!
# When the parsing loop ends

The loop of `process_packets` goes round for ever on some inputs: `start_state` does nothing about
a `V`, `E` or `N` that begins no reply it knows, and in `MODE_COUNTING` nothing leaves `FSM_END`
while keys are missing. `Piece` is the grammar of the fields the parser reads, `Pieces` that of the
inputs it works through, and `Hangs` says that the unread bytes lead to such a place. The loop ends
exactly on the other inputs (`process_packets_returns_iff`).
-/

namespace Libmc

namespace PacketParser

/-- A state, with the size of the data block if its header line has been read. -/
abbrev Place := ParserState × ℕ

def NumberField (w : Bytes) (n : ℕ) : Prop :=
  ∃ u c, w = u ++ [c] ∧ u ≠ [] ∧ (∀ x ∈ u, isDigit x) ∧ isDigit c = false ∧ n = foldDigits 0 u

/-- Everything up to the first `c`, and that. -/
def FieldTo (c : UInt8) (w : Bytes) : Prop := ∃ u, w = u ++ [c] ∧ c ∉ u

/-- A field that the parser reads at a place, how many keys it answers, and the place after it. -/
inductive Piece : Place → Bytes → ℕ → Place → Prop
  | value {w} (h : w.length = 4) : Piece (.start, 0) (86 :: 65 :: w) 0 (.getStart, 0)
  | version {w} (h : w.length = 6) : Piece (.start, 0) (86 :: 69 :: w) 0 (.verStart, 0)
  | end_ {w} (h : w.length = 3) : Piece (.start, 0) (69 :: 78 :: w) 0 (.end_, 0)
  | exists_ {w} (h : w.length = 6) : Piece (.start, 0) (69 :: 88 :: w) 1 (.start, 0)
  | ok {w} (h : w.length = 3) : Piece (.start, 0) (79 :: w) 0 (.end_, 0)
  | stored {w} (h : w.length = 5) : Piece (.start, 0) (83 :: 84 :: 79 :: w) 1 (.start, 0)
  | stat {c w} (hc : c ≠ 79) (h : w.length = 2) :
      Piece (.start, 0) (83 :: 84 :: c :: w) 0 (.statStart, 0)
  | deleted {w} (h : w.length = 8) : Piece (.start, 0) (68 :: w) 1 (.start, 0)
  | touched {w} (h : w.length = 8) : Piece (.start, 0) (84 :: w) 1 (.start, 0)
  | notFound {w w'} (h : w.length = 3) (h' : w'.length = 6) :
      Piece (.start, 0) (78 :: w ++ 70 :: w') 1 (.start, 0)
  | notStored {w w'} (h : w.length = 3) (h' : w'.length = 7) :
      Piece (.start, 0) (78 :: w ++ 83 :: w') 1 (.start, 0)
  | number {w n} (h : NumberField w n) : Piece (.start, 0) w 0 (.incrDecrRemaining, 0)
  | key {w} (h : FieldTo space w) : Piece (.getStart, 0) w 0 (.getKey, 0)
  | flags {w n} (h : NumberField w n) : Piece (.getKey, 0) w 0 (.getFlags, 0)
  | bytes {w n} (h : NumberField w n) : Piece (.getFlags, 0) w 0 (.getBytes, n % 2 ^ 32)
  | noCas {n} : Piece (.getBytes, n) [lf] 0 (.getValueRemaining, n)
  | cas {w m n} (h : NumberField w m) : Piece (.getBytes, n) w 0 (.getCas, n)
  | lineEnd {c n} : Piece (.getCas, n) [c] 0 (.getValueRemaining, n)
  | dataBlock {w n} (h : w.length = n + 2) : Piece (.getValueRemaining, n) w 0 (.start, 0)
  | versionLine {w} (h : FieldTo lf w) : Piece (.verStart, 0) w 0 (.end_, 0)
  | statLine {w} (h : FieldTo lf w) : Piece (.statStart, 0) w 0 (.start, 0)
  | incrDecr {w n} (h : NumberField w n) : Piece (.incrDecrStart, 0) w 0 (.incrDecrRemaining, 0)
  | incrDecrLine {w} (h : FieldTo lf w) : Piece (.incrDecrRemaining, 0) w 1 (.start, 0)

/-- Fields one after the other. -/
inductive Pieces : Place → Bytes → ℕ → Place → Prop
  | nil {pl} : Pieces pl [] 0 pl
  | cons {pl pl' pl'' w w' k k'} (h : Piece pl w k pl') (hs : Pieces pl' w' k' pl'') :
      Pieces pl (w ++ w') (k + k') pl''

/-- The beginnings of a reply that `start_state` does nothing about. -/
inductive Stray : Bytes → Prop
  | v {c w} (h : c ≠ 65 ∧ c ≠ 69) : Stray (86 :: c :: w)
  | e {c w} (h : c ≠ 82 ∧ c ≠ 78 ∧ c ≠ 88) : Stray (69 :: c :: w)
  | n {c w w'} (hw : w.length = 3) (h : c ≠ 70 ∧ c ≠ 83) : Stray (78 :: w ++ c :: w')

variable {v v' : Flat} {u t w : Bytes} {c : UInt8} {k n : ℕ} {pl pl' pl'' : Place} {e : ErrCode}

/-- The size of the data block to be read: `FSM_GET_CAS` takes one off `bytesRemain`, and a data
block with nothing remaining is not read. -/
def sizeAfter (kv : RetrievalResult Bytes) : ℕ :=
  if 0 < (kv.bytesRemain + (2 ^ 32 - 1)) % 2 ^ 32 then kv.bytes else 0

/-- The size of the data block, once it is known. -/
def sizeLeft (v : Flat) : ℕ :=
  match v.state with
  | .getBytes | .getCas => sizeAfter v.kv
  | .getValueRemaining => dataLeft v.kv
  | _ => 0

def place (v : Flat) : Place := (v.state, v.sizeLeft)

/-- `m_requestKeyIdx` does not meet the number of keys while it goes up by `k`. -/
def KeysMissing (v : Flat) (k : ℕ) : Prop :=
  ¬ (v.requestKeyIdx ≤ v.requestKeys.length ∧ v.requestKeys.length ≤ v.requestKeyIdx + k)

/-- The unread bytes lead to a place that the loop does not leave: a stray beginning, or in
`MODE_COUNTING` the end state, in both cases while the call cannot end. -/
def Hangs (v : Flat) : Prop :=
  ∃ w t k pl, v.bufferReader = w ++ t ∧ Pieces v.place w k pl ∧
    (v.mode ≠ .endState → v.KeysMissing k) ∧
    (pl = (.start, 0) ∧ Stray t ∨ v.mode ≠ .endState ∧ pl = (.end_, 0))

/-- The states that go through `mt_kvPtr`. -/
def usesKv : ParserState → Bool
  | .getStart | .getKey | .getFlags | .getBytes | .getCas | .getValueRemaining => true
  | _ => false

/-- There is a result wherever `mt_kvPtr` is used. -/
def HasResult (v : Flat) : Prop := usesKv v.state = true → v.retrievalResults ≠ []

/-! ### A field is read in at most two rounds -/

/-- The loop comes from `v` to `v'` by reading a field. -/
structure Reads1 (v : Flat) (t : Bytes) (k : ℕ) (pl : Place) (v' : Flat) : Prop where
  reaches : Loop.Reaches body v v'
  bytes : v'.bufferReader = t
  place : v'.place = pl
  idx : v'.requestKeyIdx = v.requestKeyIdx + k
  keys : v'.requestKeys = v.requestKeys
  mode : v'.mode = v.mode
  result : v'.HasResult

theorem body_ok {st : ParserState} (hend : v.canEndParse = false) (hst : v.state = st)
    (h : stateAction st v = (.ok (), v')) : body v = .inl v' := by
  rw [body_eq hend, hst, h]
  rfl

theorem body_stop {st : ParserState} (hend : v.canEndParse = false) (hst : v.state = st)
    (h : stateAction st v = (.error e, v')) : body v = .inr (e, v') := by
  rw [body_eq hend, hst, h]
  rfl

/-- A round that answers no key and does not end the packet does not end the call. -/
theorem canEndParse_after (hend : v.canEndParse = false) (hm : v'.mode = v.mode)
    (hk : v'.requestKeys = v.requestKeys) (hi : v'.requestKeyIdx = v.requestKeyIdx)
    (hst : v'.state.isEndState = false) : v'.canEndParse = false := by
  unfold canEndParse at *
  rw [hm, hk, hi, hst]
  split_ifs at hend ⊢
  · rfl
  · exact hend

theorem HasResult.of_not (h : usesKv v.state = false) : v.HasResult := fun hc => by
  rw [h] at hc
  cases hc

/-- A request key is looked up for a field between these places: a message line, which answers the
key at once, or a number. -/
abbrev LooksUp (pl : Place) (k : ℕ) (pl' : Place) : Prop :=
  pl.1 = .start ∧ k = 1 ∨ pl'.1 = .incrDecrRemaining

/-- Whether a key has been looked up past the last one, after such a field. -/
def looked (v : Flat) (pl : Place) (k : ℕ) (pl' : Place) : Bool :=
  if LooksUp pl k pl' then v.outOfRange || v.pastKeys else v.outOfRange

/-- One round, or two with a number or the end of a header line before the second. -/
def Rounds (v v' : Flat) : Prop :=
  body v = .inl v' ∨
    ∃ u, body v = .inl u ∧ (u.state = .incrDecrStart ∨ u.state = .getCas) ∧ body u = .inl v'

/-- The loop comes from `v` to `v'` by reading one field between these places. -/
structure ReadsPiece (v : Flat) (t : Bytes) (pl : Place) (k : ℕ) (pl' : Place) (v' : Flat) : Prop
    extends Reads1 v t k pl' v' where
  looked : v'.outOfRange = v.looked pl k pl'
  rounds : Rounds v v'

theorem ReadsPiece.round {st : ParserState} (hend : v.canEndParse = false) (hst : v.state = st)
    (h : stateAction st v = (.ok (), v')) (hbytes : v'.bufferReader = t)
    (hidx : v'.requestKeyIdx = v.requestKeyIdx + k) (hkeys : v'.requestKeys = v.requestKeys)
    (hmode : v'.mode = v.mode) (hplace : v'.place = pl') (hlooked : v'.outOfRange = v.looked pl k pl')
    (hres : v'.HasResult) : ReadsPiece v t pl k pl' v' :=
  ⟨⟨.single (body_ok hend hst h), hbytes, hplace, hidx, hkeys, hmode, hres⟩, hlooked,
    .inl (body_ok hend hst h)⟩

theorem ReadsPiece.after {st st₁ : ParserState} {v₁ : Flat} (hend : v.canEndParse = false)
    (hst : v.state = st) (h : stateAction st v = (.ok (), v₁)) (hst₁ : v₁.state = st₁)
    (hquiet : st₁ = .incrDecrStart ∨ st₁ = .getCas) (hidx₁ : v₁.requestKeyIdx = v.requestKeyIdx)
    (hkeys₁ : v₁.requestKeys = v.requestKeys) (hmode₁ : v₁.mode = v.mode)
    (h₁ : stateAction st₁ v₁ = (.ok (), v')) (hbytes : v'.bufferReader = t)
    (hidx : v'.requestKeyIdx = v.requestKeyIdx + k) (hkeys : v'.requestKeys = v.requestKeys)
    (hmode : v'.mode = v.mode) (hplace : v'.place = pl') (hlooked : v'.outOfRange = v.looked pl k pl')
    (hres : v'.HasResult) : ReadsPiece v t pl k pl' v' := by
  have hend₁ : v₁.canEndParse = false := canEndParse_after hend hmode₁ hkeys₁ hidx₁ (by
    rw [hst₁]
    rcases hquiet with rfl | rfl <;> rfl)
  have hb := body_ok hend hst h
  have hb₁ := body_ok hend₁ hst₁ h₁
  exact ⟨⟨.head hb (.single hb₁), hbytes, hplace, hidx, hkeys, hmode, hres⟩, hlooked,
    .inr ⟨v₁, hb, hst₁ ▸ hquiet, hb₁⟩⟩

theorem processMessageResult_outOfRange {tp : MessageResultType} (htp : tp ≠ .ok) (t : Bytes) :
    (processMessageResult tp { v with bufferReader := t }).outOfRange =
      (v.outOfRange || v.pastKeys) := by
  unfold processMessageResult
  rw [if_neg htp]
  rfl

theorem reads_message {tp : MessageResultType} (hend : v.canEndParse = false) (hst : v.state = .start)
    (htp : tp ≠ .ok)
    (h : startState v = (.ok (), processMessageResult tp { v with bufferReader := t })) :
    ReadsPiece v t (.start, 0) 1 (.start, 0) (processMessageResult tp { v with bufferReader := t }) := by
  have hst' : (processMessageResult tp { v with bufferReader := t }).state = .start := by
    simp [hst]
  refine .round hend hst h (by simp) (by simp [htp]) (by simp) (by simp) ?_
    (processMessageResult_outOfRange htp t) (.of_not (by rw [hst']; rfl))
  unfold place sizeLeft
  rw [hst']

theorem place_eq {st : ParserState} (hst : v.state = st) (h : v.sizeLeft = n) : v.place = (st, n) := by
  unfold place
  rw [hst, h]

theorem sizeLeft_header (h : v.state = .getBytes ∨ v.state = .getCas) :
    v.sizeLeft = sizeAfter v.kv := by
  unfold sizeLeft
  rcases h with h | h <;> rw [h]

theorem sizeLeft_data (h : v.state = .getValueRemaining) : v.sizeLeft = dataLeft v.kv := by
  unfold sizeLeft
  rw [h]

theorem dataLeft_lineEnd (kv : RetrievalResult Bytes) :
    dataLeft { kv with bytesRemain := (kv.bytesRemain + (2 ^ 32 - 1)) % 2 ^ 32 } = sizeAfter kv := by
  unfold dataLeft sizeAfter
  rfl

theorem sizeAfter_bytes {m : ℕ} (hm : m < 2 ^ 32) (kv : RetrievalResult Bytes) :
    sizeAfter { kv with bytes := m, bytesRemain := (m + 1) % 2 ^ 32 } = m := by
  unfold sizeAfter
  simp only
  split_ifs <;> omega

theorem kv_setState_modifyKv {g : RetrievalResult Bytes → RetrievalResult Bytes}
    (hne : v.retrievalResults ≠ []) (st : ParserState) (t : Bytes) :
    (setState st (modifyKv g { v with bufferReader := t })).kv = g v.kv :=
  kv_modifyKv (v := { v with bufferReader := t }) hne

theorem sizeLeft_lineEnd (hst : v.state = .getCas) (hne : v.retrievalResults ≠ []) (t : Bytes) :
    (setState .getValueRemaining (modifyKv
      (fun kv => { kv with bytesRemain := (kv.bytesRemain + (2 ^ 32 - 1)) % 2 ^ 32 })
      { v with bufferReader := t })).sizeLeft = v.sizeLeft := by
  rw [sizeLeft_data rfl, kv_setState_modifyKv hne, dataLeft_lineEnd, sizeLeft_header (.inr hst)]

theorem NumberField.split {w : Bytes} (h : NumberField w n) (t : Bytes) :
    ∃ u c, w ++ t = u ++ c :: t ∧ u ≠ [] ∧ (∀ x ∈ u, isDigit x) ∧ isDigit c = false ∧
      n = foldDigits 0 u := by
  obtain ⟨u, c, rfl, h⟩ := h
  exact ⟨u, c, by simp, h⟩

/-- **Soundness of the grammar, one field.** -/
theorem reads_piece (hp : Piece pl w k pl') (hpl : v.place = pl) (hend : v.canEndParse = false)
    (hres : v.HasResult) (hr : v.bufferReader = w ++ t) : ∃ v', ReadsPiece v t pl k pl' v' := by
  have hst : v.state = pl.1 := congrArg Prod.fst hpl
  have hleft : v.sizeLeft = pl.2 := congrArg Prod.snd hpl
  have hne : usesKv v.state = true → v.retrievalResults ≠ [] := hres
  rw [hst] at hne
  cases hp with
  | value h =>
    exact ⟨_, .round hend hst (startState_value hr h) rfl rfl rfl rfl rfl rfl fun _ => by
      simp [setState, pushRetrieval]⟩
  | version h =>
    exact ⟨_, .round hend hst (startState_version hr h) rfl rfl rfl rfl rfl rfl (.of_not rfl)⟩
  | end_ h =>
    exact ⟨_, .round hend hst (startState_end hr h) rfl rfl rfl rfl rfl rfl (.of_not rfl)⟩
  | exists_ h => exact ⟨_, reads_message hend hst (by decide) (startState_exists hr h)⟩
  | ok h => exact ⟨_, .round hend hst (startState_ok hr h) rfl rfl rfl rfl rfl rfl (.of_not rfl)⟩
  | stored h => exact ⟨_, reads_message hend hst (by decide) (startState_stored hr h)⟩
  | stat hc h =>
    exact ⟨_, .round hend hst (startState_stat hr hc h) rfl rfl rfl rfl rfl rfl (.of_not rfl)⟩
  | deleted h => exact ⟨_, reads_message hend hst (by decide) (startState_deleted hr h)⟩
  | touched h => exact ⟨_, reads_message hend hst (by decide) (startState_touched hr h)⟩
  | notFound h h' =>
    exact ⟨_, reads_message hend hst (by decide)
      (startState_notFound _ _ (by rw [hr]; simp) h h')⟩
  | notStored h h' =>
    exact ⟨_, reads_message hend hst (by decide)
      (startState_notStored _ _ (by rw [hr]; simp) h h')⟩
  | number h =>
    obtain ⟨u, c, hsplit, hu, hdig, hc, -⟩ := h.split t
    obtain ⟨d, ds, rfl⟩ := List.exists_cons_of_ne_nil hu
    rw [hsplit] at hr
    exact ⟨_, .after hend hst (startState_digit hr (hdig d List.mem_cons_self)) rfl (.inl rfl) rfl rfl
      rfl (incrDecrStart_at (v := setState .incrDecrStart (pushUnsigned v)) hr hu hdig hc)
      rfl rfl rfl rfl rfl rfl (.of_not rfl)⟩
  | key h =>
    obtain ⟨u, rfl, hu⟩ := h
    exact ⟨_, .round hend hst (getStart_at (t := t) (by rw [hr]; simp) hu) rfl rfl rfl rfl rfl rfl
      fun _ => modifyLast_ne_nil (hne rfl)⟩
  | flags h =>
    obtain ⟨u, c, hsplit, hu, hdig, hc, -⟩ := h.split t
    exact ⟨_, .round hend hst (getKey_at (hr.trans hsplit) hu hdig hc) rfl rfl rfl rfl rfl rfl
      fun _ => modifyLast_ne_nil (hne rfl)⟩
  | bytes h =>
    obtain ⟨u, c, hsplit, hu, hdig, hc, rfl⟩ := h.split t
    refine ⟨_, .round hend hst (getFlags_at (hr.trans hsplit) hu hdig hc) rfl rfl rfl rfl
      (place_eq rfl ?_) rfl fun _ => modifyLast_ne_nil (hne rfl)⟩
    rw [sizeLeft_header (.inl rfl), kv_setState_modifyKv (hne rfl)]
    exact sizeAfter_bytes (Nat.mod_lt _ (Nat.two_pow_pos 32)) _
  | noCas =>
    refine ⟨_, .after hend hst (getBytes_lf hr) rfl (.inr rfl) rfl rfl rfl
      (getCas_at (v := setState .getCas (modifyKv (fun kv => { kv with casUnique := 0 }) v)) hr)
      rfl rfl rfl rfl (place_eq rfl ?_) rfl
      fun _ => modifyLast_ne_nil (modifyLast_ne_nil (hne rfl))⟩
    have hkv : (setState .getCas (modifyKv (fun kv => { kv with casUnique := 0 }) v)).kv =
        { v.kv with casUnique := 0 } := kv_setState_modifyKv (hne rfl) .getCas v.bufferReader
    rw [sizeLeft_lineEnd rfl (modifyLast_ne_nil (hne rfl)), sizeLeft_header (.inr rfl), hkv]
    rw [sizeLeft_header (.inl hst)] at hleft
    exact hleft
  | cas h =>
    obtain ⟨u, c, hsplit, hu, hdig, hc, rfl⟩ := h.split t
    refine ⟨_, .round hend hst (getBytes_at (hr.trans hsplit) hu hdig hc) rfl rfl rfl rfl
      (place_eq rfl ?_) rfl fun _ => modifyLast_ne_nil (hne rfl)⟩
    rw [sizeLeft_header (.inr rfl), kv_setState_modifyKv (hne rfl)]
    rw [sizeLeft_header (.inl hst)] at hleft
    exact hleft
  | lineEnd =>
    exact ⟨_, .round hend hst (getCas_at hr) rfl rfl rfl rfl
      (place_eq rfl ((sizeLeft_lineEnd hst (hne rfl) t).trans hleft)) rfl
      fun _ => modifyLast_ne_nil (hne rfl)⟩
  | dataBlock h =>
    rw [sizeLeft_data hst] at hleft
    have hsplit : v.bufferReader = w.take (dataLeft v.kv) ++ w.drop (dataLeft v.kv) ++ t := by
      rw [List.take_append_drop, hr]
    have heq := getValueRemaining_at hsplit (by rw [List.length_take]; simp only at hleft; omega)
      (by rw [List.length_drop]; simp only at hleft; omega)
    split_ifs at heq with hpos
    · exact ⟨_, .round hend hst heq rfl rfl rfl rfl rfl rfl (.of_not rfl)⟩
    · exact ⟨_, .round hend hst heq rfl rfl rfl rfl rfl rfl (.of_not rfl)⟩
  | versionLine h =>
    obtain ⟨u, rfl, hu⟩ := h
    have heq : verStart v = _ := ParseM.bind_ok (processLineResult_at (t := t) (by rw [hr]; simp) hu)
    exact ⟨_, .round hend hst heq rfl rfl rfl rfl rfl rfl (.of_not rfl)⟩
  | statLine h =>
    obtain ⟨u, rfl, hu⟩ := h
    have heq : statStart v = _ := ParseM.bind_ok (processLineResult_at (t := t) (by rw [hr]; simp) hu)
    exact ⟨_, .round hend hst heq rfl rfl rfl rfl rfl rfl (.of_not rfl)⟩
  | incrDecr h =>
    obtain ⟨u, c, hsplit, hu, hdig, hc, -⟩ := h.split t
    exact ⟨_, .round hend hst (incrDecrStart_at (hr.trans hsplit) hu hdig hc) rfl rfl rfl rfl rfl rfl
      (.of_not rfl)⟩
  | incrDecrLine h =>
    obtain ⟨u, rfl, hu⟩ := h
    exact ⟨_, .round hend hst (incrDecrRemaining_at (t := t) (by rw [hr]; simp) hu) rfl rfl rfl rfl
      rfl rfl (.of_not rfl)⟩

theorem Piece.not_end (hp : Piece pl w k pl') : pl.1.isEndState = false := by
  cases hp <;> rfl

theorem Piece.not_error (hp : Piece pl w k pl') : pl'.1 ≠ .error := by
  cases hp <;> exact nofun

theorem Piece.pos (hp : Piece pl w k pl') : 0 < w.length := by
  cases hp with
  | number h | flags h | bytes h | cas h | incrDecr h =>
    obtain ⟨u, c, rfl, -⟩ := h
    simp
  | key h | versionLine h | statLine h | incrDecrLine h =>
    obtain ⟨u, rfl, -⟩ := h
    simp
  | dataBlock h => omega
  | _ => simp

/-- While keys are missing, the call does not end at a place where a field is read. -/
theorem canEndParse_of_missing (hst : v.mode = .endState → v.state.isEndState = false)
    (h : v.mode ≠ .endState → v.KeysMissing k) : v.canEndParse = false := by
  unfold canEndParse
  split_ifs with hm
  · exact hst hm
  · exact decide_eq_false fun heq => h hm ⟨heq.le, heq ▸ Nat.le_add_right _ _⟩

theorem Reads1.state (h : Reads1 v t k pl v') : v'.state = pl.1 := congrArg Prod.fst h.place

theorem Reads1.trans {v'' : Flat} {t' : Bytes} {k' : ℕ} (h : Reads1 v t k pl v')
    (h' : Reads1 v' t' k' pl' v'') : Reads1 v t' (k + k') pl' v'' :=
  ⟨h.reaches.trans h'.reaches, h'.bytes, h'.place, by rw [h'.idx, h.idx, Nat.add_assoc],
    h'.keys.trans h.keys, h'.mode.trans h.mode, h'.result⟩

theorem Reads1.keysMissing {k' : ℕ} (h : Reads1 v t k pl v')
    (hmiss : v.mode ≠ .endState → v.KeysMissing (k + k')) : v'.mode ≠ .endState → v'.KeysMissing k' := by
  intro hm hc
  refine hmiss (h.mode ▸ hm) ?_
  rw [h.idx, h.keys] at hc
  omega

theorem Reads1.canEndParse (h : Reads1 v t k pl v') (hpl : pl.1.isEndState = false)
    (hmiss : v.mode ≠ .endState → v.KeysMissing k) : v'.canEndParse = false := by
  have hmiss' : v'.mode ≠ .endState → v'.KeysMissing 0 := h.keysMissing hmiss
  exact canEndParse_of_missing (fun _ => h.state ▸ hpl) hmiss'

/-- **Soundness of the grammar.** The loop works through fields while keys are missing. -/
theorem reads_pieces (hp : Pieces pl w k pl') (hpl : v.place = pl) (hres : v.HasResult)
    (hmiss : v.mode ≠ .endState → v.KeysMissing k) (hr : v.bufferReader = w ++ t) :
    ∃ v', Reads1 v t k pl' v' := by
  induction hp generalizing v with
  | nil => exact ⟨v, .refl, hr, hpl, rfl, rfl, rfl, hres⟩
  | @cons pl pl' pl'' w w' k k' h hs ih =>
    have hst : v.state.isEndState = false := by
      rw [show v.state = _ from congrArg Prod.fst hpl]
      exact h.not_end
    have hend := canEndParse_of_missing (fun _ => hst) hmiss
    rw [List.append_assoc] at hr
    obtain ⟨v₁, h₁⟩ := reads_piece h hpl hend hres hr
    obtain ⟨v₂, h₂⟩ := ih h₁.place h₁.result (h₁.keysMissing hmiss) h₁.bytes
    exact ⟨v₂, h₁.toReads1.trans h₂⟩

/-- `start_state` does nothing about a stray beginning. -/
theorem startState_stray (h : Stray v.bufferReader) : startState v = (.ok (), v) := by
  generalize hq : v.bufferReader = q at h
  cases h with
  | v h =>
    rw [startState_eq hq]
    refine (startV_eq hq).trans ?_
    rw [if_neg h.1, if_neg h.2]
    rfl
  | e h =>
    rw [startState_eq hq]
    refine (startE_eq hq).trans ?_
    rw [if_neg h.1, if_neg h.2.1, if_neg h.2.2]
    rfl
  | n hw h =>
    rw [startState_eq (t := _ ++ _) hq]
    refine (startN_eq (getElem?_four hq hw)).trans ?_
    rw [if_neg h.1, if_neg h.2]
    rfl

theorem body_stuck (hend : v.canEndParse = false)
    (h : v.state = .start ∧ Stray v.bufferReader ∨ v.state = .end_) : body v = .inl v := by
  rcases h with ⟨hst, h⟩ | hst
  · exact body_ok hend hst (startState_stray h)
  · exact body_ok hend hst rfl

theorem Hangs.not_returns (h : v.Hangs) (hres : v.HasResult) {r : ErrCode × Flat} :
    ¬ Loop.Returns body v r := by
  obtain ⟨w, t, k, pl, hr, hp, hmiss, htrap⟩ := h
  obtain ⟨v', hv'⟩ := reads_pieces hp rfl hres hmiss hr
  have hst := hv'.state
  have hmiss' : v'.mode ≠ .endState → v'.KeysMissing 0 := hv'.keysMissing hmiss
  rw [hv'.reaches.returns_iff]
  refine Loop.not_returns_of_stuck (body_stuck (canEndParse_of_missing (fun hm => ?_) hmiss') ?_)
  · rcases htrap with ⟨rfl, -⟩ | ⟨hne, -⟩
    · rw [hst]
      rfl
    · exact absurd (hv'.mode ▸ hm) hne
  · rcases htrap with ⟨rfl, hstray⟩ | ⟨-, rfl⟩
    · exact .inl ⟨hst, hv'.bytes ▸ hstray⟩
    · exact .inr hst

/-! ### A field is read, or the call ends, or it hangs -/

def Progress (v : Flat) : Prop :=
  (∃ r, Loop.Returns body v r) ∨ v.state = .start ∧ Stray v.bufferReader ∨
    ∃ w t k pl, v.bufferReader = w ++ t ∧ Piece v.place w k pl

/-- The next round ends the call, or it finds a digit and the one after it ends the call. -/
def Ends (v : Flat) : Prop :=
  (∃ r, body v = .inr r) ∨
    v.state = .start ∧ ∃ r, body v = .inl (setState .incrDecrStart (pushUnsigned v)) ∧
      body (setState .incrDecrStart (pushUnsigned v)) = .inr r

theorem Ends.returns (h : v.Ends) : ∃ r, Loop.Returns body v r := by
  rcases h with ⟨r, hr⟩ | ⟨-, r, hv, hr⟩
  · exact ⟨r, Loop.returns_of_inr hr⟩
  · exact ⟨r, (Loop.returns_of_inl hv).2 (Loop.returns_of_inr hr)⟩

/-- What may happen next, within two rounds. -/
def Advance (v : Flat) : Prop :=
  v.Ends ∨ v.state = .start ∧ Stray v.bufferReader ∨
    ∃ w t k pl, v.bufferReader = w ++ t ∧ Piece v.place w k pl

theorem advance_of_stop {st : ParserState} (hend : v.canEndParse = false) (hst : v.state = st)
    (h : stateAction st v = (.error e, v')) : Advance v :=
  .inl (.inl ⟨_, body_stop hend hst h⟩)

theorem advance_of_errorLine (hend : v.canEndParse = false) (hst : v.state = .start)
    (h : startState v = errorLine e v) : Advance v := by
  obtain ⟨e', v', he⟩ := errorLine_stops e v
  exact advance_of_stop hend hst (h.trans he)

theorem advance_of_piece {st : ParserState} (hst : v.state = st) (hr : v.bufferReader = w ++ t)
    (hp : Piece (st, v.sizeLeft) w k pl) : Advance v := by
  refine .inr (.inr ⟨w, t, k, pl, hr, ?_⟩)
  unfold place
  rwa [hst]

theorem advance_word (pre : Bytes) {r : Bytes} {m : ℕ} (hend : v.canEndParse = false)
    (hst : v.state = .start) (hr : v.bufferReader = pre ++ r)
    (hshort : v.bufferReader.length < pre.length + m → startState v = (incomplete, v))
    (hp : ∀ w, w.length = m → Piece (.start, 0) (pre ++ w) k pl) : Advance v := by
  by_cases hlen : r.length < m
  · exact advance_of_stop hend hst (hshort (by rw [hr, List.length_append]; omega))
  · have hsize : v.sizeLeft = 0 := by
      unfold sizeLeft
      rw [hst]
    have hpiece : Piece (.start, v.sizeLeft) (pre ++ r.take m) k pl := by
      rw [hsize]
      exact hp _ (List.length_take_of_le (by omega))
    exact advance_of_piece (t := r.drop m) hst
      (by rw [hr, List.append_assoc, List.take_append_drop]) hpiece

theorem number_or_stop (v : Flat) : (∃ e, readUnsigned v = (.error e, v)) ∨
    ∃ w n t, v.bufferReader = w ++ t ∧ NumberField w n := by
  rcases ByteQueue.readUnsigned_cases v.bufferReader with
    h | ⟨c, t, heq, hc, -⟩ | ⟨u, c, t, heq, hu, hd, hc⟩
  · refine .inl ⟨.incompleteBufferErr, ?_⟩
    unfold readUnsigned
    simp only [ByteReader.readUnsigned, h]
    rfl
  · obtain ⟨e, he⟩ := readUnsigned_stop heq hc
    exact .inl ⟨e, he⟩
  · exact .inr ⟨u ++ [c], _, t, by simp [heq], u, c, rfl, hu, hd, hc, rfl⟩

theorem fieldTo_or_not (c : UInt8) (q : Bytes) : c ∉ q ∨ ∃ w t, q = w ++ t ∧ FieldTo c w := by
  by_cases h : c ∈ q
  · obtain ⟨s, t, rfl, hs⟩ := List.eq_append_cons_of_mem h
    exact .inr ⟨s ++ [c], t, by simp, s, rfl, hs⟩
  · exact .inl h

theorem sizeLeft_zero {st : ParserState} (hst : v.state = st) (h : st ≠ .getBytes ∧ st ≠ .getCas ∧
    st ≠ .getValueRemaining) : v.sizeLeft = 0 := by
  subst hst
  unfold sizeLeft
  cases hs : v.state <;> simp_all

theorem advance_of_field {st : ParserState} (hst : v.state = st) (hsize : st ≠ .getBytes ∧
    st ≠ .getCas ∧ st ≠ .getValueRemaining) (hr : v.bufferReader = w ++ t)
    (hp : Piece (st, 0) w k pl) : Advance v :=
  advance_of_piece hst hr (by rwa [sizeLeft_zero hst hsize])

theorem advance_v {r : Bytes} (hend : v.canEndParse = false) (hst : v.state = .start)
    (hr : v.bufferReader = 86 :: r) : Advance v := by
  cases r with
  | nil =>
    have h : startState v = (incomplete, v) :=
      (startState_eq hr).trans (ParseM.bind_error (peek_none (by rw [hr]; rfl)))
    exact advance_of_stop hend hst h
  | cons c2 r =>
    have heq : startState v = _ := (startState_eq hr).trans (startV_eq hr)
    by_cases h1 : c2 = 65
    · subst h1
      refine advance_word ([86, 65]) (m := 4) hend hst hr (fun h => heq.trans ?_)
        fun w hw => .value hw
      exact skip_bind_none h
    by_cases h2 : c2 = 69
    · subst h2
      refine advance_word ([86, 69]) (m := 6) hend hst hr (fun h => heq.trans ?_)
        fun w hw => .version hw
      exact skip_bind_none h
    · exact .inr (.inl ⟨hst, hr ▸ .v ⟨h1, h2⟩⟩)

theorem advance_e {r : Bytes} (hend : v.canEndParse = false) (hst : v.state = .start)
    (hr : v.bufferReader = 69 :: r) : Advance v := by
  cases r with
  | nil =>
    have h : startState v = (incomplete, v) :=
      (startState_eq hr).trans (ParseM.bind_error (peek_none (by rw [hr]; rfl)))
    exact advance_of_stop hend hst h
  | cons c2 r =>
    have heq : startState v = _ := (startState_eq hr).trans (startE_eq hr)
    by_cases h1 : c2 = 82
    · rw [if_pos h1] at heq
      exact advance_of_errorLine hend hst heq
    by_cases h2 : c2 = 78
    · subst h2
      refine advance_word ([69, 78]) (m := 3) hend hst hr (fun h => heq.trans ?_)
        fun w hw => .end_ hw
      exact skip_bind_none h
    by_cases h3 : c2 = 88
    · subst h3
      refine advance_word ([69, 88]) (m := 6) hend hst hr (fun h => heq.trans ?_)
        fun w hw => .exists_ hw
      exact message_none _ h
    · exact .inr (.inl ⟨hst, hr ▸ .e ⟨h1, h2, h3⟩⟩)

theorem advance_s {r : Bytes} (hend : v.canEndParse = false) (hst : v.state = .start)
    (hr : v.bufferReader = 83 :: r) : Advance v := by
  by_cases hshort : r.length < 2
  · have h : startState v = (incomplete, v) := (startState_eq hr).trans
      (ParseM.bind_error (peek_none (by rw [hr, List.length_cons]; omega)))
    exact advance_of_stop hend hst h
  obtain ⟨c2, c3, r, rfl⟩ : ∃ c2 c3 r', r = c2 :: c3 :: r' := by
    match r, hshort with
    | [], h => simp at h
    | [_], h => simp at h
    | c2 :: c3 :: r', _ => exact ⟨c2, c3, r', rfl⟩
  have heq : startState v = _ := (startState_eq hr).trans (startS_eq hr)
  by_cases h2 : c2 = 84
  · subst h2
    rw [if_pos rfl] at heq
    by_cases h3 : c3 = 79
    · subst h3
      refine advance_word ([83, 84, 79]) (m := 5) hend hst hr
        (fun h => heq.trans ?_) fun w hw => .stored hw
      exact message_none _ h
    · rw [if_neg h3] at heq
      exact advance_word ([83, 84, c3]) (m := 2) hend hst hr
        (fun h => heq.trans (skip_bind_none h)) fun w hw => .stat h3 hw
  · rw [if_neg h2] at heq
    exact advance_of_errorLine hend hst heq

theorem advance_n {r : Bytes} (hend : v.canEndParse = false) (hst : v.state = .start)
    (hr : v.bufferReader = 78 :: r) : Advance v := by
  by_cases hshort : r.length < 4
  · have h : startState v = (incomplete, v) := (startState_eq hr).trans
      (ParseM.bind_error (peek_none (by rw [hr, List.length_cons]; omega)))
    exact advance_of_stop hend hst h
  obtain ⟨w, c5, r', rfl, hw⟩ : ∃ w c5 r', r = w ++ c5 :: r' ∧ w.length = 3 := by
    refine ⟨r.take 3, r[3], r.drop 4, ?_, List.length_take_of_le (by omega)⟩
    rw [← List.drop_eq_getElem_cons (by omega), List.take_append_drop]
  have heq : startState v = _ := (startState_eq hr).trans (startN_eq (getElem?_four hr hw))
  by_cases h1 : c5 = 70
  · subst h1
    refine advance_word (78 :: w ++ [70]) (r := r') (m := 6) hend hst (by rw [hr]; simp)
      (fun h => heq.trans (message_none _ (by simpa [hw] using h))) fun w' hw' =>
        (show Piece _ _ 1 (.start, 0) by simpa using Piece.notFound hw hw')
  by_cases h2 : c5 = 83
  · subst h2
    refine advance_word (78 :: w ++ [83]) (r := r') (m := 7) hend hst (by rw [hr]; simp)
      (fun h => heq.trans (message_none _ (by simpa [hw] using h))) fun w' hw' =>
        (show Piece _ _ 1 (.start, 0) by simpa using Piece.notStored hw hw')
  · exact .inr (.inl ⟨hst, hr ▸ .n hw ⟨h1, h2⟩⟩)

theorem advance_digit {c : UInt8} {r : Bytes} (hend : v.canEndParse = false) (hst : v.state = .start)
    (hr : v.bufferReader = c :: r) (hc : isDigit c) : Advance v := by
  have h1 := body_ok hend hst (startState_digit hr hc)
  have hend' : (setState .incrDecrStart (pushUnsigned v)).canEndParse = false :=
    canEndParse_after hend rfl rfl rfl rfl
  rcases number_or_stop (modifyUnsigned (fun inner => { inner with value := 0 })
    (setState .incrDecrStart (pushUnsigned v))) with ⟨e, h⟩ | ⟨w, n, t, hsplit, hn⟩
  · have h2 : stateAction .incrDecrStart (setState .incrDecrStart (pushUnsigned v)) =
        (.error e, _) := (ParseM.assign_bind _ _).trans (ParseM.bind_error h)
    exact .inl (.inr ⟨hst, _, h1, body_stop hend' rfl h2⟩)
  · exact advance_of_field hst (by decide) hsplit (.number hn)

theorem advance_start (hend : v.canEndParse = false) (hst : v.state = .start) : Advance v := by
  rcases hr : v.bufferReader with _ | ⟨c1, r⟩
  · exact advance_of_stop hend hst (startState_nil hr)
  have hstart := startState_eq hr
  have hword : ∀ tp, (startCase c1 : ParseM Bytes Bytes Unit) = message 9 tp →
      (∀ w : Bytes, w.length = 8 → Piece (.start, 0) ([c1] ++ w) 1 (.start, 0)) → Advance v := by
    intro tp htp hp
    refine advance_word ([c1]) (m := 8) hend hst hr (fun h => hstart.trans ?_) hp
    rw [htp]
    exact message_none tp h
  by_cases hV : c1 = 86
  · exact advance_v hend hst (hV ▸ hr)
  by_cases hE : c1 = 69
  · exact advance_e hend hst (hE ▸ hr)
  by_cases hO : c1 = 79
  · subst hO
    refine advance_word ([79]) (m := 3) hend hst hr (fun h => hstart.trans ?_)
      fun w hw => .ok hw
    exact ParseM.bind_error (message_none .ok h)
  by_cases hS : c1 = 83
  · exact advance_s hend hst (hS ▸ hr)
  by_cases hD : c1 = 68
  · subst hD
    exact hword .deleted rfl fun w hw => .deleted hw
  by_cases hN : c1 = 78
  · exact advance_n hend hst (hN ▸ hr)
  by_cases hT : c1 = 84
  · subst hT
    exact hword .touched rfl fun w hw => .touched hw
  by_cases hC : c1 = 67
  · subst hC
    exact advance_of_errorLine (e := .programmingErr) hend hst hstart
  by_cases hdigit : isDigit c1
  · exact advance_digit hend hst hr hdigit
  · have hcase : startCase c1 v = (.error .programmingErr, v) := by
      unfold startCase
      rw [if_neg hV, if_neg hE, if_neg hO, if_neg hS, if_neg hD, if_neg hN, if_neg hT, if_neg hC,
        if_neg hdigit]
      rfl
    exact advance_of_stop hend hst (hstart.trans hcase)

theorem readCasUnique_stop {r : Bytes} (hr : v.bufferReader = c :: r) (hc : c ≠ lf)
    (h : readUnsigned (modifyKv (fun kv => { kv with casUnique := 0 }) v) =
      (.error e, modifyKv (fun kv => { kv with casUnique := 0 }) v)) :
    readCasUnique v = (.error e, modifyKv (fun kv => { kv with casUnique := 0 }) v) := by
  unfold readCasUnique
  rw [ParseM.bind_ok (peek_at (c := c) (by rw [hr]; rfl)), if_neg hc, ParseM.assign_bind,
    ParseM.bind_error h]

theorem advance_getBytes (hend : v.canEndParse = false) (hst : v.state = .getBytes) :
    Advance v := by
  rcases hr : v.bufferReader with _ | ⟨c, r⟩
  · have h : getBytes v = (incomplete, v) :=
      ParseM.bind_error (ParseM.bind_error (peek_none (by rw [hr]; rfl)))
    exact advance_of_stop hend hst h
  by_cases hc : c = lf
  · subst hc
    exact advance_of_piece (w := [lf]) (t := r) hst hr .noCas
  rcases number_or_stop (modifyKv (fun kv => { kv with casUnique := 0 }) v) with
    ⟨e, h⟩ | ⟨w, n, t, hsplit, hn⟩
  · exact advance_of_stop hend hst (ParseM.bind_error (readCasUnique_stop hr hc h))
  · exact advance_of_piece hst hsplit (.cas hn)

theorem advance (hend : v.canEndParse = false) (herr : v.state ≠ .error) (hne : v.state ≠ .end_) :
    Advance v := by
  cases hst : v.state with
  | start => exact advance_start hend hst
  | end_ => exact absurd hst hne
  | error => exact absurd hst herr
  | getStart =>
    rcases fieldTo_or_not space v.bufferReader with h | ⟨w, t, hr, hw⟩
    · exact advance_of_stop hend hst (getStart_none h)
    · exact advance_of_field hst (by decide) hr (.key hw)
  | getKey =>
    rcases number_or_stop v with ⟨e, h⟩ | ⟨w, n, t, hr, hn⟩
    · exact advance_of_stop hend hst (ParseM.bind_error h)
    · exact advance_of_field hst (by decide) hr (.flags hn)
  | getFlags =>
    rcases number_or_stop v with ⟨e, h⟩ | ⟨w, n, t, hr, hn⟩
    · exact advance_of_stop hend hst (ParseM.bind_error h)
    · exact advance_of_field hst (by decide) hr (.bytes hn)
  | getBytes => exact advance_getBytes hend hst
  | getCas =>
    rcases hr : v.bufferReader with _ | ⟨c, r⟩
    · exact advance_of_stop hend hst (ParseM.bind_error (skipBytes_none (by rw [hr]; decide)))
    · exact advance_of_piece (w := [c]) (t := r) hst hr .lineEnd
  | getValueRemaining =>
    by_cases hlen : v.bufferReader.length < dataLeft v.kv + 2
    · obtain ⟨v', h⟩ := getValueRemaining_short hlen
      exact advance_of_stop hend hst h
    · refine advance_of_piece hst (List.take_append_drop (dataLeft v.kv + 2) v.bufferReader).symm
        (.dataBlock ?_)
      rw [sizeLeft_data hst, List.length_take_of_le (by omega)]
  | verStart =>
    rcases fieldTo_or_not lf v.bufferReader with h | ⟨w, t, hr, hw⟩
    · exact advance_of_stop hend hst (ParseM.bind_error (processLineResult_none h))
    · exact advance_of_field hst (by decide) hr (.versionLine hw)
  | statStart =>
    rcases fieldTo_or_not lf v.bufferReader with h | ⟨w, t, hr, hw⟩
    · exact advance_of_stop hend hst (ParseM.bind_error (processLineResult_none h))
    · exact advance_of_field hst (by decide) hr (.statLine hw)
  | incrDecrStart =>
    rcases number_or_stop (modifyUnsigned (fun inner => { inner with value := 0 }) v) with
      ⟨e, h⟩ | ⟨w, n, t, hr, hn⟩
    · exact advance_of_stop hend hst ((ParseM.assign_bind _ _).trans (ParseM.bind_error h))
    · exact advance_of_field hst (by decide) hr (.incrDecr hn)
  | incrDecrRemaining =>
    rcases fieldTo_or_not lf v.bufferReader with h | ⟨w, t, hr, hw⟩
    · exact advance_of_stop hend hst (ParseM.bind_error (skipUntil_none h))
    · exact advance_of_field hst (by decide) hr (.incrDecrLine hw)

/-- At every place a field is read, or the call ends, or a stray beginning is met. -/
theorem progress (hend : v.canEndParse = false) (herr : v.state ≠ .error) (hne : v.state ≠ .end_) :
    Progress v :=
  (advance hend herr hne).imp_left Ends.returns

theorem Piece.keys_le (hp : Piece pl w k pl') : k ≤ 1 := by
  cases hp <;> omega

/-- In `MODE_COUNTING` a call that goes on has keys missing. -/
theorem keysMissing_of_canEndParse (hend : v.canEndParse = false) :
    v.mode ≠ .endState → v.KeysMissing 0 := by
  intro hm hc
  unfold canEndParse at hend
  rw [if_neg hm] at hend
  exact of_decide_eq_false hend (le_antisymm hc.1 hc.2)

theorem Reads1.keysMissing_add {k' : ℕ} (h : Reads1 v t k pl v') (hk : k ≤ 1)
    (hend : v.canEndParse = false) (hmiss : v'.mode ≠ .endState → v'.KeysMissing k') :
    v.mode ≠ .endState → v.KeysMissing (k + k') := by
  intro hm hc
  have hne := keysMissing_of_canEndParse hend hm
  refine hmiss (h.mode ▸ hm) ?_
  unfold KeysMissing at hne
  rw [h.idx, h.keys]
  omega

/-- An input that hangs after a field hangs. -/
theorem Hangs.of_reads (hp : Piece v.place w k pl) (hr : v.bufferReader = w ++ t)
    (h : Reads1 v t k pl v') (hh : v'.Hangs) (hend : v.canEndParse = false) : v.Hangs := by
  obtain ⟨w', t', k', pl', hr', hp', hmiss', htrap⟩ := hh
  have hmiss := h.keysMissing_add hp.keys_le hend hmiss'
  rw [h.place] at hp'
  rw [h.mode] at htrap
  refine ⟨w ++ w', t', k + k', pl', ?_, .cons hp hp', hmiss, htrap⟩
  rw [hr, ← h.bytes, hr', List.append_assoc]

/-- **Completeness of the grammar.** On every other input the loop ends, by induction on the number
of unread bytes. -/
theorem returns_of_not_hangs (hres : v.HasResult) (herr : v.state ≠ .error) (h : ¬ v.Hangs) :
    ∃ r, Loop.Returns body v r := by
  induction hn : v.bufferReader.length using Nat.strong_induction_on generalizing v with
  | _ n ih =>
    rcases hend : v.canEndParse with _ | _
    · have hmiss := keysMissing_of_canEndParse hend
      by_cases hst : v.state = .end_
      · -- nothing leaves the end state, and it is the end only in `MODE_END_STATE`
        have hm : v.mode ≠ .endState := by
          intro hm
          unfold canEndParse at hend
          rw [if_pos hm, hst] at hend
          cases hend
        refine absurd ⟨[], v.bufferReader, 0, v.place, rfl, .nil, hmiss, .inr ⟨hm, ?_⟩⟩ h
        exact place_eq hst (sizeLeft_zero hst (by decide))
      rcases progress hend herr hst with hr | ⟨hstart, hstray⟩ | ⟨w, t, k, pl, hr, hp⟩
      · exact hr
      · refine absurd ⟨[], v.bufferReader, 0, v.place, rfl, .nil, hmiss, .inl ⟨?_, hstray⟩⟩ h
        exact place_eq hstart (sizeLeft_zero hstart (by decide))
      · obtain ⟨v', hv'⟩ := reads_piece hp rfl hend hres hr
        have hpos := hp.pos
        have hlt : v'.bufferReader.length < n := by
          rw [← hn, hv'.bytes, hr, List.length_append]
          omega
        have herr' : v'.state ≠ .error := hv'.state ▸ hp.not_error
        obtain ⟨r, hret⟩ := ih _ hlt hv'.result herr'
          (fun hh => h (.of_reads hp hr hv'.toReads1 hh hend)) rfl
        exact ⟨r, hv'.reaches.returns_iff.2 hret⟩
    · exact ⟨_, Loop.returns_of_inr (body_of_canEndParse hend)⟩

/-- The loop over bytes ends exactly on the inputs that do not hang. -/
theorem loop_returns_iff (hres : v.HasResult) (herr : v.state ≠ .error) :
    (∃ r, Loop.Returns body v r) ↔ ¬ v.Hangs :=
  ⟨fun ⟨_, hr⟩ hh => hh.not_returns hres hr, returns_of_not_hangs hres herr⟩

/-! ### What the rounds keep -/

section

variable {α β : Type} {I J : Flat → Prop} {m : ParseM Bytes Bytes α}
  {f : α → ParseM Bytes Bytes β}

/-- `m` keeps `I`, whether it stops or not. -/
def Keeps (I : Flat → Prop) (m : ParseM Bytes Bytes α) : Prop := ∀ v, I v → I (m v).2

theorem Keeps.bind (hm : Keeps I m) (hf : ∀ a, Keeps I (f a)) : Keeps I (m >>= f) := by
  intro v hv
  have hv' := hm v hv
  rcases h : m v with ⟨e | a, v'⟩ <;> rw [h] at hv'
  · rwa [ParseM.bind_error h]
  · rw [ParseM.bind_ok h]
    exact hf a v' hv'

theorem Keeps.ite {q : Prop} [Decidable q] {k : ParseM Bytes Bytes α} (hm : Keeps I m)
    (hk : Keeps I k) : Keeps I (if q then m else k) := by
  split_ifs
  · exact hm
  · exact hk

theorem keeps_assign {g : Flat → Flat} (hg : ∀ v, I v → I (g v)) : Keeps I (ParseM.assign g) := hg

/-- From `I` the computation comes to `J`, and it stops in `I`. -/
def LeadsTo (I J : Flat → Prop) (m : ParseM Bytes Bytes α) : Prop :=
  ∀ v, I v → J (m v).2 ∧ ∀ e, (m v).1 = .error e → I (m v).2

theorem Keeps.leadsTo (hm : Keeps I m) (hIJ : ∀ v, I v → J v) : LeadsTo I J m :=
  fun v hv => ⟨hIJ _ (hm v hv), fun _ _ => hm v hv⟩

theorem Keeps.bind_leadsTo (hm : Keeps I m) (hIJ : ∀ v, I v → J v) (hf : ∀ a, LeadsTo I J (f a)) :
    LeadsTo I J (m >>= f) := by
  intro v hv
  have hv' := hm v hv
  rcases h : m v with ⟨e | a, v'⟩ <;> rw [h] at hv'
  · rw [ParseM.bind_error h]
    exact ⟨hIJ _ hv', fun _ _ => hv'⟩
  · rw [ParseM.bind_ok h]
    exact hf a v' hv'

theorem LeadsTo.ite {p : Prop} [Decidable p] {m' : ParseM Bytes Bytes α} (hm : LeadsTo I J m)
    (hm' : LeadsTo I J m') : LeadsTo I J (if p then m else m') := by
  split_ifs
  · exact hm
  · exact hm'

theorem leadsTo_assign {g : Flat → Flat} (hg : ∀ v, I v → J (g v)) :
    LeadsTo I J (ParseM.assign g) := fun v hv => ⟨hg v hv, nofun⟩

theorem keeps_pure (a : α) : Keeps I (pure a) := fun _ hv => hv

theorem keeps_stop (e : ErrCode) : Keeps I (ParseM.stop e : ParseM Bytes Bytes α) := fun _ hv => hv

variable (hI : ∀ (v : Flat) t, I v → I { v with bufferReader := t })

theorem keeps_peek (n : ℕ) : Keeps I (peek n) := fun _ hv => hv

include hI

theorem keeps_readUntil (c : UInt8) : Keeps I (readUntil c) := fun _ hv => hI _ _ hv

theorem keeps_skipUntil (c : UInt8) : Keeps I (skipUntil c) := fun _ hv => hI _ _ hv

theorem keeps_readUnsigned : Keeps I readUnsigned := fun _ hv => hI _ _ hv

theorem keeps_readBytes (n : ℕ) : Keeps I (readBytes n) := fun _ hv => hI _ _ hv

theorem keeps_skipBytes (n : ℕ) : Keeps I (skipBytes n) := fun _ hv => hI _ _ hv

end

def Nonempty (v : Flat) : Prop := v.retrievalResults ≠ []

theorem nonempty_bytes (v : Flat) (t : Bytes) (h : v.Nonempty) :
    Nonempty { v with bufferReader := t } := h

theorem hasResult_bytes (v : Flat) (t : Bytes) (h : v.HasResult) :
    HasResult { v with bufferReader := t } := h

theorem keeps_modifyKv (g : RetrievalResult Bytes → RetrievalResult Bytes) :
    Keeps Nonempty (ParseM.assign (modifyKv g)) := fun _ h => modifyLast_ne_nil h

theorem keeps_setState (st : ParserState) : Keeps Nonempty (ParseM.assign (setState st)) :=
  fun _ h => h

theorem keeps_leave {st : ParserState} (h : usesKv st = false) :
    Keeps HasResult (ParseM.assign (setState st)) := fun _ _ => .of_not h

theorem keeps_message (n : ℕ) (tp : MessageResultType) : Keeps HasResult (message n tp) :=
  (keeps_skipBytes hasResult_bytes n).bind fun _ => keeps_assign fun v hv h => by
    rw [processMessageResult_state] at h
    rw [show (processMessageResult tp v).retrievalResults = v.retrievalResults by
      unfold processMessageResult
      split_ifs <;> rfl]
    exact hv h

theorem keeps_errorLine (e : ErrCode) : Keeps HasResult (errorLine e) :=
  (keeps_readUntil hasResult_bytes lf).bind fun _ =>
    (keeps_skipBytes hasResult_bytes 1).bind fun _ => Keeps.bind (fun _ hv => hv) fun _ =>
      (keeps_leave rfl).bind fun _ => keeps_stop e

theorem keeps_processLineResult : Keeps HasResult processLineResult :=
  Keeps.bind (fun _ hv => hv) fun _ => (keeps_readUntil hasResult_bytes lf).bind fun _ =>
    Keeps.bind (fun _ hv => hv) fun _ => keeps_skipBytes hasResult_bytes 1

theorem keeps_startV : Keeps HasResult startV := by
  refine (keeps_peek 1).bind fun _ => .ite ?_ <| .ite ?_ (keeps_pure ())
  · refine (keeps_skipBytes hasResult_bytes 6).bind fun _ v _ _ => ?_
    show (pushRetrieval v).retrievalResults ≠ []
    simp [pushRetrieval]
  · exact (keeps_skipBytes hasResult_bytes 8).bind fun _ => Keeps.bind (fun _ hv => hv) fun _ =>
      keeps_leave rfl

theorem keeps_startState : Keeps HasResult startState :=
  (keeps_peek 0).bind fun _ => .ite keeps_startV <|
    .ite ((keeps_peek 1).bind fun _ => .ite (keeps_errorLine _) <|
      .ite ((keeps_skipBytes hasResult_bytes 5).bind fun _ => keeps_leave rfl) <|
      .ite (keeps_message 8 _) (keeps_pure ())) <|
    .ite ((keeps_message 4 .ok).bind fun _ => keeps_leave rfl) <|
    .ite ((keeps_peek 2).bind fun _ => (keeps_peek 1).bind fun _ =>
      .ite (.ite (keeps_message 8 _) ((keeps_skipBytes hasResult_bytes 5).bind fun _ =>
        Keeps.bind (fun _ hv => hv) fun _ => keeps_leave rfl)) (keeps_errorLine _)) <|
    .ite (keeps_message 9 _) <|
    .ite ((keeps_peek 4).bind fun _ => .ite (keeps_message 11 _) <|
      .ite (keeps_message 12 _) (keeps_pure ())) <|
    .ite (keeps_message 9 _) <| .ite (keeps_errorLine _) <|
    .ite (Keeps.bind (fun _ hv => hv) fun _ => keeps_leave rfl) (keeps_stop _)

theorem keeps_getStart : Keeps Nonempty getStart :=
  (keeps_modifyKv _).bind fun _ => (keeps_readUntil nonempty_bytes space).bind fun _ =>
    (keeps_modifyKv _).bind fun _ => (keeps_skipBytes nonempty_bytes 1).bind fun _ =>
      keeps_setState _

theorem keeps_number (g : ℕ → RetrievalResult Bytes → RetrievalResult Bytes) (st : ParserState) :
    Keeps Nonempty (do let n ← readUnsigned; ParseM.assign (modifyKv (g n)); skipBytes 1
                       ParseM.assign (setState st)) :=
  (keeps_readUnsigned nonempty_bytes).bind fun _ => (keeps_modifyKv _).bind fun _ =>
    (keeps_skipBytes nonempty_bytes 1).bind fun _ => keeps_setState _

theorem keeps_getBytes : Keeps Nonempty getBytes :=
  Keeps.bind ((keeps_peek 0).bind fun _ => .ite (keeps_modifyKv _) <|
    (keeps_modifyKv _).bind fun _ => (keeps_readUnsigned nonempty_bytes).bind fun _ =>
      (keeps_modifyKv _).bind fun _ => keeps_skipBytes nonempty_bytes 1) fun _ => keeps_setState _

theorem keeps_getValueRemaining : Keeps Nonempty getValueRemaining := by
  refine Keeps.bind (fun v hv => ?_) fun _ =>
    (keeps_skipBytes nonempty_bytes 2).bind fun _ => keeps_setState _
  rw [readDataBlock_eq]
  split_ifs
  · refine (keeps_modifyKv _).bind (fun _ => Keeps.bind (fun w hw => ?_) fun _ =>
      (keeps_readBytes nonempty_bytes _).bind fun _ => keeps_modifyKv _) v hv
    rw [ParseM.assign_apply, wishForBlock_flat]
    exact hw
  · exact hv

/-- A state that uses `mt_kvPtr` keeps its result. -/
theorem keeps_kv {st : ParserState} (h : usesKv st = true) : Keeps Nonempty (stateAction st) := by
  cases st with
  | getStart => exact keeps_getStart
  | getKey => exact keeps_number _ _
  | getFlags => exact keeps_number _ _
  | getBytes => exact keeps_getBytes
  | getCas =>
    exact (keeps_skipBytes nonempty_bytes 1).bind fun _ => (keeps_modifyKv _).bind fun _ =>
      keeps_setState _
  | getValueRemaining => exact keeps_getValueRemaining
  | _ => cases h

theorem keeps_stateAction (st : ParserState) (v : Flat) (hst : v.state = st) (h : v.HasResult) :
    (stateAction st v).2.HasResult := by
  by_cases hkv : usesKv st = true
  · exact fun _ => keeps_kv hkv v (h (hst ▸ hkv))
  · cases st with
    | start => exact keeps_startState v h
    | end_ => exact h
    | error => exact h
    | verStart => exact keeps_processLineResult.bind (fun _ => keeps_leave rfl) v h
    | statStart => exact keeps_processLineResult.bind (fun _ => keeps_leave rfl) v h
    | incrDecrStart =>
      refine Keeps.bind (fun _ hv => hv) (fun _ => (keeps_readUnsigned hasResult_bytes).bind fun _ =>
        Keeps.bind (fun _ hv => hv) fun _ => (keeps_skipBytes hasResult_bytes 1).bind fun _ =>
          Keeps.bind (fun _ hv => hv) fun _ => keeps_leave rfl) v h
    | incrDecrRemaining =>
      exact (keeps_skipUntil hasResult_bytes lf).bind (fun _ =>
        (keeps_skipBytes hasResult_bytes 1).bind fun _ => Keeps.bind (fun _ hv => hv) fun _ =>
          keeps_leave rfl) v h
    | _ => exact absurd rfl hkv

theorem body_hasResult (h : v.HasResult) :
    (∀ v', body v = .inl v' → v'.HasResult) ∧ ∀ r, body v = .inr r → r.2.HasResult := by
  have hs := keeps_stateAction v.state v rfl h
  rcases hend : v.canEndParse with _ | _
  · rw [body_eq hend]
    rcases hv : stateAction v.state v with ⟨e | _, w⟩ <;> rw [hv] at hs
    · refine ⟨nofun, fun r hr => ?_⟩
      obtain rfl := Sum.inr.inj hr
      exact hs
    · refine ⟨fun v' hv' => ?_, fun r hr => by cases hr⟩
      obtain rfl := Sum.inl.inj hv'
      exact hs
  · rw [body_of_canEndParse hend]
    refine ⟨nofun, fun r hr => ?_⟩
    obtain rfl := Sum.inr.inj hr
    exact h

theorem enter_hasResult (h : v.HasResult) : v.enter.HasResult := by
  unfold enter
  split_ifs
  · exact .of_not rfl
  · exact h

/-! ### The parser in use -/

/-- The parsers that come about on a connection, whose blocks have at least this capacity. -/
inductive Reachable (minCapacity : ℕ) : Blocks → Prop
  | fresh (keys : List Bytes) (mode : ParserMode) : Reachable minCapacity (fresh keys mode)
  | write {p : Blocks} (h : Reachable minCapacity p) (bs : Bytes) :
      Reachable minCapacity ((machine minCapacity).feed p bs)
  | process {p q : Blocks} {e : ErrCode} (h : Reachable minCapacity p) (hr : p.Returns (e, q)) :
      Reachable minCapacity q
  | addRequestKey {p : Blocks} (h : Reachable minCapacity p) (key : Bytes) :
      Reachable minCapacity { p with requestKeys := p.requestKeys ++ [key] }
  | setMode {p : Blocks} (h : Reachable minCapacity p) (mode : ParserMode) :
      Reachable minCapacity { p with mode := mode }
  | reset {p : Blocks} (h : Reachable minCapacity p) :
      Reachable minCapacity { p.reset with bufferReader := p.bufferReader.reset }
  | rewind {p : Blocks} (h : Reachable minCapacity p) :
      Reachable minCapacity { p.rewind with bufferReader := p.bufferReader.reset }

theorem Returns.view {p q : Blocks} {e : ErrCode} (h : p.Ok) (hr : p.Returns (e, q)) :
    q.Ok ∧ p.view.Returns (e, q.view) := by
  obtain ⟨n, hn⟩ := hr
  have hq := h.enter.run hn
  exact ⟨hq, (returns_view h (e, q.view)).2 ⟨q, ⟨n, hn⟩, hq, rfl⟩⟩

theorem Returns.hasResult {r : ErrCode × Flat} (h : v.HasResult) (hr : v.Returns r) :
    r.2.HasResult := by
  obtain ⟨n, hn⟩ := hr
  exact Loop.run_invariant (I := HasResult) (J := fun r => r.2.HasResult)
    (fun _ v' hv hb => (body_hasResult hv).1 v' hb) (fun _ r hv hb => (body_hasResult hv).2 r hb)
    (enter_hasResult h) hn

theorem Reachable.inv {cap : ℕ} {p : Blocks} (h : Reachable cap p) : p.Ok ∧ p.view.HasResult := by
  induction h with
  | fresh keys mode => exact ⟨fresh_ok keys mode, .of_not rfl⟩
  | @write p _ bs ih =>
    obtain ⟨hfeed, hok⟩ := machine_feed p ih.1 cap bs
    refine ⟨hok, ?_⟩
    rw [← hfeed]
    exact ih.2
  | process _ hr ih =>
    obtain ⟨hq, hv⟩ := hr.view ih.1
    exact ⟨hq, hv.hasResult ih.2⟩
  | addRequestKey _ key ih => exact ⟨⟨ih.1.wf, ih.1.results, ih.1.lines⟩, ih.2⟩
  | setMode _ mode ih => exact ⟨⟨ih.1.wf, ih.1.results, ih.1.lines⟩, ih.2⟩
  | reset _ ih =>
    exact ⟨⟨(BufferReader.wf_reset ih.1.wf).1, fun _ h => absurd h List.not_mem_nil,
      fun _ h => absurd h List.not_mem_nil⟩, .of_not rfl⟩
  | rewind _ ih =>
    exact ⟨⟨(BufferReader.wf_reset ih.1.wf).1, fun _ h => absurd h List.not_mem_nil,
      fun _ h => absurd h List.not_mem_nil⟩, .of_not rfl⟩

/-- **When `process_packets` returns.** In every state that earlier calls can leave, it returns
exactly if the unread bytes do not lead to a stray beginning or, in `MODE_COUNTING`, to an end
state, while the call cannot end. -/
theorem process_packets_returns_iff {cap : ℕ} {p : Blocks} (h : Reachable cap p) :
    (∃ r, p.Returns r) ↔ ¬ p.view.enter.Hangs := by
  obtain ⟨hok, hres⟩ := h.inv
  have herr : p.view.enter.state ≠ .error := by
    unfold enter
    split_ifs with hst
    · exact nofun
    · intro hc
      rw [hc] at hst
      exact hst rfl
  rw [← loop_returns_iff (enter_hasResult hres) herr]
  constructor
  · rintro ⟨⟨e, q⟩, hr⟩
    exact ⟨_, (hr.view hok).2⟩
  · rintro ⟨r, hr⟩
    obtain ⟨q, hq, -⟩ := (returns_view hok r).1 hr
    exact ⟨_, hq⟩

theorem process_packets_returns_iff_end :
    (∃ r, ((machine 8192).feed (fresh [] .endState) (ascii "END\r\n")).Returns r) ↔
      ¬ ((machine 8192).feed (fresh [] .endState) (ascii "END\r\n")).view.enter.Hangs :=
  process_packets_returns_iff (.write (.fresh [] .endState) _)

/-- Two bytes are enough: `V` begins a reply, and the second byte is neither of those known. -/
theorem process_packets_stuck :
    Reachable 8192 ((machine 8192).feed (fresh [] .endState) (ascii "VX")) ∧
      ¬ ∃ r, ((machine 8192).feed (fresh [] .endState) (ascii "VX")).Returns r :=
  have hstuck : body ((machine 8192).feed (fresh [] .endState) (ascii "VX")).enter =
      .inl ((machine 8192).feed (fresh [] .endState) (ascii "VX")).enter := rfl
  ⟨.write (.fresh [] .endState) _, fun ⟨_, h⟩ => Loop.not_returns_of_stuck hstuck h⟩

end PacketParser

end Libmc
