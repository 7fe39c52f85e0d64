import Libmc.ParserFeed

/-!
# What each state does with the bytes it finds

Over bytes, every state of the parser is described by one equation for each kind of input: the
field it reads is there with its terminator, or it is not there yet, or it is something else.
-/

namespace Libmc

theorem modifyLast_modifyLast_comp {α : Type} (f g : α → α) (l : List α) :
    (l.modifyLast f).modifyLast g = l.modifyLast (g ∘ f) := by
  rcases List.eq_nil_or_concat' l with rfl | ⟨l, x, rfl⟩
  · rfl
  · rw [List.modifyLast_concat, List.modifyLast_concat, List.modifyLast_concat]
    rfl

namespace PacketParser

variable {v : Flat} {u t : Bytes} {c c1 c2 c3 c5 : UInt8} {n : ℕ} {e : ErrCode}

/-! ### The reader's calls -/

theorem peek_at (h : v.bufferReader[n]? = some c) : peek n v = (.ok c, v) := by
  unfold peek
  simp only [ByteReader.peek, ByteQueue.peek, h]
  rfl

theorem peek_none (h : v.bufferReader.length ≤ n) : peek n v = (incomplete, v) := by
  unfold peek
  simp only [ByteReader.peek, ByteQueue.peek_of_le h]
  rfl

theorem readUntil_at (hr : v.bufferReader = u ++ c :: t) (hc : c ∉ u) :
    readUntil c v = (.ok (u.length, u), { v with bufferReader := c :: t }) := by
  unfold readUntil
  simp only [ByteReader.readUntil]
  rw [hr, ByteQueue.readUntil_append hc]
  rfl

theorem readUntil_none (hc : c ∉ v.bufferReader) : readUntil c v = (incomplete, v) := by
  unfold readUntil
  simp only [ByteReader.readUntil]
  rw [ByteQueue.readUntil_of_not_mem hc]
  rfl

theorem skipUntil_at (hr : v.bufferReader = u ++ c :: t) (hc : c ∉ u) :
    skipUntil c v = (.ok (), { v with bufferReader := c :: t }) := by
  unfold skipUntil
  simp only [ByteReader.skipUntil]
  rw [hr, ByteQueue.skipUntil_append hc]
  rfl

theorem skipUntil_none (hc : c ∉ v.bufferReader) : skipUntil c v = (incomplete, v) := by
  unfold skipUntil
  simp only [ByteReader.skipUntil]
  rw [ByteQueue.skipUntil_of_not_mem hc]
  rfl

theorem readUnsigned_at (hr : v.bufferReader = u ++ c :: t) (hne : u ≠ [])
    (hu : ∀ x ∈ u, isDigit x) (hc : isDigit c = false) :
    readUnsigned v = (.ok (foldDigits 0 u), { v with bufferReader := c :: t }) := by
  unfold readUnsigned
  simp only [ByteReader.readUnsigned]
  rw [hr, ByteQueue.readUnsigned_append hne hu hc]
  rfl

theorem readUnsigned_none (hu : ∀ x ∈ v.bufferReader, isDigit x) :
    readUnsigned v = (incomplete, v) := by
  unfold readUnsigned
  simp only [ByteReader.readUnsigned]
  rw [ByteQueue.readUnsigned_of_digits hu]
  rfl

theorem readUnsigned_stop (hr : v.bufferReader = c :: t) (hc : isDigit c = false) :
    ∃ e, readUnsigned v = (.error e, v) := by
  unfold readUnsigned
  simp only [ByteReader.readUnsigned]
  by_cases ht : t = []
  · refine ⟨.incompleteBufferErr, ?_⟩
    have hshort : ByteQueue.readUnsigned v.bufferReader =
        (.incompleteBufferErr, 0, v.bufferReader) := by
      rw [hr, ht]
      rfl
    rw [hshort]
    rfl
  · refine ⟨.programmingErr, ?_⟩
    rw [hr, ByteQueue.readUnsigned_notDigit hc ht, ← hr]
    rfl

theorem skipBytes_at (hr : v.bufferReader = u ++ t) (hu : u.length = n) :
    skipBytes n v = (.ok (), { v with bufferReader := t }) := by
  unfold skipBytes
  simp only [ByteReader.skipBytes]
  rw [hr, ByteQueue.skipBytes_append hu]
  rfl

theorem skipByte_at (hr : v.bufferReader = c :: t) :
    skipBytes 1 v = (.ok (), { v with bufferReader := t }) := skipBytes_at (u := [c]) hr rfl

theorem skipBytes_none (h : v.bufferReader.length < n) : skipBytes n v = (incomplete, v) := by
  unfold skipBytes
  simp only [ByteReader.skipBytes]
  rw [ByteQueue.skipBytes_of_lt h]
  rfl

theorem readBytes_at (hr : v.bufferReader = u ++ t) (hu : u.length = n) :
    readBytes n v = (.ok u, { v with bufferReader := t }) := by
  subst hu
  unfold readBytes
  simp only [ByteReader.readBytes]
  rw [hr, ByteQueue.readBytes_append]
  rfl

theorem readBytes_none (h : v.bufferReader.length < n) : readBytes n v = (incomplete, v) := by
  unfold readBytes
  simp only [ByteReader.readBytes]
  rw [ByteQueue.readBytes_of_lt h]
  rfl

theorem modifyKv_modifyKv (f g : RetrievalResult Bytes → RetrievalResult Bytes) (v : Flat) :
    modifyKv g (modifyKv f v) = modifyKv (g ∘ f) v := by
  unfold modifyKv
  simp only [modifyLast_modifyLast_comp]

theorem modifyLine_modifyLine (f g : LineResult Bytes → LineResult Bytes) (v : Flat) :
    modifyLine g (modifyLine f v) = modifyLine (g ∘ f) v := by
  unfold modifyLine
  simp only [modifyLast_modifyLast_comp]

/-! ### Reading an item -/

theorem getStart_at (hr : v.bufferReader = u ++ space :: t) (hu : space ∉ u) :
    getStart v = (.ok (), setState .getKey (modifyKv
      (fun kv => { kv with key := u, keyLen := u.length % 2 ^ 8 })
      { v with bufferReader := t })) := by
  unfold getStart
  rw [ParseM.assign_bind, ParseM.bind_ok (readUntil_at (v := modifyKv _ v) hr hu), ParseM.assign_bind,
    ParseM.bind_ok (skipByte_at rfl), ParseM.assign_apply]
  exact congrArg (fun w => (Except.ok (), setState .getKey w))
    (modifyKv_modifyKv _ _ { v with bufferReader := t })

theorem getStart_none (hr : space ∉ v.bufferReader) :
    getStart v = (incomplete, modifyKv (fun kv => { kv with key := [], keyLen := 0 }) v) := by
  unfold getStart
  rw [ParseM.assign_bind, ParseM.bind_error (readUntil_none (v := modifyKv _ v) hr)]
  rfl

theorem getKey_at (hr : v.bufferReader = u ++ c :: t) (hne : u ≠ []) (hu : ∀ x ∈ u, isDigit x)
    (hc : isDigit c = false) :
    getKey v = (.ok (), setState .getFlags (modifyKv
      (fun kv => { kv with flags := foldDigits 0 u % 2 ^ 32 }) { v with bufferReader := t })) := by
  unfold getKey
  rw [ParseM.bind_ok (readUnsigned_at hr hne hu hc), ParseM.assign_bind,
    ParseM.bind_ok (skipByte_at rfl)]
  rfl

theorem getFlags_at (hr : v.bufferReader = u ++ c :: t) (hne : u ≠ []) (hu : ∀ x ∈ u, isDigit x)
    (hc : isDigit c = false) :
    getFlags v = (.ok (), setState .getBytes (modifyKv
      (fun kv => { kv with
        bytes := foldDigits 0 u % 2 ^ 32
        bytesRemain := (foldDigits 0 u % 2 ^ 32 + 1) % 2 ^ 32 })
      { v with bufferReader := t })) := by
  unfold getFlags
  rw [ParseM.bind_ok (readUnsigned_at hr hne hu hc), ParseM.assign_bind,
    ParseM.bind_ok (skipByte_at rfl)]
  rfl

theorem getBytes_lf (hr : v.bufferReader = lf :: t) :
    getBytes v = (.ok (), setState .getCas (modifyKv (fun kv => { kv with casUnique := 0 }) v)) := by
  have hp : peek 0 v = (.ok lf, v) := peek_at (by rw [hr]; rfl)
  have hcas : readCasUnique v =
      (.ok (), modifyKv (fun kv => { kv with casUnique := 0 }) v) := by
    unfold readCasUnique
    rw [ParseM.bind_ok hp]
    rfl
  exact ParseM.bind_ok hcas

theorem getBytes_at (hr : v.bufferReader = u ++ c :: t) (hne : u ≠ []) (hu : ∀ x ∈ u, isDigit x)
    (hc : isDigit c = false) :
    getBytes v = (.ok (), setState .getCas (modifyKv
      (fun kv => { kv with casUnique := foldDigits 0 u }) { v with bufferReader := t })) := by
  obtain ⟨d, ds, rfl⟩ := List.exists_cons_of_ne_nil hne
  have hp : peek 0 v = (.ok d, v) := peek_at (by rw [hr]; rfl)
  have hd : d ≠ lf := fun h => by
    have := hu d List.mem_cons_self
    rw [h, isDigit_lf] at this
    cases this
  have hcas : readCasUnique v = (.ok (), modifyKv
      (fun kv => { kv with casUnique := foldDigits 0 (d :: ds) }) { v with bufferReader := t }) := by
    unfold readCasUnique
    rw [ParseM.bind_ok hp, if_neg hd, ParseM.assign_bind,
      ParseM.bind_ok (readUnsigned_at (v := modifyKv _ v) hr hne hu hc), ParseM.assign_bind,
      skipByte_at rfl]
    exact congrArg (Prod.mk (Except.ok ())) (modifyKv_modifyKv _ _ { v with bufferReader := t })
  exact ParseM.bind_ok hcas

theorem getBytes_none (hu : ∀ x ∈ v.bufferReader, isDigit x) :
    getBytes v = (incomplete, if v.bufferReader = [] then v
      else modifyKv (fun kv => { kv with casUnique := 0 }) v) := by
  unfold getBytes readCasUnique
  rcases hr : v.bufferReader with _ | ⟨d, ds⟩
  · rw [if_pos rfl]
    exact ParseM.bind_error (ParseM.bind_error (peek_none (by rw [hr]; rfl)))
  · have hp : peek 0 v = (.ok d, v) := peek_at (by rw [hr]; rfl)
    have hd : d ≠ lf := fun h => by
      have := hu d (hr ▸ List.mem_cons_self)
      rw [h, isDigit_lf] at this
      cases this
    refine ParseM.bind_error ?_
    rw [ParseM.bind_ok hp, if_neg hd, ParseM.assign_bind, if_neg (List.cons_ne_nil d ds)]
    exact ParseM.bind_error (readUnsigned_none (v := modifyKv _ v) hu)

theorem getCas_at (hr : v.bufferReader = c :: t) :
    getCas v = (.ok (), setState .getValueRemaining (modifyKv
      (fun kv => { kv with bytesRemain := (kv.bytesRemain + (2 ^ 32 - 1)) % 2 ^ 32 })
      { v with bufferReader := t })) := by
  unfold getCas
  rw [ParseM.bind_ok (skipByte_at hr)]
  rfl

theorem readDataBlock_at (hr : v.bufferReader = u ++ t) (hpos : 0 < v.kv.bytesRemain)
    (hu : u.length = v.kv.bytes) :
    readDataBlock v = (.ok (), modifyKv (fun kv => { kv with dataBlock := u, bytesRemain := 0 })
      { v with bufferReader := t }) := by
  rw [readDataBlock_eq, if_pos hpos]
  unfold fillDataBlock
  rw [ParseM.assign_bind, ParseM.assign_bind, wishForBlock_flat,
    ParseM.bind_ok (readBytes_at (v := modifyKv _ v) hr hu), ParseM.assign_apply]
  exact congrArg (Prod.mk (Except.ok ())) (modifyKv_modifyKv _ _ { v with bufferReader := t })

theorem readDataBlock_none (hpos : 0 < v.kv.bytesRemain) (h : v.bufferReader.length < v.kv.bytes) :
    readDataBlock v = (incomplete, modifyKv (fun kv => { kv with dataBlock := [] }) v) := by
  rw [readDataBlock_eq, if_pos hpos]
  unfold fillDataBlock
  rw [ParseM.assign_bind, ParseM.assign_bind, wishForBlock_flat,
    ParseM.bind_error (readBytes_none (v := modifyKv _ v) h)]

theorem readDataBlock_done (h : v.kv.bytesRemain = 0) : readDataBlock v = (.ok (), v) := by
  rw [readDataBlock_eq, if_neg (by omega)]

/-- How many bytes of the data block `FSM_GET_VALUE_REMAINING` reads. -/
def dataLeft (kv : RetrievalResult Bytes) : ℕ := if 0 < kv.bytesRemain then kv.bytes else 0

theorem getValueRemaining_at {w : Bytes} (hr : v.bufferReader = u ++ w ++ t)
    (hu : u.length = dataLeft v.kv) (hw : w.length = 2) :
    getValueRemaining v = (.ok (), setState .start (if 0 < v.kv.bytesRemain then modifyKv
      (fun kv => { kv with dataBlock := u, bytesRemain := 0 }) { v with bufferReader := t }
      else { v with bufferReader := t })) := by
  unfold getValueRemaining dataLeft at *
  rw [List.append_assoc] at hr
  split_ifs at hu ⊢ with hpos
  · rw [ParseM.bind_ok (readDataBlock_at hr hpos hu), ParseM.bind_ok (skipBytes_at rfl hw)]
    rfl
  · obtain rfl := List.length_eq_zero_iff.1 hu
    rw [List.nil_append] at hr
    rw [ParseM.bind_ok (readDataBlock_done (by omega)), ParseM.bind_ok (skipBytes_at hr hw)]
    rfl

theorem getValueRemaining_short (h : v.bufferReader.length < dataLeft v.kv + 2) :
    ∃ v', getValueRemaining v = (incomplete, v') := by
  unfold getValueRemaining dataLeft at *
  split_ifs at h with hpos
  · by_cases hlt : v.bufferReader.length < v.kv.bytes
    · exact ⟨_, ParseM.bind_error (readDataBlock_none hpos hlt)⟩
    · have hsplit := (List.take_append_drop v.kv.bytes v.bufferReader).symm
      rw [ParseM.bind_ok (readDataBlock_at hsplit hpos (List.length_take_of_le (by omega)))]
      exact ⟨_, ParseM.bind_error (skipBytes_none (by
        show (v.bufferReader.drop v.kv.bytes).length < 2
        rw [List.length_drop]
        omega))⟩
  · rw [ParseM.bind_ok (readDataBlock_done (by omega))]
    exact ⟨_, ParseM.bind_error (skipBytes_none (by omega))⟩

/-! ### Lines and numbers -/

theorem processLineResult_at (hr : v.bufferReader = u ++ lf :: t) (hu : lf ∉ u) :
    processLineResult v =
      (.ok (), modifyLine (fun inner => { inner with line := u, lineLen := u.length })
      { v with bufferReader := t }) := by
  unfold processLineResult
  rw [ParseM.assign_bind, ParseM.bind_ok (readUntil_at (v := modifyLine _ v) hr hu),
    ParseM.assign_bind, skipByte_at rfl]
  exact congrArg (Prod.mk (Except.ok ())) (modifyLine_modifyLine _ _ { v with bufferReader := t })

theorem processLineResult_none (hr : lf ∉ v.bufferReader) :
    processLineResult v = (incomplete, modifyLine (fun _ => { line := [], lineLen := 0 }) v) := by
  unfold processLineResult
  rw [ParseM.assign_bind, ParseM.bind_error (readUntil_none (v := modifyLine _ v) hr)]
  rfl

theorem incrDecrStart_at (hr : v.bufferReader = u ++ c :: t) (hne : u ≠ [])
    (hu : ∀ x ∈ u, isDigit x) (hc : isDigit c = false) :
    incrDecrStart v = (.ok (), setState .incrDecrRemaining
      { modifyUnsigned (fun _ => ⟨some v.requestKey, foldDigits 0 u⟩) { v with bufferReader := t } with
        outOfRange := v.outOfRange || v.pastKeys }) := by
  unfold incrDecrStart
  rw [ParseM.assign_bind, ParseM.bind_ok (readUnsigned_at (v := modifyUnsigned _ v) hr hne hu hc),
    ParseM.assign_bind, ParseM.bind_ok (skipByte_at rfl), ParseM.assign_bind, ParseM.assign_apply]
  simp only [modifyUnsigned, modifyLast_modifyLast_comp]
  rfl

theorem incrDecrRemaining_at (hr : v.bufferReader = u ++ lf :: t) (hu : lf ∉ u) :
    incrDecrRemaining v = (.ok (), setState .start
      { v with bufferReader := t, requestKeyIdx := v.requestKeyIdx + 1 }) := by
  unfold incrDecrRemaining
  rw [ParseM.bind_ok (skipUntil_at hr hu), ParseM.bind_ok (skipByte_at rfl)]
  rfl

theorem errorLine_at (hr : v.bufferReader = u ++ lf :: t) (hu : lf ∉ u) :
    errorLine e v = (.error e, setState .error { v with bufferReader := t }) := by
  unfold errorLine
  rw [ParseM.bind_ok (readUntil_at hr hu), ParseM.bind_ok (skipByte_at rfl)]
  rfl

theorem errorLine_none (hr : lf ∉ v.bufferReader) :
    (errorLine e : ParseM Bytes Bytes Unit) v = (incomplete, v) := by
  unfold errorLine
  rw [ParseM.bind_error (readUntil_none hr)]

theorem message_at (tp : MessageResultType) (hr : v.bufferReader = u ++ t) (hu : u.length = n) :
    message n tp v = (.ok (), processMessageResult tp { v with bufferReader := t }) := by
  unfold message
  rw [ParseM.bind_ok (skipBytes_at hr hu)]
  rfl

/-! ### The start of a reply -/

theorem startState_eq (hr : v.bufferReader = c :: t) : startState v = startCase c v :=
  ParseM.bind_ok (peek_at (by rw [hr]; rfl))

theorem body_start (hend : v.canEndParse = false) (hst : v.state = .start) :
    body v = goOn (startState v) := by
  rw [body_eq hend, hst]
  rfl

theorem startState_nil (hr : v.bufferReader = []) : startState v = (incomplete, v) :=
  ParseM.bind_error (peek_none (by rw [hr]; rfl))

/-- What is used up only together with more bytes is left alone without them. -/
theorem startState_short {b : Bytes} (hb : b ≠ [])
    (hfull : (startState (v.feed b)).2.bufferReader = []) : startState v = (incomplete, v) := by
  by_cases hinc : (startState v).1 = incomplete
  · exact Prod.ext hinc (untouched_startState v hinc)
  · rw [stable_startState v b hinc] at hfull
    exact absurd (List.append_eq_nil_iff.1 hfull).2 hb

theorem startV_eq (hr : v.bufferReader = c1 :: c2 :: t) : startV v =
    (if c2 = 65 then do skipBytes 6; ParseM.assign pushRetrieval; ParseM.assign (setState .getStart)
    else if c2 = 69 then do skipBytes 8; ParseM.assign pushLine; ParseM.assign (setState .verStart)
    else pure () : ParseM Bytes Bytes Unit) v := ParseM.bind_ok (peek_at (by rw [hr]; rfl))

theorem startE_eq (hr : v.bufferReader = c1 :: c2 :: t) : startE v =
    (if c2 = 82 then errorLine .programmingErr
    else if c2 = 78 then do skipBytes 5; ParseM.assign (setState .end_)
    else if c2 = 88 then message 8 .exists_
    else pure () : ParseM Bytes Bytes Unit) v := ParseM.bind_ok (peek_at (by rw [hr]; rfl))

theorem startS_eq (hr : v.bufferReader = c1 :: c2 :: c3 :: t) : startS v =
    (if c2 = 84 then
      if c3 = 79 then message 8 .stored
      else do skipBytes 5; ParseM.assign pushLine; ParseM.assign (setState .statStart)
    else errorLine .mcServerErr : ParseM Bytes Bytes Unit) v := by
  unfold startS
  rw [ParseM.bind_ok (peek_at (c := c3) (by rw [hr]; rfl)),
    ParseM.bind_ok (peek_at (c := c2) (by rw [hr]; rfl))]

theorem startN_eq (hr : v.bufferReader[4]? = some c5) : startN v =
    (if c5 = 70 then message 11 .notFound
    else if c5 = 83 then message 12 .notStored
    else pure () : ParseM Bytes Bytes Unit) v := ParseM.bind_ok (peek_at hr)

theorem message_none (tp : MessageResultType) (h : v.bufferReader.length < n) :
    message n tp v = (incomplete, v) := ParseM.bind_error (skipBytes_none h)

theorem skip_bind_none {k : Unit → ParseM Bytes Bytes Unit} (h : v.bufferReader.length < n) :
    (skipBytes n >>= k) v = (incomplete, v) := ParseM.bind_error (skipBytes_none h)

theorem errorLine_stops (e : ErrCode) (v : Flat) :
    ∃ e' v', (errorLine e : ParseM Bytes Bytes Unit) v = (.error e', v') := by
  by_cases h : lf ∈ v.bufferReader
  · obtain ⟨s, t, heq, hs⟩ := List.eq_append_cons_of_mem h
    exact ⟨_, _, errorLine_at heq hs⟩
  · exact ⟨_, _, errorLine_none h⟩

theorem skip_assign_at {g : Flat → Flat} {st : ParserState} (hr : v.bufferReader = u ++ t)
    (hu : u.length = n) :
    (do skipBytes n; ParseM.assign g; ParseM.assign (setState st) : ParseM Bytes Bytes Unit) v =
      (.ok (), setState st (g { v with bufferReader := t })) := by
  rw [ParseM.bind_ok (skipBytes_at hr hu)]
  rfl

theorem startState_value {w : Bytes} (hr : v.bufferReader = 86 :: 65 :: w ++ t) (hw : w.length = 4) :
    startState v = (.ok (), setState .getStart (pushRetrieval { v with bufferReader := t })) := by
  rw [startState_eq hr]
  refine (startV_eq hr).trans ?_
  exact skip_assign_at (u := 86 :: 65 :: w) hr (by simp [hw])

theorem startState_version {w : Bytes} (hr : v.bufferReader = 86 :: 69 :: w ++ t) (hw : w.length = 6) :
    startState v = (.ok (), setState .verStart (pushLine { v with bufferReader := t })) := by
  rw [startState_eq hr]
  refine (startV_eq hr).trans ?_
  exact skip_assign_at (u := 86 :: 69 :: w) hr (by simp [hw])

theorem startState_end {w : Bytes} (hr : v.bufferReader = 69 :: 78 :: w ++ t) (hw : w.length = 3) :
    startState v = (.ok (), setState .end_ { v with bufferReader := t }) := by
  rw [startState_eq hr]
  refine (startE_eq hr).trans ?_
  exact ParseM.bind_ok (skipBytes_at (u := 69 :: 78 :: w) hr (by simp [hw]))

theorem startState_exists {w : Bytes} (hr : v.bufferReader = 69 :: 88 :: w ++ t) (hw : w.length = 6) :
    startState v = (.ok (), processMessageResult .exists_ { v with bufferReader := t }) := by
  rw [startState_eq hr]
  refine (startE_eq hr).trans ?_
  exact message_at (u := 69 :: 88 :: w) _ hr (by simp [hw])

theorem startState_ok {w : Bytes} (hr : v.bufferReader = 79 :: w ++ t) (hw : w.length = 3) :
    startState v =
      (.ok (), setState .end_ (processMessageResult .ok { v with bufferReader := t })) := by
  rw [startState_eq hr]
  exact ParseM.bind_ok (message_at (u := 79 :: w) .ok hr (by simp [hw]))

theorem startState_stored {w : Bytes} (hr : v.bufferReader = 83 :: 84 :: 79 :: w ++ t)
    (hw : w.length = 5) :
    startState v = (.ok (), processMessageResult .stored { v with bufferReader := t }) := by
  rw [startState_eq hr]
  refine (startS_eq hr).trans ?_
  exact message_at (u := 83 :: 84 :: 79 :: w) _ hr (by simp [hw])

theorem startState_stat {w : Bytes} (hr : v.bufferReader = 83 :: 84 :: c :: w ++ t) (hc : c ≠ 79)
    (hw : w.length = 2) :
    startState v = (.ok (), setState .statStart (pushLine { v with bufferReader := t })) := by
  rw [startState_eq hr]
  refine (startS_eq hr).trans ?_
  rw [if_pos rfl, if_neg hc]
  exact skip_assign_at (u := 83 :: 84 :: c :: w) hr (by simp [hw])

theorem startState_deleted {w : Bytes} (hr : v.bufferReader = 68 :: w ++ t) (hw : w.length = 8) :
    startState v = (.ok (), processMessageResult .deleted { v with bufferReader := t }) := by
  rw [startState_eq hr]
  exact message_at (u := 68 :: w) _ hr (by simp [hw])

theorem startState_touched {w : Bytes} (hr : v.bufferReader = 84 :: w ++ t) (hw : w.length = 8) :
    startState v = (.ok (), processMessageResult .touched { v with bufferReader := t }) := by
  rw [startState_eq hr]
  exact message_at (u := 84 :: w) _ hr (by simp [hw])

theorem getElem?_four {w : Bytes} (hr : v.bufferReader = 78 :: w ++ c :: t) (hw : w.length = 3) :
    v.bufferReader[4]? = some c := by
  rw [hr, List.getElem?_append_right (by simp [hw])]
  simp [hw]

theorem startState_notFound (w w' : Bytes) (hr : v.bufferReader = 78 :: w ++ 70 :: (w' ++ t))
    (hw : w.length = 3) (hw' : w'.length = 6) :
    startState v = (.ok (), processMessageResult .notFound { v with bufferReader := t }) := by
  rw [startState_eq hr]
  refine (startN_eq (getElem?_four hr hw)).trans ?_
  exact message_at (u := 78 :: w ++ 70 :: w') _ (by rw [hr]; simp) (by simp [hw, hw'])

theorem startState_notStored (w w' : Bytes) (hr : v.bufferReader = 78 :: w ++ 83 :: (w' ++ t))
    (hw : w.length = 3) (hw' : w'.length = 7) :
    startState v = (.ok (), processMessageResult .notStored { v with bufferReader := t }) := by
  rw [startState_eq hr]
  refine (startN_eq (getElem?_four hr hw)).trans ?_
  exact message_at (u := 78 :: w ++ 83 :: w') _ (by rw [hr]; simp) (by simp [hw, hw'])

theorem isDigit_ne {d : UInt8} (hd : isDigit d) : d ≠ 86 ∧ d ≠ 69 ∧ d ≠ 79 ∧ d ≠ 83 ∧ d ≠ 68 ∧
    d ≠ 78 ∧ d ≠ 84 ∧ d ≠ 67 := by
  refine ⟨?_, ?_, ?_, ?_, ?_, ?_, ?_, ?_⟩ <;>
  · rintro rfl
    exact absurd hd (by decide)

theorem startState_digit (hr : v.bufferReader = c :: t) (hc : isDigit c) :
    startState v = (.ok (), setState .incrDecrStart (pushUnsigned v)) := by
  obtain ⟨h1, h2, h3, h4, h5, h6, h7, h8⟩ := isDigit_ne hc
  rw [startState_eq hr]
  unfold startCase
  rw [if_neg h1, if_neg h2, if_neg h3, if_neg h4, if_neg h5, if_neg h6, if_neg h7, if_neg h8,
    if_pos hc]
  rfl

theorem startState_error (hr : v.bufferReader = 69 :: 82 :: u ++ lf :: t) (hu : lf ∉ u) :
    startState v = (.error .programmingErr, setState .error { v with bufferReader := t }) := by
  rw [startState_eq hr]
  refine (startE_eq hr).trans ?_
  refine errorLine_at (u := 69 :: 82 :: u) hr ?_
  simp only [List.mem_cons, not_or]
  exact ⟨by decide, by decide, hu⟩

theorem startState_clientError (hr : v.bufferReader = 67 :: u ++ lf :: t) (hu : lf ∉ u) :
    startState v = (.error .programmingErr, setState .error { v with bufferReader := t }) := by
  rw [startState_eq hr]
  refine errorLine_at (u := 67 :: u) hr ?_
  simp only [List.mem_cons, not_or]
  exact ⟨by decide, hu⟩

theorem startState_serverError (c2 c3 : UInt8)
    (hr : v.bufferReader = 83 :: c2 :: c3 :: u ++ lf :: t) (hc : c2 ≠ 84)
    (hu : lf ∉ c2 :: c3 :: u) :
    startState v = (.error .mcServerErr, setState .error { v with bufferReader := t }) := by
  rw [startState_eq hr]
  refine (startS_eq hr).trans ?_
  rw [if_neg hc]
  refine errorLine_at (u := 83 :: c2 :: c3 :: u) hr ?_
  rw [List.mem_cons, not_or]
  exact ⟨by decide, hu⟩

end PacketParser

end Libmc
