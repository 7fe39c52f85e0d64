import Libmc.ParserTermination

/-!
# What a round does to the results

A round of the parsing loop opens an item or a line, fills in the last one, closes it, or leaves the
results alone. `ResultRound` says so once, with what the round finds unread; `body_resultRound` and
`body_resultStop` say that every round is one of these.
-/

namespace Libmc

namespace PacketParser

variable {v v' : Flat} {e : ErrCode} {st : ParserState}
  {R : List (RetrievalResult Bytes)} {L : List (LineResult Bytes)}

/-- The states in which the last line result is read. -/
def readsLine : ParserState → Bool
  | .verStart | .statStart => true
  | _ => false

/-- What a round does to the item in progress, when `q` is unread. -/
inductive ItemRound (q : Bytes) (kv : RetrievalResult Bytes) :
    ParserState → ParserState → RetrievalResult Bytes → Prop
  | keyWaits : ItemRound q kv .getStart .getStart { kv with key := [], keyLen := 0 }
  | key {u t : Bytes} (hq : q = u ++ space :: t) (hu : space ∉ u) :
      ItemRound q kv .getStart .getKey { kv with key := u, keyLen := u.length % 2 ^ 8 }
  | flagsWait : ItemRound q kv .getKey .getKey kv
  | flags (n) : ItemRound q kv .getKey .getFlags { kv with flags := n }
  | bytesWait : ItemRound q kv .getFlags .getFlags kv
  | bytes (n) : ItemRound q kv .getFlags .getBytes
      { kv with bytes := n % 2 ^ 32, bytesRemain := (n % 2 ^ 32 + 1) % 2 ^ 32 }
  | casWaits (n) : ItemRound q kv .getBytes .getBytes { kv with casUnique := n }
  | cas (n) : ItemRound q kv .getBytes .getCas { kv with casUnique := n }
  | lineEndWaits : ItemRound q kv .getCas .getCas kv
  | lineEnd : ItemRound q kv .getCas .getValueRemaining
      { kv with bytesRemain := (kv.bytesRemain + (2 ^ 32 - 1)) % 2 ^ 32 }
  | dataWaits (hpos : 0 < kv.bytesRemain) (hq : q.length < kv.bytes) :
      ItemRound q kv .getValueRemaining .getValueRemaining { kv with dataBlock := [] }
  | data {d t : Bytes} (st : ParserState) (hpos : 0 < kv.bytesRemain) (hq : q = d ++ t)
      (hd : d.length = kv.bytes) (hst : st = .getValueRemaining ∨ st = .start) :
      ItemRound q kv .getValueRemaining st { kv with dataBlock := d, bytesRemain := 0 }
  | dataRead (st : ParserState) (hdone : kv.bytesRemain = 0)
      (hst : st = .getValueRemaining ∨ st = .start) : ItemRound q kv .getValueRemaining st kv

/-- What a round does to the line in progress. -/
inductive LineRound (q : Bytes) (st : ParserState) : ParserState → LineResult Bytes → Prop
  | waits (hq : lf ∉ q) : LineRound q st st { line := [], lineLen := 0 }
  | read {u t : Bytes} {st'} (hq : q = u ++ lf :: t) (hu : lf ∉ u)
      (hst' : st' = .end_ ∨ st' = .start) :
      LineRound q st st' { line := u, lineLen := u.length }

/-- No item and no line is in progress. -/
def Idle (st : ParserState) : Prop := usesKv st = false ∧ readsLine st = false

/-- What a round does to the results. -/
inductive ResultRound (v v' : Flat) : Prop
  | idle (hst : Idle v.state) (hst' : Idle v'.state)
      (hr : v'.retrievalResults = v.retrievalResults) (hl : v'.lineResults = v.lineResults)
  | opensItem (hst : Idle v.state) (hst' : v'.state = .getStart)
      (hr : v'.retrievalResults = v.retrievalResults ++ [{ key := [], dataBlock := [] }])
      (hl : v'.lineResults = v.lineResults)
  | opensLine (hst : Idle v.state) (hst' : readsLine v'.state = true)
      (hr : v'.retrievalResults = v.retrievalResults)
      (hl : v'.lineResults = v.lineResults ++ [{ line := [] }])
  | item {kvs : List (RetrievalResult Bytes)} {kv kv' : RetrievalResult Bytes}
      (hr : v.retrievalResults = kvs ++ [kv])
      (hr' : v'.retrievalResults = kvs ++ [kv']) (hl : v'.lineResults = v.lineResults)
      (h : ItemRound v.bufferReader kv v.state v'.state kv')
  | line {ls : List (LineResult Bytes)} {l l' : LineResult Bytes} (hst : readsLine v.state = true)
      (hr : v'.retrievalResults = v.retrievalResults)
      (hl : v.lineResults = ls ++ [l]) (hl' : v'.lineResults = ls ++ [l'])
      (h : LineRound v.bufferReader v.state v'.state l')

/-! ### A round at the start of a reply -/

/-- The results are these, and nothing is in progress. -/
def IdleWith (R : List (RetrievalResult Bytes)) (L : List (LineResult Bytes)) (v : Flat) : Prop :=
  Idle v.state ∧ v.retrievalResults = R ∧ v.lineResults = L

/-- The results were these, and one may have been opened. -/
def Opened (R : List (RetrievalResult Bytes)) (L : List (LineResult Bytes)) (v : Flat) : Prop :=
  IdleWith R L v ∨
    v.state = .getStart ∧ v.retrievalResults = R ++ [{ key := [], dataBlock := [] }] ∧
      v.lineResults = L ∨
    readsLine v.state = true ∧ v.retrievalResults = R ∧ v.lineResults = L ++ [{ line := [] }]

theorem idleWith_bytes (v : Flat) (t : Bytes) (h : IdleWith R L v) :
    IdleWith R L { v with bufferReader := t } := h

theorem idleWith_setState {st : ParserState} (h : Idle st) :
    Keeps (IdleWith R L) (ParseM.assign (setState st)) := fun _ hv => ⟨h, hv.2⟩

theorem idleWith_message (n : ℕ) (tp : MessageResultType) : Keeps (IdleWith R L) (message n tp) :=
  (keeps_skipBytes idleWith_bytes n).bind fun _ v hv => by
    show IdleWith R L (processMessageResult tp v)
    unfold processMessageResult
    split_ifs <;> exact hv

theorem idleWith_errorLine (e : ErrCode) : Keeps (IdleWith R L) (errorLine e) :=
  (keeps_readUntil idleWith_bytes lf).bind fun _ =>
    (keeps_skipBytes idleWith_bytes 1).bind fun _ => Keeps.bind (fun _ hv => hv) fun _ =>
      (idleWith_setState ⟨rfl, rfl⟩).bind fun _ => keeps_stop e

theorem startState_opened : LeadsTo (IdleWith R L) (Opened R L) startState := by
  have hidle : ∀ v, IdleWith R L v → Opened R L v := fun _ h => .inl h
  have hline : ∀ n st, readsLine st = true → LeadsTo (IdleWith R L) (Opened R L)
      (do skipBytes n; ParseM.assign pushLine; ParseM.assign (setState st)) := fun n st hst =>
    (keeps_skipBytes idleWith_bytes n).bind_leadsTo hidle fun _ _ hv =>
      ⟨.inr (.inr ⟨hst, hv.2.1, congrArg (· ++ _) hv.2.2⟩), nofun⟩
  have hitem : LeadsTo (IdleWith R L) (Opened R L)
      (do skipBytes 6; ParseM.assign pushRetrieval; ParseM.assign (setState .getStart)) :=
    (keeps_skipBytes idleWith_bytes 6).bind_leadsTo hidle fun _ _ hv =>
      ⟨.inr (.inl ⟨rfl, congrArg (· ++ _) hv.2.1, hv.2.2⟩), nofun⟩
  have hv : LeadsTo (IdleWith R L) (Opened R L) startV := (keeps_peek 1).bind_leadsTo hidle fun _ =>
    .ite hitem <| .ite (hline _ _ rfl) ((keeps_pure ()).leadsTo hidle)
  have he : Keeps (IdleWith R L) startE := (keeps_peek 1).bind fun _ =>
    .ite (idleWith_errorLine _) <| .ite ((keeps_skipBytes idleWith_bytes 5).bind fun _ =>
      idleWith_setState ⟨rfl, rfl⟩) <| .ite (idleWith_message 8 _) (keeps_pure ())
  have ho : Keeps (IdleWith R L) startO :=
    (idleWith_message 4 .ok).bind fun _ => idleWith_setState ⟨rfl, rfl⟩
  have hs : LeadsTo (IdleWith R L) (Opened R L) startS :=
    (keeps_peek 2).bind_leadsTo hidle fun _ => (keeps_peek 1).bind_leadsTo hidle fun _ =>
      .ite (.ite ((idleWith_message 8 _).leadsTo hidle) (hline _ _ rfl))
        ((idleWith_errorLine _).leadsTo hidle)
  have hn : Keeps (IdleWith R L) startN := (keeps_peek 4).bind fun _ =>
    .ite (idleWith_message 11 _) <| .ite (idleWith_message 12 _) (keeps_pure ())
  have hd : Keeps (IdleWith R L) startDigit :=
    Keeps.bind (fun _ hv => hv) fun _ => idleWith_setState ⟨rfl, rfl⟩
  exact (keeps_peek 0).bind_leadsTo hidle fun _ => .ite hv <| .ite (he.leadsTo hidle) <|
    .ite (ho.leadsTo hidle) <| .ite hs <| .ite ((idleWith_message 9 _).leadsTo hidle) <|
    .ite (hn.leadsTo hidle) <| .ite ((idleWith_message 9 _).leadsTo hidle) <|
    .ite ((idleWith_errorLine _).leadsTo hidle) <| .ite (hd.leadsTo hidle)
      ((keeps_stop _).leadsTo hidle)

/-! ### A round in a state -/

theorem results_concat (h : v.retrievalResults ≠ []) : ∃ kvs, v.retrievalResults = kvs ++ [v.kv] := by
  obtain ⟨kvs, x, hr⟩ := (List.eq_nil_or_concat' _).resolve_left h
  refine ⟨kvs, ?_⟩
  unfold PacketParser.kv
  rw [hr, List.getLast?_concat]
  rfl

theorem ResultRound.of_modifyKv {g : RetrievalResult Bytes → RetrievalResult Bytes}
    (hne : v.retrievalResults ≠ []) (hr : v'.retrievalResults = v.retrievalResults.modifyLast g)
    (hl : v'.lineResults = v.lineResults)
    (h : ItemRound v.bufferReader v.kv v.state v'.state (g v.kv)) : ResultRound v v' := by
  obtain ⟨kvs, hkvs⟩ := results_concat hne
  refine .item hkvs ?_ hl h
  rw [hr, hkvs, List.modifyLast_concat]

theorem ResultRound.of_kv (hne : v.retrievalResults ≠ [])
    (hr : v'.retrievalResults = v.retrievalResults) (hl : v'.lineResults = v.lineResults)
    (h : ItemRound v.bufferReader v.kv v.state v'.state v.kv) : ResultRound v v' := by
  obtain ⟨kvs, hkvs⟩ := results_concat hne
  exact .item hkvs (hr.trans hkvs) hl h

theorem ResultRound.of_modifyLine {g : LineResult Bytes → LineResult Bytes} {l' : LineResult Bytes}
    (hst : readsLine v.state = true) (hne : v.lineResults ≠ [])
    (hl : v'.lineResults = v.lineResults.modifyLast g) (hg : ∀ l, g l = l')
    (hr : v'.retrievalResults = v.retrievalResults)
    (h : LineRound v.bufferReader v.state v'.state l') : ResultRound v v' := by
  obtain ⟨ls, l, hls⟩ := (List.eq_nil_or_concat' _).resolve_left hne
  refine .line hst hr hls ?_ h
  rw [hl, hls, List.modifyLast_concat, hg]

/-- What a computation in a state leaves: in the middle of a result it is in the same state if it
stops, and in another one if not. -/
structure Does (st : ParserState) (v : Flat) : Prop where
  round : ResultRound v (stateAction st v).2
  stops : ∀ e, (stateAction st v).1 = .error e →
    (stateAction st v).2.state = v.state ∨ Idle v.state ∧ Idle (stateAction st v).2.state
  goes : ∀ a, (stateAction st v).1 = .ok a → (stateAction st v).2.state ≠ v.state ∨ Idle v.state

theorem Does.of_stop (h : stateAction st v = (.error e, v')) (hst : v'.state = v.state)
    (hr : ResultRound v v') : Does st v where
  round := h ▸ hr
  stops _ _ := .inl (h ▸ hst)
  goes _ ha := by
    rw [h] at ha
    cases ha

theorem Does.of_go (h : stateAction st v = (.ok (), v')) (hst : v.state = st) (hne : v'.state ≠ st)
    (hr : ResultRound v v') : Does st v where
  round := h ▸ hr
  stops _ he := by
    rw [h] at he
    cases he
  goes _ _ := .inl (h ▸ hst ▸ hne)

theorem does_start (hst : v.state = .start) : Does .start v := by
  have hidle : Idle v.state := by
    rw [hst]
    exact ⟨rfl, rfl⟩
  obtain ⟨hopened, hstops⟩ := startState_opened v ⟨hidle, rfl, rfl⟩
  refine ⟨?_, fun e he => .inr ⟨hidle, (hstops e he).1⟩, fun _ _ => .inr hidle⟩
  rcases hopened with h | ⟨h, hr, hl⟩ | ⟨h, hr, hl⟩
  · exact .idle hidle h.1 h.2.1 h.2.2
  · exact .opensItem hidle h hr hl
  · exact .opensLine hidle h hr hl

theorem does_getStart (hst : v.state = .getStart) (hne : v.retrievalResults ≠ []) :
    Does .getStart v := by
  rcases fieldTo_or_not space v.bufferReader with h | ⟨w, t, hr, u, rfl, hu⟩
  · refine .of_stop (getStart_none h) rfl (.of_modifyKv hne rfl rfl ?_)
    show ItemRound _ _ _ v.state _
    rw [hst]
    exact .keyWaits
  · have hr' : v.bufferReader = u ++ space :: t := by rw [hr]; simp
    refine .of_go (getStart_at hr' hu) hst nofun (.of_modifyKv hne rfl rfl ?_)
    rw [hst]
    exact .key hr' hu

theorem does_getKey (hst : v.state = .getKey) (hne : v.retrievalResults ≠ []) : Does .getKey v := by
  rcases number_or_stop v with ⟨e, h⟩ | ⟨w, n, t, hr, hn⟩
  · refine .of_stop (ParseM.bind_error h) rfl (.of_kv hne rfl rfl ?_)
    rw [hst]
    exact .flagsWait
  · obtain ⟨u, c, hsplit, hu, hdig, hc, -⟩ := hn.split t
    refine .of_go (getKey_at (hr.trans hsplit) hu hdig hc) hst nofun (.of_modifyKv hne rfl rfl ?_)
    rw [hst]
    exact .flags _

theorem does_getFlags (hst : v.state = .getFlags) (hne : v.retrievalResults ≠ []) :
    Does .getFlags v := by
  rcases number_or_stop v with ⟨e, h⟩ | ⟨w, n, t, hr, hn⟩
  · refine .of_stop (ParseM.bind_error h) rfl (.of_kv hne rfl rfl ?_)
    rw [hst]
    exact .bytesWait
  · obtain ⟨u, c, hsplit, hu, hdig, hc, -⟩ := hn.split t
    refine .of_go (getFlags_at (hr.trans hsplit) hu hdig hc) hst nofun (.of_modifyKv hne rfl rfl ?_)
    rw [hst]
    exact .bytes _

theorem does_getBytes (hst : v.state = .getBytes) (hne : v.retrievalResults ≠ []) :
    Does .getBytes v := by
  rcases hr : v.bufferReader with _ | ⟨c, r⟩
  · have h : getBytes v = (incomplete, v) :=
      ParseM.bind_error (ParseM.bind_error (peek_none (by rw [hr]; rfl)))
    refine .of_stop h rfl (.of_kv hne rfl rfl ?_)
    rw [hst]
    exact .casWaits v.kv.casUnique
  by_cases hc : c = lf
  · subst hc
    refine .of_go (getBytes_lf hr) hst nofun (.of_modifyKv hne rfl rfl ?_)
    rw [hst]
    exact .cas 0
  rcases number_or_stop (modifyKv (fun kv => { kv with casUnique := 0 }) v) with
    ⟨e, h⟩ | ⟨w, n, t, hsplit, hn⟩
  · refine .of_stop (ParseM.bind_error (readCasUnique_stop hr hc h)) rfl (.of_modifyKv hne rfl rfl ?_)
    show ItemRound _ _ _ v.state _
    rw [hst]
    exact .casWaits 0
  · obtain ⟨u, c, hsplit', hu, hdig, hc, -⟩ := hn.split t
    have hr' : v.bufferReader = u ++ c :: t := Eq.trans hsplit hsplit'
    refine .of_go (getBytes_at hr' hu hdig hc) hst nofun (.of_modifyKv hne rfl rfl ?_)
    rw [hst]
    exact .cas _

theorem does_getCas (hst : v.state = .getCas) (hne : v.retrievalResults ≠ []) : Does .getCas v := by
  rcases hr : v.bufferReader with _ | ⟨c, r⟩
  · refine .of_stop (ParseM.bind_error (skipBytes_none (by rw [hr]; decide))) rfl
      (.of_kv hne rfl rfl ?_)
    rw [hst]
    exact .lineEndWaits
  · refine .of_go (getCas_at hr) hst nofun (.of_modifyKv hne rfl rfl ?_)
    rw [hst]
    exact .lineEnd

theorem does_line {st st' : ParserState} (hst : v.state = st) (hline : readsLine st = true)
    (hact : (stateAction st : ParseM Bytes Bytes Unit) =
      (do processLineResult; ParseM.assign (setState st')))
    (hst' : st' = .end_ ∨ st' = .start) (hne : v.lineResults ≠ []) : Does st v := by
  rcases fieldTo_or_not lf v.bufferReader with h | ⟨w, t, hr, u, rfl, hu⟩
  · have heq : stateAction st v = _ := hact ▸ ParseM.bind_error (processLineResult_none h)
    exact .of_stop heq rfl (.of_modifyLine (hst ▸ hline) hne rfl (fun _ => rfl) rfl (.waits h))
  · have hr' : v.bufferReader = u ++ lf :: t := by rw [hr]; simp
    have heq : stateAction st v = _ := hact ▸ ParseM.bind_ok (processLineResult_at hr' hu)
    have hne' : st' ≠ st := by
      rintro rfl
      rcases hst' with rfl | rfl <;> cases hline
    exact .of_go heq hst hne'
      (.of_modifyLine (hst ▸ hline) hne rfl (fun _ => rfl) rfl (.read hr' hu hst'))

theorem does_getValueRemaining (hst : v.state = .getValueRemaining) (hne : v.retrievalResults ≠ []) :
    Does .getValueRemaining v := by
  rcases Nat.eq_zero_or_pos v.kv.bytesRemain with hdone | hpos
  · have heq : getValueRemaining v = _ := ParseM.bind_ok (readDataBlock_done hdone)
    by_cases hlen : v.bufferReader.length < 2
    · refine .of_stop (heq.trans (ParseM.bind_error (skipBytes_none hlen))) rfl
        (.of_kv hne rfl rfl ?_)
      rw [hst]
      exact .dataRead _ hdone (.inl rfl)
    · have hr := (List.take_append_drop 2 v.bufferReader).symm
      refine .of_go (heq.trans (ParseM.bind_ok (skipBytes_at hr (List.length_take_of_le (by omega)))))
        hst nofun (.of_kv hne rfl rfl ?_)
      rw [hst]
      exact .dataRead _ hdone (.inr rfl)
  by_cases hlen : v.bufferReader.length < v.kv.bytes
  · refine .of_stop (ParseM.bind_error (readDataBlock_none hpos hlen)) rfl
      (.of_modifyKv hne rfl rfl ?_)
    show ItemRound _ _ _ v.state _
    rw [hst]
    exact .dataWaits hpos hlen
  have hr := (List.take_append_drop v.kv.bytes v.bufferReader).symm
  have htake : (v.bufferReader.take v.kv.bytes).length = v.kv.bytes :=
    List.length_take_of_le (by omega)
  have heq : getValueRemaining v = _ := ParseM.bind_ok (readDataBlock_at hr hpos htake)
  by_cases hlen' : (v.bufferReader.drop v.kv.bytes).length < 2
  · refine .of_stop (heq.trans (ParseM.bind_error (skipBytes_none hlen'))) rfl
      (.of_modifyKv hne rfl rfl ?_)
    show ItemRound _ _ _ v.state _
    rw [hst]
    exact .data _ hpos hr htake (.inl rfl)
  · have hr' := (List.take_append_drop 2 (v.bufferReader.drop v.kv.bytes)).symm
    refine .of_go (heq.trans (ParseM.bind_ok (skipBytes_at hr'
      (List.length_take_of_le (by omega))))) hst nofun (.of_modifyKv hne rfl rfl ?_)
    rw [hst]
    exact .data _ hpos hr htake (.inr rfl)

/-- A state in which no result is touched. -/
theorem does_idle {st : ParserState} (hst : v.state = st) (hidle : Idle st)
    (h : Keeps (IdleWith v.retrievalResults v.lineResults) (stateAction st)) : Does st v := by
  have hv : Idle v.state := hst ▸ hidle
  obtain ⟨hidle', hr, hl⟩ := h v ⟨hv, rfl, rfl⟩
  exact ⟨.idle hv hidle' hr hl, fun _ _ => .inr ⟨hv, hidle'⟩, fun _ _ => .inr hv⟩

/-- There is a line result wherever the last one is read. -/
def HasLine (v : Flat) : Prop := readsLine v.state = true → v.lineResults ≠ []

theorem does (hres : v.HasResult) (hline : v.HasLine) : Does v.state v := by
  cases hst : v.state with
  | start => exact does_start hst
  | getStart => exact does_getStart hst (hres (hst ▸ rfl))
  | getKey => exact does_getKey hst (hres (hst ▸ rfl))
  | getFlags => exact does_getFlags hst (hres (hst ▸ rfl))
  | getBytes => exact does_getBytes hst (hres (hst ▸ rfl))
  | getCas => exact does_getCas hst (hres (hst ▸ rfl))
  | getValueRemaining => exact does_getValueRemaining hst (hres (hst ▸ rfl))
  | incrDecrStart =>
    refine does_idle hst ⟨rfl, rfl⟩ (Keeps.bind (fun _ hv => hv) fun _ =>
      (keeps_readUnsigned idleWith_bytes).bind fun _ => Keeps.bind (fun _ hv => hv) fun _ =>
        (keeps_skipBytes idleWith_bytes 1).bind fun _ => Keeps.bind (fun _ hv => hv) fun _ =>
          idleWith_setState ⟨rfl, rfl⟩)
  | incrDecrRemaining =>
    exact does_idle hst ⟨rfl, rfl⟩ ((keeps_skipUntil idleWith_bytes lf).bind fun _ =>
      (keeps_skipBytes idleWith_bytes 1).bind fun _ => Keeps.bind (fun _ hv => hv) fun _ =>
        idleWith_setState ⟨rfl, rfl⟩)
  | verStart => exact does_line hst rfl rfl (.inl rfl) (hline (hst ▸ rfl))
  | statStart => exact does_line hst rfl rfl (.inr rfl) (hline (hst ▸ rfl))
  | end_ => exact does_idle hst ⟨rfl, rfl⟩ (keeps_pure ())
  | error => exact does_idle hst ⟨rfl, rfl⟩ (keeps_pure ())

/-- **What a round does to the results**, when the loop goes on. -/
theorem body_resultRound (hres : v.HasResult) (hline : v.HasLine) (h : body v = .inl v') :
    ResultRound v v' ∧ (v'.state ≠ v.state ∨ Idle v.state) := by
  obtain ⟨hround, -, hgoes⟩ := does hres hline
  rcases hend : v.canEndParse with _ | _
  · rw [body_eq hend] at h
    rcases hv : stateAction v.state v with ⟨e | _, w⟩ <;> rw [hv] at h hround hgoes
    · cases h
    · exact Sum.inl.inj h ▸ ⟨hround, hgoes _ rfl⟩
  · rw [body_of_canEndParse hend] at h
    cases h

theorem body_resultStop {r : ErrCode × Flat} (hend : v.canEndParse = false) (hres : v.HasResult)
    (hline : v.HasLine) (h : body v = .inr r) :
    ResultRound v r.2 ∧ (r.2.state = v.state ∨ Idle v.state ∧ Idle r.2.state) := by
  obtain ⟨hround, hstops, -⟩ := does hres hline
  rw [body_eq hend] at h
  rcases hv : stateAction v.state v with ⟨e | _, w⟩ <;> rw [hv] at h hround hstops
  · exact Sum.inr.inj h ▸ ⟨hround, hstops e rfl⟩
  · cases h

end PacketParser

end Libmc
