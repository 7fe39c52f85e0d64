import Libmc.Support.Run
import Libmc.ResultSizes

/-!
# The lengths of the results

What `collectRetrievalResult` and `LineResult::inner` hand out is a pointer with a length. The length
of a key keeps eight bits, an item of `2 ^ 32 - 1` bytes counts as finished while the rest of its
header line is awaited, and the length of a line is one less than that of its token, also when that
is empty. Otherwise every length is backed by the bytes that were received (`backed_iff_of_run`).
-/

namespace Libmc

namespace PacketParser

variable {v v' : Flat} {q u t w : Bytes} {k : ℕ} {pl pl' : Place} {st st' : ParserState}
  {kv kv' : RetrievalResult Bytes}

/-! ## Where the unread bytes lead -/

/-- The key of the last item, after a field between these places. -/
def keyAfter (pl : Place) (w : Bytes) (pl' : Place) (key : Bytes) : Bytes :=
  if pl'.1 = .getStart then []
  else if pl.1 = .getStart then w.takeWhile (· != space)
  else key

/-- Fields one after the other, and the key of the last item before and after them. -/
inductive KeyedPieces : Place → Bytes → Bytes → ℕ → Place → Bytes → Prop
  | nil {pl key} : KeyedPieces pl key [] 0 pl key
  | cons {pl pl' pl'' key key' w w' k k'} (h : Piece pl w k pl')
      (hs : KeyedPieces pl' (keyAfter pl w pl' key) w' k' pl'' key') :
      KeyedPieces pl key (w ++ w') (k + k') pl'' key'

/-- No whole field follows. -/
def BreaksOff (pl : Place) (t : Bytes) : Prop := ∀ u t' k pl', t = u ++ t' → ¬ Piece pl u k pl'

/-- The unread bytes lead to the data block of an item whose key has 256 bytes or more; or they break
off in the header line of an item of `2 ^ 32 - 1` bytes, after its size; or they lead to a line that
is empty or breaks off. -/
def Misleads (v : Flat) : Prop :=
  ∃ w t k pl key, v.bufferReader = w ++ t ∧ KeyedPieces v.place v.kv.key w k pl key ∧
    (v.mode ≠ .endState → v.KeysMissing k) ∧
    (pl.1 = .getValueRemaining ∧ pl.2 ≤ t.length ∧ 2 ^ 8 ≤ key.length ∨
      (pl.1 = .getBytes ∨ pl.1 = .getCas) ∧ pl.2 = 2 ^ 32 - 1 ∧ BreaksOff pl t ∨
      readsLine pl.1 = true ∧ (BreaksOff pl t ∨ ∃ t', t = lf :: t'))

theorem takeWhile_space {t : Bytes} (hu : space ∉ u) :
    (u ++ space :: t).takeWhile (· != space) = u := by
  induction u with
  | nil => rfl
  | cons c u ih =>
    have hc : (c != space) = true := bne_iff_ne.2 fun h => hu (h ▸ List.mem_cons_self)
    rw [List.cons_append, List.takeWhile_cons, if_pos hc, ih fun h => hu (List.mem_cons_of_mem c h)]

theorem ItemRound.key_eq (h : ItemRound q kv st st' kv') : kv'.key =
    if st' = .getStart then []
    else if st = .getStart then q.takeWhile (· != space) else kv.key := by
  cases h with
  | key hq hu =>
    subst hq
    exact (takeWhile_space hu).symm
  | data _ _ _ _ hst | dataRead _ _ hst => rcases hst with rfl | rfl <;> rfl
  | _ => rfl

theorem ResultRound.key_eq (h : ResultRound v v') : v'.kv.key =
    if v'.state = .getStart then []
    else if v.state = .getStart then v.bufferReader.takeWhile (· != space) else v.kv.key := by
  have hne : ∀ {st : ParserState}, usesKv st = false → st ≠ .getStart := by
    rintro _ h rfl
    cases h
  cases h with
  | idle hst hst' hr hl =>
    rw [if_neg (hne hst'.1), if_neg (hne hst.1)]
    unfold PacketParser.kv
    rw [hr]
  | opensItem hst hst' hr hl => rw [if_pos hst', kv_concat hr]
  | opensLine hst hst' hr hl =>
    rw [if_neg (hne (usesKv_of_readsLine hst')), if_neg (hne hst.1)]
    unfold PacketParser.kv
    rw [hr]
  | item hr hr' hl h => rw [kv_concat hr', kv_concat hr, h.key_eq]
  | line hst hr hl hl' h =>
    rw [if_neg (hne (h.usesKv hst)), if_neg (hne (usesKv_of_readsLine hst))]
    unfold PacketParser.kv
    rw [hr]

/-! ### Rounds and fields -/

theorem body_sized (hs : v.Sized) (h : body v = .inl v') : v'.Sized :=
  (body_resultRound hs.result hs.line h).1.sized hs

theorem body_wrong_iff (hs : v.Sized) (h : body v = .inl v') : v'.Wrong ↔ v.Wrong ∨ v.Completes := by
  obtain ⟨hround, hst⟩ := body_resultRound hs.result hs.line h
  exact hround.wrong_iff hst

/-- Nothing is completed before a number, nor at the end of a header line. -/
theorem not_completes_of_quiet (h : v.state = .incrDecrStart ∨ v.state = .getCas) :
    ¬ v.Completes := by
  rintro (⟨hst, -⟩ | ⟨hst, -⟩) <;> rcases h with h | h <;> rw [h] at hst <;> cases hst

theorem Rounds.results (h : Rounds v v') (hs : v.Sized) :
    v'.Sized ∧ (v'.Wrong ↔ v.Wrong ∨ v.Completes) ∧ v'.kv.key =
      if v'.state = .getStart then []
      else if v.state = .getStart then v.bufferReader.takeWhile (· != space) else v.kv.key := by
  rcases h with h | ⟨u, h, hquiet, h'⟩
  · exact ⟨body_sized hs h, body_wrong_iff hs h, (body_resultRound hs.result hs.line h).1.key_eq⟩
  · have hu := body_sized hs h
    have hne : u.state ≠ .getStart := by
      intro hc
      rw [hc] at hquiet
      exact hquiet.elim nofun nofun
    refine ⟨body_sized hu h', ?_, ?_⟩
    · rw [body_wrong_iff hu h', body_wrong_iff hs h, or_iff_left (not_completes_of_quiet hquiet)]
    · rw [(body_resultRound hu.result hu.line h').1.key_eq, if_neg hne,
        (body_resultRound hs.result hs.line h).1.key_eq, if_neg hne]

theorem ReadsPiece.results (h : ReadsPiece v t pl k pl' v') (hp : Piece pl w k pl')
    (hpl : v.place = pl) (hr : v.bufferReader = w ++ t) (hs : v.Sized) :
    v'.Sized ∧ (v'.Wrong ↔ v.Wrong ∨ v.Completes) ∧ v'.kv.key = keyAfter pl w pl' v.kv.key := by
  obtain ⟨hs', hwrong, hkey⟩ := h.rounds.results hs
  refine ⟨hs', hwrong, ?_⟩
  rw [hkey, h.state, show v.state = pl.1 from congrArg Prod.fst hpl, keyAfter]
  split_ifs with h1 h2
  · rfl
  · -- the key lies in the field
    cases hp with
    | key hw =>
      obtain ⟨u, rfl, hu⟩ := hw
      rw [hr, List.append_assoc, List.singleton_append, takeWhile_space hu, takeWhile_space hu]
    | _ => cases h2
  · rfl

/-- **Soundness of the grammar**, with the results. -/
theorem reads_keyedPieces {key key' : Bytes} (hp : KeyedPieces pl key w k pl' key')
    (hpl : v.place = pl) (hkey : v.kv.key = key) (hs : v.Sized)
    (hmiss : v.mode ≠ .endState → v.KeysMissing k) (hr : v.bufferReader = w ++ t) :
    ∃ v', Reads1 v t k pl' v' ∧ v'.kv.key = key' ∧ v'.Sized := by
  induction hp generalizing v with
  | nil => exact ⟨v, ⟨.refl, hr, hpl, rfl, rfl, rfl, hs.result⟩, hkey, hs⟩
  | @cons pl pl' pl'' key key' w w' k k' h hps ih =>
    have hend := canEndParse_of_missing (fun _ => by
      rw [show v.state = _ from congrArg Prod.fst hpl]
      exact h.not_end) hmiss
    rw [List.append_assoc] at hr
    obtain ⟨v₁, h₁⟩ := reads_piece h hpl hend hs.result hr
    obtain ⟨hs₁, -, hkey₁⟩ := h₁.results h hpl hr hs
    obtain ⟨v₂, h₂, hkey₂, hs₂⟩ :=
      ih h₁.place (hkey ▸ hkey₁) hs₁ (h₁.keysMissing hmiss) h₁.bytes
    exact ⟨v₂, h₁.toReads1.trans h₂, hkey₂, hs₂⟩

/-! ### When the call returns -/

/-- Nothing is in progress when the keys are all answered. -/
theorem idle_of_canEndParse (hp : Piece pl w k pl') (h : Reads1 v t k pl' v')
    (hend : v.canEndParse = false) (hend' : v'.canEndParse = true) : Idle v'.state := by
  unfold canEndParse at hend hend'
  rw [h.mode] at hend'
  split_ifs at hend hend' with hm
  · rcases hst : v'.state <;> rw [hst] at hend' <;> first | exact ⟨rfl, rfl⟩ | cases hend'
  · have hk : k ≠ 0 := by
      rintro rfl
      refine of_decide_eq_false hend ?_
      rw [← h.keys, ← of_decide_eq_true hend', h.idx, Nat.add_zero]
    rw [h.state]
    cases hp <;> first | exact absurd rfl hk | exact ⟨rfl, rfl⟩

theorem Sized.backed_iff_of_idle (hs : v.Sized) (h : Idle v.state) :
    v.Backed List.length ↔ ¬ v.Wrong := by
  rw [hs.backed_iff, h.1, h.2]
  exact and_iff_left ⟨nofun, nofun⟩

theorem Wrong.not_backed {r : ErrCode × Flat} (hw : v.Wrong) (hs : v.Sized)
    (hr : Loop.Returns body v r) : ¬ r.2.Backed List.length := by
  obtain ⟨u, hreach, hu⟩ := hr.last
  obtain ⟨hsu, hwu⟩ := hreach.invariant (I := fun u => u.Sized ∧ u.Wrong)
    (fun u u' h hb => ⟨body_sized h.1 hb, (body_wrong_iff h.1 hb).2 (.inl h.2)⟩) ⟨hs, hw⟩
  rcases hend : u.canEndParse with _ | _
  · obtain ⟨hround, hst⟩ := body_resultStop hend hsu.result hsu.line hu
    exact fun hb => ((hround.backed_iff hsu hst).1 hb).1 hwu
  · rw [body_of_canEndParse hend] at hu
    exact Sum.inr.inj hu ▸ fun hb => (hsu.backed_iff.1 hb).1 hwu

theorem Completes.not_backed {r : ErrCode × Flat} (h : v.Completes) (hs : v.Sized)
    (hend : v.canEndParse = false) (hr : Loop.Returns body v r) : ¬ r.2.Backed List.length := by
  rcases hb : body v with v' | r'
  · have hw : v'.Wrong := (body_wrong_iff hs hb).2 (.inr h)
    exact hw.not_backed (body_sized hs hb) ((Loop.returns_of_inl hb).1 hr)
  · obtain rfl := (Loop.returns_of_inr hb).unique hr
    obtain ⟨hround, hst⟩ := body_resultStop hend hs.result hs.line hb
    exact fun hb => ((hround.backed_iff hs hst).1 hb).2.1 h

theorem Breaks.not_backed {r : ErrCode × Flat} (h : v.Breaks) (hs : v.Sized)
    (hend : v.canEndParse = false) (hoff : BreaksOff v.place v.bufferReader)
    (hr : Loop.Returns body v r) : ¬ r.2.Backed List.length := by
  have hne : ∀ st, Idle st → v.state ≠ st := by
    rintro st hidle rfl
    rcases h with ⟨hst | hst, -⟩ | hst
    · cases (hst ▸ hidle.1 : usesKv .getBytes = false)
    · cases (hst ▸ hidle.1 : usesKv .getCas = false)
    · cases hst.symm.trans hidle.2
  rcases advance hend (hne _ ⟨rfl, rfl⟩) (hne _ ⟨rfl, rfl⟩) with
    (⟨r', hb⟩ | ⟨hst, -⟩) | ⟨hst, -⟩ | ⟨u, t', k, pl, hsplit, hp⟩
  · obtain rfl := (Loop.returns_of_inr hb).unique hr
    obtain ⟨hround, hst⟩ := body_resultStop hend hs.result hs.line hb
    exact fun hb => ((hround.backed_iff hs hst).1 hb).2.2 h
  · exact absurd hst (hne _ ⟨rfl, rfl⟩)
  · exact absurd hst (hne _ ⟨rfl, rfl⟩)
  · exact absurd hp (hoff u t' k pl hsplit)

theorem Sized.sizeLeft_eq (hs : v.Sized) (h : v.state = .getBytes ∨ v.state = .getCas) :
    v.sizeLeft = v.kv.bytes := by
  have hcur : v.kv.bytes < 2 ^ 32 ∧ v.kv.bytesRemain = (v.kv.bytes + 1) % 2 ^ 32 ∧
      v.kv.dataBlock = [] := by
    have hcur := hs.current
    rcases h with h | h <;> rw [h] at hcur <;> exact hcur rfl
  rw [sizeLeft_header h, sizeAfter, hcur.2.1]
  split_ifs <;> omega

/-- **The grammar leads to a length that is not backed.** -/
theorem Misleads.not_backed {r : ErrCode × Flat} (h : v.Misleads) (hs : v.Sized)
    (hr : Loop.Returns body v r) : ¬ r.2.Backed List.length := by
  obtain ⟨w, t, k, pl, key, hbuf, hps, hmiss, hbad⟩ := h
  obtain ⟨v', h', rfl, hs'⟩ := reads_keyedPieces hps rfl rfl hs hmiss hbuf
  have hr' := h'.reaches.returns_iff.1 hr
  have hst := h'.state
  have hsize : v'.sizeLeft = pl.2 := congrArg Prod.snd h'.place
  have hoff : BreaksOff pl t → BreaksOff v'.place v'.bufferReader := by
    rw [h'.place, h'.bytes]
    exact id
  rcases hbad with ⟨hpl, hle, hkey⟩ | ⟨hpl, hbytes, hbreak⟩ | ⟨hpl, hbreak | ⟨t', ht'⟩⟩
  · have hc : v'.Completes := .inl ⟨hst.trans hpl, by
      rw [← sizeLeft_data (hst.trans hpl), hsize, h'.bytes]
      exact hle, hkey⟩
    exact hc.not_backed hs' (h'.canEndParse (hpl ▸ rfl) hmiss) hr'
  · have hpl' : v'.state = .getBytes ∨ v'.state = .getCas := hst ▸ hpl
    have hbr : v'.Breaks := .inl ⟨hpl', by rw [← hs'.sizeLeft_eq hpl', hsize, hbytes]⟩
    have hend : pl.1.isEndState = false := by
      rcases hpl with h | h <;> rw [h] <;> rfl
    exact hbr.not_backed hs' (h'.canEndParse hend hmiss) (hoff hbreak) hr'
  · have hbr : v'.Breaks := .inr (hst ▸ hpl)
    exact hbr.not_backed hs' (h'.canEndParse (readsLine_not_end hpl) hmiss) (hoff hbreak) hr'
  · have hc : v'.Completes := .inr ⟨hst ▸ hpl, t', h'.bytes.trans ht'⟩
    exact hc.not_backed hs' (h'.canEndParse (readsLine_not_end hpl) hmiss) hr'

theorem Misleads.of_reads (hp : Piece v.place w k pl) (hr : v.bufferReader = w ++ t)
    (h : Reads1 v t k pl v') (hkey : v'.kv.key = keyAfter v.place w pl v.kv.key)
    (hend : v.canEndParse = false) (hm : v'.Misleads) : v.Misleads := by
  obtain ⟨w', t', k', pl', key, hr', hps, hmiss', hbad⟩ := hm
  have hmiss := h.keysMissing_add hp.keys_le hend hmiss'
  rw [h.place, hkey] at hps
  refine ⟨w ++ w', t', k + k', pl', key, ?_, .cons hp hps, hmiss, hbad⟩
  rw [hr, ← h.bytes, hr', List.append_assoc]

theorem Completes.misleads (h : v.Completes) (hend : v.canEndParse = false) : v.Misleads := by
  refine ⟨[], v.bufferReader, 0, v.place, v.kv.key, rfl, .nil, keysMissing_of_canEndParse hend, ?_⟩
  rcases h with ⟨hst, hle, hkey⟩ | ⟨hst, hlf⟩
  · exact .inl ⟨hst, (sizeLeft_data hst).trans_le hle, hkey⟩
  · exact .inr (.inr ⟨hst, .inr hlf⟩)

theorem Breaks.misleads (h : v.Breaks) (hs : v.Sized) (hend : v.canEndParse = false)
    (hoff : BreaksOff v.place v.bufferReader) : v.Misleads := by
  refine ⟨[], v.bufferReader, 0, v.place, v.kv.key, rfl, .nil, keysMissing_of_canEndParse hend, ?_⟩
  rcases h with ⟨hst, hbytes⟩ | hst
  · exact .inr (.inl ⟨hst, (hs.sizeLeft_eq hst).trans hbytes, hoff⟩)
  · exact .inr (.inr ⟨hst, .inl hoff⟩)

/-- **It leads to none: the lengths are backed**, by induction on the number of unread bytes. -/
theorem backed_of_not_misleads {r : ErrCode × Flat} (hs : v.Sized) (hend : v.canEndParse = false)
    (hw : ¬ v.Wrong) (hm : ¬ v.Misleads) (hr : Loop.Returns body v r) : r.2.Backed List.length := by
  induction hn : v.bufferReader.length using Nat.strong_induction_on generalizing v with
  | _ n ih =>
    have hstuck : body v ≠ .inl v := fun hb => Loop.not_returns_of_stuck hb hr
    have hcompl : ¬ v.Completes := fun hc => hm (hc.misleads hend)
    by_cases herr : v.state = .error
    · exact absurd (body_ok hend herr rfl) hstuck
    by_cases hst : v.state = .end_
    · exact absurd (body_ok hend hst rfl) hstuck
    rcases advance hend herr hst with
      (⟨r', hb⟩ | ⟨hstart, r', hb, hb'⟩) | hstray | ⟨w, t, k, pl, hsplit, hp⟩
    · obtain rfl := (Loop.returns_of_inr hb).unique hr
      have hoff : BreaksOff v.place v.bufferReader := by
        intro u t' k pl hsplit hp
        obtain ⟨v', hv'⟩ := reads_piece hp rfl hend hs.result hsplit
        rcases hv'.rounds with h | ⟨u, h, -⟩ <;> cases hb.symm.trans h
      obtain ⟨hround, hst'⟩ := body_resultStop hend hs.result hs.line hb
      exact (hround.backed_iff hs hst').2 ⟨hw, hcompl, fun hbr => hm (hbr.misleads hs hend hoff)⟩
    · -- a digit whose number has not arrived
      have hs' := body_sized hs hb
      have hw' := fun h => hw (((body_wrong_iff hs hb).1 h).resolve_right hcompl)
      have hend' : (setState .incrDecrStart (pushUnsigned v)).canEndParse = false :=
        canEndParse_after hend rfl rfl rfl rfl
      obtain rfl := ((Loop.returns_of_inl hb).2 (Loop.returns_of_inr hb')).unique hr
      obtain ⟨hround, hst'⟩ := body_resultStop hend' hs'.result hs'.line hb'
      refine (hround.backed_iff hs' hst').2 ⟨hw', not_completes_of_quiet (.inl rfl), ?_⟩
      rintro (⟨h | h, -⟩ | h) <;> cases h
    · exact absurd (body_stuck hend (.inl hstray)) hstuck
    · obtain ⟨v₁, h₁⟩ := reads_piece hp rfl hend hs.result hsplit
      obtain ⟨hs₁, hwrong₁, hkey₁⟩ := h₁.results hp rfl hsplit hs
      have hw₁ : ¬ v₁.Wrong := fun h => (hwrong₁.1 h).elim hw hcompl
      have hr₁ := h₁.reaches.returns_iff.1 hr
      rcases hend₁ : v₁.canEndParse with _ | _
      · have hpos := hp.pos
        have hlt : v₁.bufferReader.length < n := by
          rw [← hn, h₁.bytes, hsplit, List.length_append]
          omega
        exact ih _ hlt hs₁ hend₁ hw₁ (fun h => hm (h.of_reads hp hsplit h₁.toReads1 hkey₁ hend)) hr₁
          rfl
      · obtain rfl := (Loop.returns_of_inr (body_of_canEndParse hend₁)).unique hr₁
        exact (hs₁.backed_iff_of_idle (idle_of_canEndParse hp h₁.toReads1 hend hend₁)).2 hw₁

/-! ## The parser in use -/

theorem Sized.congr (hs : v.Sized) (hst : v'.state = v.state)
    (hr : v'.retrievalResults = v.retrievalResults) (hl : v'.lineResults = v.lineResults) :
    v'.Sized where
  result := by
    unfold HasResult
    rw [hst, hr]
    exact hs.result
  line := by
    unfold HasLine
    rw [hst, hl]
    exact hs.line
  keyLen := hr ▸ hs.keyLen
  lineLen := hl ▸ hs.lineLen
  settled := by
    unfold settledItems
    rw [hst, hr]
    exact hs.settled
  current := by
    unfold PacketParser.kv
    rw [hst, hr]
    exact hs.current

theorem sized_of_empty (hst : v.state = .start) (hr : v.retrievalResults = [])
    (hl : v.lineResults = []) : v.Sized := by
  have hidle : Idle v.state := hst ▸ ⟨rfl, rfl⟩
  refine ⟨.of_not hidle.1, fun h => ?_, ?_, ?_, ?_, fun h => ?_⟩
  · cases hidle.2.symm.trans h
  · exact hr ▸ List.forall_mem_nil _
  · exact hl ▸ List.forall_mem_nil _
  · rw [settledItems_of_not hidle.1, hr]
    exact List.forall_mem_nil _
  · cases hidle.1.symm.trans h

theorem enter_results (hs : v.Sized) : v.enter.Sized ∧ (v.enter.Wrong ↔ v.Wrong) ∧
    v.enter.retrievalResults = v.retrievalResults ∧ v.enter.lineResults = v.lineResults := by
  unfold enter
  split_ifs with hst
  · have hidle : Idle v.state := by
      rcases h : v.state <;> rw [h] at hst <;> first | exact ⟨rfl, rfl⟩ | cases hst
    have hround : ResultRound v (v.setState .start) := .idle hidle ⟨rfl, rfl⟩ rfl rfl
    refine ⟨hround.sized hs, ?_, rfl, rfl⟩
    exact (hround.wrong_iff (.inr hidle)).trans (or_iff_left hidle.not_completes)
  · exact ⟨hs, Iff.rfl, rfl, rfl⟩

theorem Sized.returns {r : ErrCode × Flat} (hs : v.Sized) (hr : v.Returns r) : r.2.Sized := by
  obtain ⟨u, hreach, hu⟩ := Loop.Returns.last hr
  have hsu : u.Sized := hreach.invariant (I := Sized) (fun _ _ h hb => body_sized h hb)
    (enter_results hs).1
  rcases hend : u.canEndParse with _ | _
  · exact (body_resultStop hend hsu.result hsu.line hu).1.sized hsu
  · rw [body_of_canEndParse hend] at hu
    exact Sum.inr.inj hu ▸ hsu

/-- The call that ends at once leads nowhere. -/
theorem not_misleads_of_canEndParse (hend : v.enter.canEndParse = true) : ¬ v.enter.Misleads := by
  rintro ⟨w, t, k, pl, key, -, -, hmiss, -⟩
  have hst : v.enter.state.isEndState = false := by
    unfold enter
    split_ifs with h
    · rfl
    · exact eq_false_of_ne_true h
  unfold canEndParse at hend
  split_ifs at hend with hm
  · cases hst.symm.trans hend
  · have heq := of_decide_eq_true hend
    exact hmiss hm ⟨heq.le, heq ▸ Nat.le_add_right _ _⟩

theorem backed_flat_iff {r : ErrCode × Flat} (hs : v.Sized) (hb : v.Backed List.length)
    (hr : v.Returns r) : r.2.Backed List.length ↔ ¬ v.enter.Misleads := by
  obtain ⟨hse, hwrong, hitems, hlines⟩ := enter_results hs
  have hw : ¬ v.enter.Wrong := fun h => (hs.backed_iff.1 hb).1 (hwrong.1 h)
  rcases hend : v.enter.canEndParse with _ | _
  · exact ⟨fun hb hm => hm.not_backed hse hr hb, fun hm => backed_of_not_misleads hse hend hw hm hr⟩
  · obtain rfl := (Loop.returns_of_inr (body_of_canEndParse hend)).unique hr
    exact iff_of_true ⟨hitems ▸ hb.items, hlines ▸ hb.lines⟩ (not_misleads_of_canEndParse hend)

theorem backed_view {p : Blocks} (h : p.Ok) : p.Backed tokenSize ↔ p.view.Backed List.length := by
  have hitem : ∀ kv ∈ p.retrievalResults,
      (ItemBacked tokenSize kv ↔ ItemBacked List.length (kv.map p.token)) := fun kv hkv => by
    obtain ⟨hkey, hdata⟩ := h.results kv hkv
    unfold ItemBacked
    rw [tokenSize_eq hkey, tokenSize_eq hdata]
    rfl
  have hline : ∀ l ∈ p.lineResults, (l.innerLen ≤ tokenSize l.line ↔
      (l.map p.token).innerLen ≤ (l.map p.token).line.length) := fun l hl => by
    rw [tokenSize_eq (h.lines l hl)]
    rfl
  constructor
  · rintro ⟨hi, hl⟩
    exact ⟨List.forall_mem_map.2 fun kv hkv => (hitem kv hkv).1 (hi kv hkv),
      List.forall_mem_map.2 fun l hmem => (hline l hmem).1 (hl l hmem)⟩
  · rintro ⟨hi, hl⟩
    exact ⟨fun kv hkv => (hitem kv hkv).2 (List.forall_mem_map.1 hi kv hkv),
      fun l hmem => (hline l hmem).2 (List.forall_mem_map.1 hl l hmem)⟩

inductive ParserEvent
  | write | recv | process | addRequestKey | setMode | reset | rewind
  deriving DecidableEq, Repr

/-- A step of a parser whose blocks have at least this capacity. -/
inductive ParserStep (minCapacity : ℕ) : Blocks → ParserEvent → Blocks → Prop
  | write (p) (bs : Bytes) : ParserStep minCapacity p .write
      { p with bufferReader := p.bufferReader.write minCapacity bs }
  | prepare (p) {len : ℕ} (hlen : 0 < len) : ParserStep minCapacity p .recv
      { p with bufferReader := (p.bufferReader.prepareWriteBlock minCapacity len).2 }
  | recv (p) {len : ℕ} {bs : Bytes} (hlen : 0 < len) (hbs : bs ≠ [])
      (hroom : bs.length ≤ (p.bufferReader.prepareWriteBlock minCapacity len).1) :
      ParserStep minCapacity p .recv
        { p with bufferReader :=
            (p.bufferReader.prepareWriteBlock minCapacity len).2.commitWrite bs }
  | process {p q : Blocks} {e : ErrCode} (hr : p.Returns (e, q)) : ParserStep minCapacity p .process q
  | addRequestKey (p) (key : Bytes) : ParserStep minCapacity p .addRequestKey
      { p with requestKeys := p.requestKeys ++ [key] }
  | setMode (p) (mode : ParserMode) : ParserStep minCapacity p .setMode { p with mode := mode }
  | reset (p) : ParserStep minCapacity p .reset
      { p.reset with bufferReader := p.bufferReader.reset }
  | rewind (p) : ParserStep minCapacity p .rewind
      { p.rewind with bufferReader := p.bufferReader.reset }

structure Kept (p : Blocks) : Prop where
  ok : p.Ok
  sized : p.view.Sized
  backed : p.Backed tokenSize

theorem Kept.writes {p : Blocks} {r' : BufferReader} {bs : Bytes} (h : p.Kept)
    (hw : BufferReader.Writes p.bufferReader bs r') : Kept { p with bufferReader := r' } := by
  refine ⟨h.ok.writes hw, ?_, h.backed.1, h.backed.2⟩
  rw [view_writes h.ok hw]
  exact h.sized.congr rfl rfl rfl

theorem Kept.cleared {p q : Blocks} (h : p.Kept) (hreader : q.bufferReader = p.bufferReader.reset)
    (hst : q.state = .start) (hr : q.retrievalResults = []) (hl : q.lineResults = []) : q.Kept := by
  have hresults : q.view.retrievalResults = [] := congrArg (List.map _) hr
  have hlines : q.view.lineResults = [] := congrArg (List.map _) hl
  refine ⟨⟨hreader ▸ (BufferReader.wf_reset h.ok.wf).1, ?_, ?_⟩,
    sized_of_empty hst hresults hlines, ?_, ?_⟩
  · exact hr ▸ List.forall_mem_nil _
  · exact hl ▸ List.forall_mem_nil _
  · exact hr ▸ List.forall_mem_nil _
  · exact hl ▸ List.forall_mem_nil _

/-- A call keeps the lengths backed exactly if it is not misled. -/
theorem Kept.process {p q : Blocks} {e : ErrCode} (h : p.Kept) (hr : p.Returns (e, q)) :
    (q.Backed tokenSize ↔ ¬ p.view.enter.Misleads) ∧ q.Ok ∧ q.view.Sized := by
  obtain ⟨hq, hv⟩ := hr.view h.ok
  refine ⟨?_, hq, h.sized.returns hv⟩
  rw [backed_view hq]
  exact backed_flat_iff h.sized ((backed_view h.ok).1 h.backed) hv

def NotMisled (p : Blocks) (ev : ParserEvent) : Prop := ev = .process → ¬ p.view.enter.Misleads

theorem Kept.step {cap : ℕ} {p q : Blocks} {ev : ParserEvent} (h : p.Kept)
    (hs : ParserStep cap p ev q) (hm : p.NotMisled ev) : q.Kept := by
  cases hs with
  | write bs => exact h.writes (BufferReader.write_writes h.ok.wf cap bs)
  | prepare hlen => exact h.writes (BufferReader.prepareWriteBlock_spec h.ok.wf cap hlen).1
  | recv hlen hbs hroom =>
    obtain ⟨hw, hprep, -, -, hleft⟩ := BufferReader.prepareWriteBlock_spec h.ok.wf cap hlen
    exact h.writes (hw.trans (BufferReader.commitWrite_writes hprep hbs (hroom.trans hleft)))
  | process hr =>
    obtain ⟨hiff, hok, hsized⟩ := h.process hr
    exact ⟨hok, hsized, hiff.2 (hm rfl)⟩
  | addRequestKey key =>
    exact ⟨⟨h.ok.wf, h.ok.results, h.ok.lines⟩, h.sized.congr rfl rfl rfl, h.backed.1, h.backed.2⟩
  | setMode mode =>
    exact ⟨⟨h.ok.wf, h.ok.results, h.ok.lines⟩, h.sized.congr rfl rfl rfl, h.backed.1, h.backed.2⟩
  | reset => exact h.cleared rfl rfl rfl rfl
  | rewind => exact h.cleared rfl rfl rfl rfl

theorem kept_fresh (keys : List Bytes) (mode : ParserMode) : (fresh keys mode).Kept :=
  ⟨fresh_ok keys mode, sized_of_empty rfl rfl rfl, List.forall_mem_nil _, List.forall_mem_nil _⟩

/-- **Every length is backed by received bytes** after every call of a run, exactly if no call is
misled. -/
theorem backed_iff_of_run {cap : ℕ} {keys : List Bytes} {mode : ParserMode} {p : Blocks}
    {tr : List (Transition Blocks ParserEvent)} (h : Run (ParserStep cap) (fresh keys mode) tr p) :
    (∀ t ∈ tr, t.event = .process → t.after.Backed tokenSize) ↔
      ∀ t ∈ tr, t.before.NotMisled t.event := by
  refine h.forall_iff (I := Kept) (kept_fresh keys mode) ?_ ?_
  · exact fun s ev s' hs hstep hm => ⟨hs.step hstep hm, fun _ => (hs.step hstep hm).backed⟩
  · intro s ev s' hs hstep hm hb
    refine hm fun hev => ?_
    subst hev
    cases hstep with
    | process hr => exact (hs.process hr).1.1 (hb rfl)

/-- An item that comes in two pieces, and a line. -/
theorem backed_iff_of_run_item : ∃ (tr : List (Transition Blocks ParserEvent)) (q : Blocks),
    Run (ParserStep 8192) (fresh [] .endState) tr q ∧
      tr.map (·.event) = [.write, .process, .write, .process] ∧
      q.retrievalResults.map (fun kv => (tokenSize kv.dataBlock, kv.bytes)) = [(2, 2)] ∧
      q.lineResults.map (fun inner => (tokenSize inner.line, inner.innerLen)) = [(4, 3)] ∧
      ∀ t ∈ tr, t.before.NotMisled t.event := by
  obtain ⟨p, q, kv, inner, hp, hq, hpkv, hpline, hqkv, hqline, hkv, hinner⟩ :
      ∃ (p q : Blocks) (kv : RetrievalResult TokenData) (inner : LineResult TokenData),
        ((machine 8192).feed (fresh [] .endState) (ascii "VALUE k 0 2\r\nab\r")).Returns
          (.incompleteBufferErr, p) ∧
        ((machine 8192).feed p (ascii "\nSTAT p 1\r\nEND\r\n")).Returns (.ok, q) ∧
        p.retrievalResults = [kv] ∧ p.lineResults = [] ∧ q.retrievalResults = [kv] ∧
        q.lineResults = [inner] ∧
        (tokenSize kv.key, kv.keyLen, tokenSize kv.dataBlock, kv.bytes) = (1, 1, 2, 2) ∧
        (tokenSize inner.line, inner.innerLen) = (4, 3) :=
    ⟨_, _, _, _, ⟨7, rfl⟩, ⟨7, rfl⟩, rfl, rfl, rfl, rfl, rfl, rfl⟩
  simp only [Prod.mk.injEq] at hkv hinner
  obtain ⟨hkey, hkeyLen, hdata, hbytes⟩ := hkv
  obtain ⟨hline, hlen⟩ := hinner
  have hitem : ItemBacked tokenSize kv := fun _ => ⟨hkey.trans hkeyLen.symm, hdata.trans hbytes.symm⟩
  have hpbacked : p.Backed tokenSize := by
    refine ⟨?_, ?_⟩
    · rw [hpkv]
      exact List.forall_mem_singleton.2 hitem
    · rw [hpline]
      exact List.forall_mem_nil _
  have hqbacked : q.Backed tokenSize := by
    refine ⟨?_, ?_⟩
    · rw [hqkv]
      exact List.forall_mem_singleton.2 hitem
    · rw [hqline]
      exact List.forall_mem_singleton.2 (by rw [hline, hlen]; decide)
  have hfirst : Run (ParserStep 8192) (fresh [] .endState) _ _ :=
    .snoc (.snoc .nil (.write _ _)) (.process hp)
  have hrun := (hfirst.snoc (.write _ _)).snoc (.process hq)
  refine ⟨_, q, hrun, rfl, ?_, ?_, (backed_iff_of_run hrun).1 fun t ht hev => ?_⟩
  · rw [hqkv]
    exact congrArg (fun x => [x]) (Prod.ext hdata hbytes)
  · rw [hqline]
    exact congrArg (fun x => [x]) (Prod.ext hline hlen)
  · simp only [List.nil_append, List.cons_append, List.mem_cons, List.not_mem_nil, or_false] at ht
    rcases ht with rfl | rfl | rfl | rfl
    · cases hev
    · exact hpbacked
    · cases hev
    · exact hqbacked

/-- Half a line: `VERSION 1` has arrived, and the length of the line is `2 ^ 64 - 1`. -/
theorem not_backed_version : ∃ tr p, Run (ParserStep 8192) (fresh [] .endState) tr p ∧
    ∃ t ∈ tr, t.event = .process ∧ ¬ t.after.Backed tokenSize := by
  obtain ⟨q, hq, hlines⟩ : ∃ q, ((machine 8192).feed (fresh [] .endState)
      (ascii "VERSION 1")).Returns (.incompleteBufferErr, q) ∧
      q.lineResults = [{ line := [], lineLen := 0 }] := ⟨_, ⟨2, rfl⟩, rfl⟩
  refine ⟨_, q, .snoc (.snoc .nil (.write _ _)) (.process hq), _,
    List.mem_append_right _ (List.mem_singleton_self _), rfl, fun h => ?_⟩
  have hle := h.lines { line := [], lineLen := 0 } (by
    show _ ∈ q.lineResults
    rw [hlines]
    exact List.mem_singleton_self _)
  exact absurd hle (by decide)

end PacketParser

end Libmc
