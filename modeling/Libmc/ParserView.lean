import Libmc.Parser
import Libmc.BufferWrite

/-!
# The parser over blocks and the parser over bytes

`PacketParser.view` forgets the blocks: the reader becomes its unread bytes, every token the bytes
it denotes. Under `PacketParser.Ok` each state of the parser over blocks does to the view what the
same state of the parser over bytes does, so `process_packets` over blocks returns exactly when
it does over bytes, with the same code and the viewed parser (`returns_view`).
-/

namespace Libmc

variable {τ τ' α β γ δ : Type}

def RetrievalResult.map (t : τ → τ') (kv : RetrievalResult τ) : RetrievalResult τ' where
  key := t kv.key
  dataBlock := t kv.dataBlock
  casUnique := kv.casUnique
  bytesRemain := kv.bytesRemain
  bytes := kv.bytes
  flags := kv.flags
  keyLen := kv.keyLen

def LineResult.map (t : τ → τ') (inner : LineResult τ) : LineResult τ' where
  line := t inner.line
  lineLen := inner.lineLen

namespace PacketParser

/-- The parser over blocks. -/
abbrev Blocks := PacketParser BufferReader TokenData

/-- The parser over bytes. -/
abbrev Flat := PacketParser Bytes Bytes

def token (p : Blocks) : TokenData → Bytes := tokenBytes p.bufferReader.dataBlockList

/-- The parser over blocks, without the blocks. -/
def view (p : Blocks) : Flat where
  requestKeys := p.requestKeys
  bufferReader := p.bufferReader.unread
  state := p.state
  mode := p.mode
  requestKeyIdx := p.requestKeyIdx
  retrievalResults := p.retrievalResults.map (·.map p.token)
  messageResults := p.messageResults
  lineResults := p.lineResults.map (·.map p.token)
  unsignedResults := p.unsignedResults
  outOfRange := p.outOfRange

/-- The tokens of a result lie in the blocks. -/
def ValidResult (bl : List DataBlock) (kv : RetrievalResult TokenData) : Prop :=
  ValidToken bl kv.key ∧ ValidToken bl kv.dataBlock

/-- The reader keeps its invariant and every token lies in the blocks. -/
structure Ok (p : Blocks) : Prop where
  wf : p.bufferReader.Wf
  results : ∀ kv ∈ p.retrievalResults, ValidResult p.bufferReader.dataBlockList kv
  lines : ∀ inner ∈ p.lineResults, ValidToken p.bufferReader.dataBlockList inner.line

variable {p : Blocks} {r' : BufferReader}

/-! ### Changing the reader -/

theorem map_retrieval_congr {t t' : TokenData → Bytes} {kvs : List (RetrievalResult TokenData)}
    (h : ∀ kv ∈ kvs, t kv.key = t' kv.key ∧ t kv.dataBlock = t' kv.dataBlock) :
    kvs.map (·.map t) = kvs.map (·.map t') := by
  refine List.map_congr_left fun kv hkv => ?_
  obtain ⟨h1, h2⟩ := h kv hkv
  simp only [RetrievalResult.map, h1, h2]

theorem map_line_congr {t t' : TokenData → Bytes} {ls : List (LineResult TokenData)}
    (h : ∀ inner ∈ ls, t inner.line = t' inner.line) : ls.map (·.map t) = ls.map (·.map t') := by
  refine List.map_congr_left fun inner hin => ?_
  simp only [LineResult.map, h inner hin]

theorem Ok.reads (h : p.Ok) (hr : BufferReader.Reads p.bufferReader r') :
    Ok { p with bufferReader := r' } where
  wf := hr.wf
  results kv hkv := (h.results kv hkv).imp (·.congr hr.datas_eq.symm) (·.congr hr.datas_eq.symm)
  lines inner hin := (h.lines inner hin).congr hr.datas_eq.symm

theorem view_reads (hr : BufferReader.Reads p.bufferReader r') :
    view { p with bufferReader := r' } = { p.view with bufferReader := r'.unread } := by
  have ht : token { p with bufferReader := r' } = p.token := by
    funext td
    exact tokenBytes_congr hr.datas_eq td
  simp only [view, ht]

theorem Ok.writes (h : p.Ok) {bs : Bytes} (hw : BufferReader.Writes p.bufferReader bs r') :
    Ok { p with bufferReader := r' } where
  wf := hw.wf
  results kv hkv := (h.results kv hkv).imp hw.keeps.validToken hw.keeps.validToken
  lines inner hin := hw.keeps.validToken (h.lines inner hin)

theorem view_writes (h : p.Ok) {bs : Bytes} (hw : BufferReader.Writes p.bufferReader bs r') :
    view { p with bufferReader := r' } =
      { p.view with bufferReader := p.view.bufferReader ++ bs } := by
  have ht : ∀ td, ValidToken p.bufferReader.dataBlockList td →
      token { p with bufferReader := r' } td = p.token td := fun td hv =>
    hw.keeps.tokenBytes_eq hv
  have h1 : p.retrievalResults.map (·.map (token { p with bufferReader := r' })) =
      p.retrievalResults.map (·.map p.token) :=
    map_retrieval_congr fun kv hkv => (h.results kv hkv).imp (ht _) (ht _)
  have h2 : p.lineResults.map (·.map (token { p with bufferReader := r' })) =
      p.lineResults.map (·.map p.token) := map_line_congr fun inner hin => ht _ (h.lines inner hin)
  simp only [view, h1, h2, hw.unread_eq]

/-! ### Computations that agree along the view -/

/-- The outcomes agree: the same code, the parser and its view, and related values. -/
def Agrees (R : Blocks → α → β → Prop) :
    Except ErrCode α × Blocks → Except ErrCode β × Flat → Prop
  | (.ok a, q), (.ok b, v) => q.Ok ∧ v = q.view ∧ R q a b
  | (.error e, q), (.error e', v) => q.Ok ∧ v = q.view ∧ e = e'
  | _, _ => False

/-- The computations agree when started in `p`. -/
def SimAt (p : Blocks) (m : ParseM BufferReader TokenData α) (m' : ParseM Bytes Bytes β)
    (R : Blocks → α → β → Prop) : Prop := Agrees R (m p) (m' p.view)

/-- The token denotes the bytes. -/
def Denotes (q : Blocks) (td : TokenData) (bs : Bytes) : Prop :=
  ValidToken q.bufferReader.dataBlockList td ∧ bs = q.token td

variable {m : ParseM BufferReader TokenData α} {m' : ParseM Bytes Bytes β}
  {f : α → ParseM BufferReader TokenData γ} {f' : β → ParseM Bytes Bytes δ}
  {R : Blocks → α → β → Prop} {S : Blocks → γ → δ → Prop}

theorem SimAt.bind (h : SimAt p m m' R)
    (hf : ∀ q a b, q.Ok → R q a b → SimAt q (f a) (f' b) S) : SimAt p (m >>= f) (m' >>= f') S := by
  unfold SimAt at h ⊢
  rcases hm : m p with ⟨a | a, q⟩ <;> rcases hm' : m' p.view with ⟨b | b, v⟩ <;> rw [hm, hm'] at h
  · obtain ⟨hq, rfl, rfl⟩ := h
    rw [ParseM.bind_error hm, ParseM.bind_error hm']
    exact ⟨hq, rfl, rfl⟩
  · exact h.elim
  · exact h.elim
  · obtain ⟨hq, rfl, hR⟩ := h
    rw [ParseM.bind_ok hm, ParseM.bind_ok hm']
    exact hf q a b hq hR

theorem SimAt.ite {c : Prop} [Decidable c] {k : ParseM BufferReader TokenData α}
    {k' : ParseM Bytes Bytes β} (ht : SimAt p m m' R) (hf : SimAt p k k' R) :
    SimAt p (if c then m else k) (if c then m' else k') R := by
  split_ifs
  · exact ht
  · exact hf

/-- Only the parser matters. -/
abbrev Any (_ : Blocks) (_ : α) (_ : β) : Prop := True

theorem sim_pure (h : p.Ok) (a : α) (b : β) : SimAt p (pure a) (pure b) Any := ⟨h, rfl, trivial⟩

theorem sim_stop (h : p.Ok) (e : ErrCode) : SimAt p (ParseM.stop e : ParseM _ _ α)
    (ParseM.stop e : ParseM _ _ β) R := ⟨h, rfl, rfl⟩

/-- An assignment that the view follows. -/
structure Follows (p : Blocks) (g : Blocks → Blocks) (g' : Flat → Flat) : Prop where
  ok : (g p).Ok
  view_eq : (g p).view = g' p.view

theorem Follows.sim {g : Blocks → Blocks} {g' : Flat → Flat} (h : Follows p g g') :
    SimAt p (ParseM.assign g) (ParseM.assign g') Any := ⟨h.ok, h.view_eq.symm, trivial⟩

theorem sim_check (h : p.Ok) (e : ErrCode) {a : α} {b : β} (hr : BufferReader.Reads p.bufferReader r')
    (hR : R { p with bufferReader := r' } a b) :
    Agrees R (check e a, { p with bufferReader := r' })
      (check e b, { p.view with bufferReader := r'.unread }) := by
  rw [← view_reads hr]
  unfold check
  split_ifs
  · exact ⟨h.reads hr, rfl, hR⟩
  · exact ⟨h.reads hr, rfl, rfl⟩

theorem sim_peek (h : p.Ok) (offset : ℕ) :
    SimAt p (peek offset) (peek offset) fun _ a b => a = b := by
  have hp := BufferReader.peek_unread h.wf offset
  have := sim_check (R := fun _ a b => a = b) (a := (BufferReader.peek p.bufferReader offset).2)
    h (BufferReader.peek p.bufferReader offset).1 h.wf.reads_refl rfl
  unfold SimAt peek
  show Agrees _ (check (BufferReader.peek p.bufferReader offset).1 _, p)
    (check (ByteQueue.peek p.bufferReader.unread offset).1
      (ByteQueue.peek p.bufferReader.unread offset).2, p.view)
  rw [← hp]
  exact this

theorem sim_readUntil (h : p.Ok) (v : UInt8) :
    SimAt p (readUntil v) (readUntil v) fun q a b => a.1 = b.1 ∧ Denotes q a.2 b.2 := by
  obtain ⟨e, n, td, r', h1, h2, hr, hv⟩ := BufferReader.readUntil_unread h.wf v
  have hd : Denotes { p with bufferReader := r' } td (p.token td) :=
    ⟨hv.congr hr.datas_eq.symm, (tokenBytes_congr hr.datas_eq td).symm⟩
  unfold SimAt readUntil
  simp only [ByteReader.readUntil]
  rw [show p.view.bufferReader = p.bufferReader.unread from rfl, h1, h2]
  exact sim_check h e hr ⟨rfl, hd⟩

theorem sim_readBytes (h : p.Ok) (len : ℕ) :
    SimAt p (readBytes len) (readBytes len) fun q a b => Denotes q a b := by
  obtain ⟨e, td, r', h1, h2, hr, hv⟩ := BufferReader.readBytes_unread h.wf len
  have hd : Denotes { p with bufferReader := r' } td (p.token td) :=
    ⟨hv.congr hr.datas_eq.symm, (tokenBytes_congr hr.datas_eq td).symm⟩
  unfold SimAt readBytes
  simp only [ByteReader.readBytes]
  rw [show p.view.bufferReader = p.bufferReader.unread from rfl, h1, h2]
  exact sim_check h e hr hd

theorem sim_skipUntil (h : p.Ok) (v : UInt8) : SimAt p (skipUntil v) (skipUntil v) Any := by
  obtain ⟨e, n, r', h1, h2, hr⟩ := BufferReader.skipUntil_unread h.wf v
  unfold SimAt skipUntil
  simp only [ByteReader.skipUntil]
  rw [show p.view.bufferReader = p.bufferReader.unread from rfl, h1, h2]
  exact sim_check h e hr trivial

theorem sim_readUnsigned (h : p.Ok) :
    SimAt p readUnsigned readUnsigned fun _ a b => a = b := by
  obtain ⟨e, n, r', h1, h2, hr⟩ := BufferReader.readUnsigned_unread h.wf
  unfold SimAt readUnsigned
  simp only [ByteReader.readUnsigned]
  rw [show p.view.bufferReader = p.bufferReader.unread from rfl, h1, h2]
  exact sim_check h e hr rfl

theorem sim_skipBytes (h : p.Ok) (len : ℕ) : SimAt p (skipBytes len) (skipBytes len) Any := by
  obtain ⟨e, r', h1, h2, hr⟩ := BufferReader.skipBytes_unread h.wf len
  unfold SimAt skipBytes
  simp only [ByteReader.skipBytes]
  rw [show p.view.bufferReader = p.bufferReader.unread from rfl, h1, h2]
  exact sim_check h e hr trivial

/-! ### Assignments -/

theorem map_modifyLast {g : α → β} {k : α → α} {k' : β → β} (h : ∀ a, g (k a) = k' (g a))
    (l : List α) : (l.modifyLast k).map g = (l.map g).modifyLast k' := by
  rcases List.eq_nil_or_concat' l with rfl | ⟨l, a, rfl⟩
  · rfl
  · rw [List.modifyLast_concat, List.map_append, List.map_append]
    simp only [List.map_cons, List.map_nil]
    rw [List.modifyLast_concat, h]

theorem forall_mem_modifyLast {P : α → Prop} {k : α → α} {l : List α} (h : ∀ a ∈ l, P a)
    (hk : ∀ a ∈ l, P (k a)) : ∀ a ∈ l.modifyLast k, P a := by
  rcases List.eq_nil_or_concat' l with rfl | ⟨l, b, rfl⟩
  · exact h
  · rw [List.modifyLast_concat]
    intro a ha
    rcases List.mem_append.1 ha with ha | ha
    · exact h a (List.mem_append_left _ ha)
    · obtain rfl := List.mem_singleton.1 ha
      exact hk b (by simp)

theorem follows_setState (h : p.Ok) (st : ParserState) : Follows p (setState st) (setState st) :=
  ⟨⟨h.wf, h.results, h.lines⟩, rfl⟩

theorem follows_modifyKv (h : p.Ok) {k : RetrievalResult TokenData → RetrievalResult TokenData}
    {k' : RetrievalResult Bytes → RetrievalResult Bytes}
    (hok : ∀ kv, ValidResult p.bufferReader.dataBlockList kv →
      ValidResult p.bufferReader.dataBlockList (k kv))
    (hmap : ∀ kv, (k kv).map p.token = k' (kv.map p.token)) :
    Follows p (modifyKv k) (modifyKv k') where
  ok := ⟨h.wf, forall_mem_modifyLast h.results fun kv hkv => hok kv (h.results kv hkv), h.lines⟩
  view_eq := by
    have := map_modifyLast hmap p.retrievalResults
    simp only [view, modifyKv, token] at this ⊢
    rw [this]

theorem denotes_noToken (p : Blocks) :
    Denotes p (ByteReader.noToken BufferReader) (ByteReader.noToken Bytes) := ⟨validToken_nil, rfl⟩

theorem follows_key (h : p.Ok) {td : TokenData} {bs : Bytes} (hd : Denotes p td bs) (n : ℕ) :
    Follows p (modifyKv fun kv => { kv with key := td, keyLen := n })
      (modifyKv fun kv => { kv with key := bs, keyLen := n }) :=
  follows_modifyKv h (fun _ hkv => ⟨hd.1, hkv.2⟩) fun kv => by simp only [RetrievalResult.map, hd.2]

theorem follows_dataBlock (h : p.Ok) {td : TokenData} {bs : Bytes} (hd : Denotes p td bs) :
    Follows p (modifyKv fun kv => { kv with dataBlock := td })
      (modifyKv fun kv => { kv with dataBlock := bs }) :=
  follows_modifyKv h (fun _ hkv => ⟨hkv.1, hd.1⟩) fun kv => by simp only [RetrievalResult.map, hd.2]

theorem follows_casUnique (h : p.Ok) (n : ℕ) :
    Follows p (modifyKv fun kv => { kv with casUnique := n })
      (modifyKv fun kv => { kv with casUnique := n }) :=
  follows_modifyKv h (fun _ hkv => hkv) fun _ => rfl

theorem follows_bytesRemain (h : p.Ok) (g : ℕ → ℕ) :
    Follows p (modifyKv fun kv => { kv with bytesRemain := g kv.bytesRemain })
      (modifyKv fun kv => { kv with bytesRemain := g kv.bytesRemain }) :=
  follows_modifyKv h (fun _ hkv => hkv) fun _ => rfl

theorem follows_modifyLine (h : p.Ok) {k : LineResult TokenData → LineResult TokenData}
    {k' : LineResult Bytes → LineResult Bytes}
    (hok : ∀ inner, ValidToken p.bufferReader.dataBlockList (k inner).line)
    (hmap : ∀ inner, (k inner).map p.token = k' (inner.map p.token)) :
    Follows p (modifyLine k) (modifyLine k') where
  ok := ⟨h.wf, h.results, forall_mem_modifyLast h.lines fun inner _ => hok inner⟩
  view_eq := by
    have := map_modifyLast hmap p.lineResults
    simp only [view, modifyLine, token] at this ⊢
    rw [this]

theorem follows_modifyUnsigned (h : p.Ok) (k : UnsignedResult → UnsignedResult) :
    Follows p (modifyUnsigned k) (modifyUnsigned k) := ⟨⟨h.wf, h.results, h.lines⟩, rfl⟩

theorem follows_pushRetrieval (h : p.Ok) : Follows p pushRetrieval pushRetrieval where
  ok := ⟨h.wf, by
    intro kv hkv
    rcases List.mem_append.1 hkv with hkv | hkv
    · exact h.results kv hkv
    · obtain rfl := List.mem_singleton.1 hkv
      exact ⟨validToken_nil, validToken_nil⟩, h.lines⟩
  view_eq := by
    simp only [view, pushRetrieval, List.map_append]
    rfl

theorem follows_pushLine (h : p.Ok) : Follows p pushLine pushLine where
  ok := ⟨h.wf, h.results, by
    intro inner hin
    rcases List.mem_append.1 hin with hin | hin
    · exact h.lines inner hin
    · obtain rfl := List.mem_singleton.1 hin
      exact validToken_nil⟩
  view_eq := by
    simp only [view, pushLine, List.map_append]
    rfl

theorem follows_pushUnsigned (h : p.Ok) : Follows p pushUnsigned pushUnsigned :=
  ⟨⟨h.wf, h.results, h.lines⟩, rfl⟩

theorem follows_processMessageResult (h : p.Ok) (tp : MessageResultType) :
    Follows p (processMessageResult tp) (processMessageResult tp) := by
  by_cases htp : tp = .ok
  · subst htp
    exact ⟨⟨h.wf, h.results, h.lines⟩, rfl⟩
  · refine ⟨?_, ?_⟩
    · simp only [processMessageResult, htp, if_false]
      exact ⟨h.wf, h.results, h.lines⟩
    · simp only [processMessageResult, htp, if_false]
      rfl

theorem reads_nextPrefered (h : p.Ok) (n : ℕ) :
    BufferReader.Reads p.bufferReader (p.bufferReader.setNextPreferedDataBlockSize n) :=
  ⟨⟨h.wf.readLeft_eq, h.wf.cursor, h.wf.dense, h.wf.write_le, h.wf.write_last, h.wf.size_le,
    h.wf.capacity_pos⟩, rfl⟩

theorem view_kv (p : Blocks) : p.view.kv = p.kv.map p.token := by
  unfold kv view
  simp only [List.getLast?_map]
  rcases p.retrievalResults.getLast? with _ | kv <;> rfl

theorem follows_wishForBlock (h : p.Ok) : Follows p wishForBlock wishForBlock := by
  have hview : wishForBlock p.view = p.view := by
    unfold wishForBlock
    simp only
    split_ifs <;> rfl
  refine ⟨?_, ?_⟩
  · unfold wishForBlock
    simp only
    split_ifs
    · exact h.reads (reads_nextPrefered h _)
    · exact h
  · rw [hview]
    unfold wishForBlock
    simp only
    split_ifs
    · exact view_reads (reads_nextPrefered h _)
    · rfl

theorem follows_freeTokenData (h : p.Ok) (td : TokenData) (bs : Bytes) :
    Follows p (fun q => { q with bufferReader := ByteReader.freeTokenData q.bufferReader td })
      (fun q => { q with bufferReader := ByteReader.freeTokenData q.bufferReader bs }) := by
  have hr := h.wf.reads (BufferReader.map_data_capacity_freeTokenData _ td) h.wf.cursor
    h.wf.readLeft_eq
  refine ⟨h.reads hr, (view_reads hr).trans ?_⟩
  rw [BufferReader.unread_of_reads hr rfl]
  rfl

/-! ### The states -/

theorem sim_processLineResult (h : p.Ok) : SimAt p processLineResult processLineResult Any := by
  refine (follows_modifyLine h (fun _ => validToken_nil) fun _ => rfl).sim.bind fun q _ _ hq _ => ?_
  refine (sim_readUntil hq lf).bind fun q a b hq hab => ?_
  obtain ⟨hn, hv, htok⟩ := hab
  refine (follows_modifyLine hq (fun _ => hv) fun inner => ?_).sim.bind fun q _ _ hq _ =>
    sim_skipBytes hq 1
  simp only [LineResult.map, hn, htok]

theorem sim_errorLine (h : p.Ok) (e : ErrCode) : SimAt p (errorLine e) (errorLine e) Any := by
  refine (sim_readUntil h lf).bind fun q a b hq _ => ?_
  refine (sim_skipBytes hq 1).bind fun q _ _ hq _ => ?_
  refine (follows_freeTokenData hq a.2 b.2).sim.bind fun q _ _ hq _ => ?_
  exact (follows_setState hq .error).sim.bind fun q _ _ hq _ => sim_stop hq e

theorem sim_message (h : p.Ok) (len : ℕ) (tp : MessageResultType) :
    SimAt p (message len tp) (message len tp) Any :=
  (sim_skipBytes h len).bind fun _ _ _ hq _ => (follows_processMessageResult hq tp).sim

theorem sim_skip_push {g : Blocks → Blocks} {g' : Flat → Flat} (h : p.Ok) (len : ℕ)
    (hg : ∀ q : Blocks, q.Ok → Follows q g g') (st : ParserState) :
    SimAt p (do skipBytes len; ParseM.assign g; ParseM.assign (setState st))
      (do skipBytes len; ParseM.assign g'; ParseM.assign (setState st)) Any :=
  (sim_skipBytes h len).bind fun q _ _ hq _ => (hg q hq).sim.bind fun _ _ _ hq _ =>
    (follows_setState hq st).sim

theorem sim_startV (h : p.Ok) : SimAt p startV startV Any := by
  refine (sim_peek h 1).bind fun p c2 _ h hc => ?_
  subst hc
  exact .ite (sim_skip_push h 6 (fun _ => follows_pushRetrieval) _) <|
    .ite (sim_skip_push h 8 (fun _ => follows_pushLine) _) (sim_pure h _ _)

theorem sim_startE (h : p.Ok) : SimAt p startE startE Any := by
  refine (sim_peek h 1).bind fun p c2 _ h hc => ?_
  subst hc
  refine .ite (sim_errorLine h _) <| .ite ?_ <| .ite (sim_message h 8 _) (sim_pure h _ _)
  exact (sim_skipBytes h 5).bind fun _ _ _ hq _ => (follows_setState hq .end_).sim

theorem sim_startS (h : p.Ok) : SimAt p startS startS Any := by
  refine (sim_peek h 2).bind fun p c3 _ h hc => ?_
  subst hc
  refine (sim_peek h 1).bind fun p c2 _ h hc => ?_
  subst hc
  refine .ite (.ite (sim_message h 8 _) ?_) (sim_errorLine h _)
  exact sim_skip_push h 5 (fun _ => follows_pushLine) _

theorem sim_startN (h : p.Ok) : SimAt p startN startN Any := by
  refine (sim_peek h 4).bind fun p c5 _ h hc => ?_
  subst hc
  exact .ite (sim_message h 11 _) <| .ite (sim_message h 12 _) (sim_pure h _ _)

theorem sim_startState (h : p.Ok) : SimAt p startState startState Any := by
  refine (sim_peek h 0).bind fun p c1 _ h hc => ?_
  subst hc
  refine .ite (sim_startV h) <| .ite (sim_startE h) <| .ite ?_ <| .ite (sim_startS h) <|
    .ite (sim_message h 9 _) <| .ite (sim_startN h) <| .ite (sim_message h 9 _) <|
    .ite (sim_errorLine h _) <| .ite ?_ (sim_stop h _)
  · exact (sim_message h 4 .ok).bind fun _ _ _ hq _ => (follows_setState hq .end_).sim
  · exact (follows_pushUnsigned h).sim.bind fun _ _ _ hq _ => (follows_setState hq _).sim

theorem sim_getStart (h : p.Ok) : SimAt p getStart getStart Any := by
  refine (follows_key h (denotes_noToken p) 0).sim.bind fun q _ _ hq _ => ?_
  refine (sim_readUntil hq space).bind fun q a b hq hab => ?_
  obtain ⟨n, td⟩ := a
  obtain ⟨n', bs⟩ := b
  obtain ⟨rfl, hd⟩ := hab
  exact (follows_key hq hd _).sim.bind fun _ _ _ hq _ =>
    (sim_skipBytes hq 1).bind fun _ _ _ hq _ => (follows_setState hq _).sim

theorem sim_number {k : ℕ → RetrievalResult TokenData → RetrievalResult TokenData}
    {k' : ℕ → RetrievalResult Bytes → RetrievalResult Bytes} (h : p.Ok) (st : ParserState)
    (hok : ∀ n kv, (k n kv).key = kv.key ∧ (k n kv).dataBlock = kv.dataBlock)
    (hmap : ∀ n kv t, (k n kv).map t = k' n (kv.map t)) :
    SimAt p
      (do let n ← readUnsigned; ParseM.assign (modifyKv (k n)); skipBytes 1
          ParseM.assign (setState st))
      (do let n ← readUnsigned; ParseM.assign (modifyKv (k' n)); skipBytes 1
          ParseM.assign (setState st)) Any := by
  refine (sim_readUnsigned h).bind fun q n _ hq hn => ?_
  subst hn
  refine (follows_modifyKv hq (fun kv hkv => ?_) fun kv => hmap n kv _).sim.bind fun q _ _ hq _ =>
    (sim_skipBytes hq 1).bind fun _ _ _ hq _ => (follows_setState hq _).sim
  unfold ValidResult
  rw [(hok n kv).1, (hok n kv).2]
  exact hkv

theorem sim_getKey (h : p.Ok) : SimAt p getKey getKey Any :=
  sim_number h .getFlags (fun _ _ => ⟨rfl, rfl⟩) fun _ _ _ => rfl

theorem sim_getFlags (h : p.Ok) : SimAt p getFlags getFlags Any :=
  sim_number h .getBytes (fun _ _ => ⟨rfl, rfl⟩) fun _ _ _ => rfl

theorem sim_readCasUnique (h : p.Ok) : SimAt p readCasUnique readCasUnique Any := by
  refine (sim_peek h 0).bind fun p c _ h hc => ?_
  subst hc
  refine .ite (follows_casUnique h 0).sim ?_
  refine (follows_casUnique h 0).sim.bind fun q _ _ hq _ => ?_
  refine (sim_readUnsigned hq).bind fun q n _ hq hn => ?_
  subst hn
  exact (follows_casUnique hq n).sim.bind fun _ _ _ hq _ => sim_skipBytes hq 1

theorem sim_getBytes (h : p.Ok) : SimAt p getBytes getBytes Any :=
  (sim_readCasUnique h).bind fun _ _ _ hq _ => (follows_setState hq _).sim

theorem sim_getCas (h : p.Ok) : SimAt p getCas getCas Any :=
  (sim_skipBytes h 1).bind fun _ _ _ hq _ =>
    (follows_bytesRemain hq fun n => (n + (2 ^ 32 - 1)) % 2 ^ 32).sim.bind fun _ _ _ hq _ =>
      (follows_setState hq _).sim

theorem sim_readDataBlock (h : p.Ok) : SimAt p readDataBlock readDataBlock Any := by
  have hremain : p.view.kv.bytesRemain = p.kv.bytesRemain := by rw [view_kv]; rfl
  unfold SimAt readDataBlock
  rw [hremain]
  split_ifs
  · refine (follows_dataBlock h (denotes_noToken p)).sim.bind
      fun q _ _ hq _ => (follows_wishForBlock hq).sim.bind fun q _ _ hq _ => ?_
    have hbytes : p.view.kv.bytes = p.kv.bytes := by rw [view_kv]; rfl
    rw [hbytes]
    refine (sim_readBytes hq p.kv.bytes).bind fun q td bs hq hd => ?_
    have hdone : Follows q (modifyKv fun kv => { kv with dataBlock := td, bytesRemain := 0 })
        (modifyKv fun kv => { kv with dataBlock := bs, bytesRemain := 0 }) :=
      follows_modifyKv hq (fun _ hkv => ⟨hkv.1, hd.1⟩) fun kv => by
        simp only [RetrievalResult.map, hd.2]
    exact hdone.sim
  · exact ⟨h, rfl, trivial⟩

theorem sim_getValueRemaining (h : p.Ok) : SimAt p getValueRemaining getValueRemaining Any :=
  (sim_readDataBlock h).bind fun _ _ _ hq _ => (sim_skipBytes hq 2).bind fun _ _ _ hq _ =>
    (follows_setState hq _).sim

theorem sim_incrDecrStart (h : p.Ok) : SimAt p incrDecrStart incrDecrStart Any := by
  refine (follows_modifyUnsigned h _).sim.bind fun q _ _ hq _ => ?_
  refine (sim_readUnsigned hq).bind fun q n _ hq hn => ?_
  subst hn
  refine (follows_modifyUnsigned hq _).sim.bind fun _ _ _ hq _ => (sim_skipBytes hq 1).bind
    fun q _ _ hq _ => ?_
  have hkey : Follows q
      (fun p => { modifyUnsigned (fun inner => { inner with key := some p.requestKey }) p with
        outOfRange := p.outOfRange || p.pastKeys })
      (fun p => { modifyUnsigned (fun inner => { inner with key := some p.requestKey }) p with
        outOfRange := p.outOfRange || p.pastKeys }) := ⟨⟨hq.wf, hq.results, hq.lines⟩, rfl⟩
  exact hkey.sim.bind fun _ _ _ hq _ => (follows_setState hq _).sim

theorem sim_incrDecrRemaining (h : p.Ok) : SimAt p incrDecrRemaining incrDecrRemaining Any := by
  refine (sim_skipUntil h lf).bind fun _ _ _ hq _ => (sim_skipBytes hq 1).bind
    fun q _ _ hq _ => ?_
  have hidx : Follows q (fun p => { p with requestKeyIdx := p.requestKeyIdx + 1 })
      (fun p => { p with requestKeyIdx := p.requestKeyIdx + 1 }) :=
    ⟨⟨hq.wf, hq.results, hq.lines⟩, rfl⟩
  exact hidx.sim.bind fun _ _ _ hq _ => (follows_setState hq _).sim

theorem sim_line (h : p.Ok) (st : ParserState) :
    SimAt p (do processLineResult; ParseM.assign (setState st))
      (do processLineResult; ParseM.assign (setState st)) Any :=
  (sim_processLineResult h).bind fun _ _ _ hq _ => (follows_setState hq st).sim

/-- Every state does to the view what it does to the parser. -/
theorem sim_stateAction (h : p.Ok) (st : ParserState) :
    SimAt p (stateAction st) (stateAction st) Any := by
  cases st with
  | start => exact sim_startState h
  | end_ => exact sim_pure h _ _
  | error => exact sim_pure h _ _
  | getStart => exact sim_getStart h
  | getKey => exact sim_getKey h
  | getFlags => exact sim_getFlags h
  | getBytes => exact sim_getBytes h
  | getCas => exact sim_getCas h
  | getValueRemaining => exact sim_getValueRemaining h
  | verStart => exact sim_line h .end_
  | statStart => exact sim_line h .start
  | incrDecrStart => exact sim_incrDecrStart h
  | incrDecrRemaining => exact sim_incrDecrRemaining h

/-! ### The loop -/

theorem view_enter (p : Blocks) : p.enter.view = p.view.enter := by
  unfold enter
  rw [show p.view.state = p.state from rfl]
  split_ifs <;> rfl

theorem Ok.enter (h : p.Ok) : p.enter.Ok := by
  unfold PacketParser.enter
  split_ifs
  · exact (follows_setState h .start).ok
  · exact h

/-- One round of the loop, seen through the view. -/
theorem body_view (h : p.Ok) :
    body p.view = Sum.map view (Prod.map id view) (body p) ∧
      (∀ q, body p = .inl q → q.Ok) ∧ ∀ e q, body p = .inr (e, q) → q.Ok := by
  have hend : p.view.canEndParse = p.canEndParse := rfl
  have hs := sim_stateAction h p.state
  unfold body
  rw [hend, show p.view.state = p.state from rfl]
  split_ifs
  · refine ⟨rfl, (fun q hq => by cases hq), fun e q hq => ?_⟩
    obtain ⟨rfl, rfl⟩ := Prod.mk.inj (Sum.inr.inj hq)
    exact h
  · rcases hm : stateAction p.state p with ⟨e | _, q⟩ <;>
      rcases hm' : stateAction p.state p.view with ⟨e' | _, v⟩ <;>
      rw [SimAt, hm, hm'] at hs
    · obtain ⟨hq, rfl, rfl⟩ := hs
      refine ⟨rfl, (fun q hq => by cases hq), fun e' q' hq' => ?_⟩
      obtain ⟨rfl, rfl⟩ := Prod.mk.inj (Sum.inr.inj hq')
      exact hq
    · exact hs.elim
    · exact hs.elim
    · obtain ⟨hq, rfl, -⟩ := hs
      refine ⟨rfl, fun q' hq' => ?_, fun e q hq => by cases hq⟩
      obtain rfl := Sum.inl.inj hq'
      exact hq

theorem run_view (h : p.Ok) (n : ℕ) :
    Loop.run body n p.view = (Loop.run body n p).map (Prod.map id view) :=
  Loop.run_map (I := Ok) (fun _ q hp hq => (body_view hp).2.1 q hq) (fun _ hp => (body_view hp).1) h

theorem Ok.run (h : p.Ok) {n : ℕ} {e : ErrCode} {q : Blocks} (hr : Loop.run body n p = some (e, q)) :
    q.Ok :=
  Loop.run_invariant (I := Ok) (J := fun r => r.2.Ok) (fun _ q hp hq => (body_view hp).2.1 q hq)
    (fun _ r hp hr => (body_view hp).2.2 r.1 r.2 hr) h hr

/-- **The parser over blocks returns what the parser over bytes returns.** -/
theorem returns_view (h : p.Ok) (r : ErrCode × Flat) :
    p.view.Returns r ↔ ∃ q, p.Returns (r.1, q) ∧ q.Ok ∧ q.view = r.2 := by
  unfold Returns Loop.Returns
  rw [← view_enter]
  constructor
  · rintro ⟨n, hn⟩
    rw [run_view h.enter] at hn
    obtain ⟨⟨e, q⟩, hq, rfl⟩ := Option.map_eq_some_iff.1 hn
    exact ⟨q, ⟨n, hq⟩, h.enter.run hq, rfl⟩
  · rintro ⟨q, ⟨n, hn⟩, -, hq⟩
    refine ⟨n, ?_⟩
    rw [run_view h.enter, hn, Option.map_some, Prod.map_apply, hq]
    rfl

end PacketParser

end Libmc
