import Libmc.ResultRounds

/-!
# The sizes of the results

`Sized` is the invariant of the results between two rounds: an item that is not in progress holds as
many bytes as its size says, and every length is that of its token, or for a key its last eight bits.
`Wrong` says that a result that is done with is not backed by its bytes. A round that goes on adds
exactly what it completes (`ResultRound.wrong_iff`), and one that leaves the loop must not break off
inside a line or inside the header line of the largest item (`ResultRound.backed_iff`).
-/

namespace Libmc

/-- The length that `LineResult::inner` reports: `line_len - 1` as a `size_t`. -/
def LineResult.innerLen {τ : Type} (inner : LineResult τ) : ℕ := (inner.lineLen + (2 ^ 64 - 1)) % 2 ^ 64

namespace PacketParser

variable {v v' : Flat} {q u t w : Bytes} {k : ℕ} {pl pl' : Place} {st st' : ParserState}
  {kv kv' : RetrievalResult Bytes}

/-- A result has as many bytes as it says, unless `collectRetrievalResult` skips it. -/
def ItemBacked {τ : Type} (size : τ → ℕ) (r1 : RetrievalResult τ) : Prop :=
  ¬ 0 < r1.bytesRemain → size r1.key = r1.keyLen ∧ size r1.dataBlock = r1.bytes

/-- Every length is backed by the slices of its token. -/
structure Backed {ρ τ : Type} (size : τ → ℕ) (p : PacketParser ρ τ) : Prop where
  items : ∀ r1 ∈ p.retrievalResults, ItemBacked size r1
  lines : ∀ inner ∈ p.lineResults, inner.innerLen ≤ size inner.line

/-! ## The results between two rounds -/

/-- What is known of an item in a state; where it is not in progress, it is finished. -/
def ItemAt : ParserState → RetrievalResult Bytes → Prop
  | .getStart, kv | .getKey, kv | .getFlags, kv => kv.bytesRemain = 1 ∧ kv.dataBlock = []
  | .getBytes, kv | .getCas, kv =>
    kv.bytes < 2 ^ 32 ∧ kv.bytesRemain = (kv.bytes + 1) % 2 ^ 32 ∧ kv.dataBlock = []
  | .getValueRemaining, kv =>
    kv.bytesRemain = kv.bytes ∧ kv.dataBlock = [] ∨
      kv.bytesRemain = 0 ∧ kv.dataBlock.length = kv.bytes
  | _, kv => kv.bytesRemain = 0 ∧ kv.dataBlock.length = kv.bytes

theorem ItemRound.itemAt (h : ItemRound q kv st st' kv') (hkv : ItemAt st kv) : ItemAt st' kv' := by
  cases h with
  | keyWaits | key | flagsWait | flags | bytesWait | casWaits | cas | lineEndWaits => exact hkv
  | bytes n => exact ⟨Nat.mod_lt _ (Nat.two_pow_pos 32), rfl, hkv.2⟩
  | lineEnd =>
    obtain ⟨hlt, hrem, hdata⟩ := hkv
    refine .inl ⟨?_, hdata⟩
    show (kv.bytesRemain + (2 ^ 32 - 1)) % 2 ^ 32 = kv.bytes
    omega
  | dataWaits hpos =>
    rcases hkv with h | h
    · exact .inl ⟨h.1, rfl⟩
    · omega
  | data st hpos hq hd hst =>
    rcases hst with rfl | rfl
    · exact .inr ⟨rfl, hd⟩
    · exact ⟨rfl, hd⟩
  | dataRead st hdone hst =>
    have hdata : kv.dataBlock.length = kv.bytes := by
      rcases hkv with h | h
      · rw [h.2, ← h.1, hdone]
        rfl
      · exact h.2
    rcases hst with rfl | rfl
    · exact .inr ⟨hdone, hdata⟩
    · exact ⟨hdone, hdata⟩

theorem ItemRound.keyLen (h : ItemRound q kv st st' kv') (hkv : kv.keyLen = kv.key.length % 2 ^ 8) :
    kv'.keyLen = kv'.key.length % 2 ^ 8 := by
  cases h <;> first | rfl | exact hkv

theorem ItemRound.usesKv (h : ItemRound q kv st st' kv') :
    usesKv st = true ∧ (usesKv st' = true ∨ st' = .start) := by
  cases h with
  | data st _ _ _ hst | dataRead st _ hst =>
    rcases hst with rfl | rfl
    · exact ⟨rfl, .inl rfl⟩
    · exact ⟨rfl, .inr rfl⟩
  | _ => exact ⟨rfl, .inl rfl⟩

theorem usesKv_of_readsLine (h : readsLine st = true) : usesKv st = false := by
  cases st <;> first | rfl | cases h

theorem readsLine_of_usesKv (h : usesKv st = true) : readsLine st = false := by
  cases st <;> first | rfl | cases h

theorem LineRound.lineLen {l : LineResult Bytes} (h : LineRound q st st' l) :
    l.lineLen = l.line.length := by
  cases h <;> rfl

theorem LineRound.usesKv {l : LineResult Bytes} (h : LineRound q st st' l)
    (hst : readsLine st = true) : usesKv st' = false := by
  cases h with
  | waits => exact usesKv_of_readsLine hst
  | read _ _ hst' => rcases hst' with rfl | rfl <;> rfl

/-- The items that are not in progress. -/
def settledItems (v : Flat) : List (RetrievalResult Bytes) :=
  if usesKv v.state then v.retrievalResults.dropLast else v.retrievalResults

/-- The lines that are not in progress. -/
def settledLines (v : Flat) : List (LineResult Bytes) :=
  if readsLine v.state then v.lineResults.dropLast else v.lineResults

theorem settledItems_of_not (h : usesKv v.state = false) : v.settledItems = v.retrievalResults :=
  if_neg (by rw [h]; nofun)

theorem settledItems_concat {kvs : List (RetrievalResult Bytes)} (h : usesKv v.state = true)
    (hr : v.retrievalResults = kvs ++ [kv]) : v.settledItems = kvs := by
  unfold settledItems
  rw [if_pos h, hr, List.dropLast_concat]

theorem settledLines_of_not (h : readsLine v.state = false) : v.settledLines = v.lineResults :=
  if_neg (by rw [h]; nofun)

theorem settledLines_concat {ls : List (LineResult Bytes)} {l : LineResult Bytes}
    (h : readsLine v.state = true) (hl : v.lineResults = ls ++ [l]) : v.settledLines = ls := by
  unfold settledLines
  rw [if_pos h, hl, List.dropLast_concat]

theorem kv_concat {kvs : List (RetrievalResult Bytes)} (hr : v.retrievalResults = kvs ++ [kv]) :
    v.kv = kv := by
  unfold PacketParser.kv
  rw [hr, List.getLast?_concat]
  rfl

theorem readsLine_not_end (h : readsLine st = true) : st.isEndState = false := by
  cases st <;> first | rfl | cases h

structure Sized (v : Flat) : Prop where
  result : v.HasResult
  line : v.HasLine
  keyLen : ∀ kv ∈ v.retrievalResults, kv.keyLen = kv.key.length % 2 ^ 8
  lineLen : ∀ l ∈ v.lineResults, l.lineLen = l.line.length
  settled : ∀ kv ∈ v.settledItems, kv.bytesRemain = 0 ∧ kv.dataBlock.length = kv.bytes
  current : usesKv v.state = true → ItemAt v.state v.kv

theorem forall_mem_concat {α : Type} {P : α → Prop} {l : List α} {a : α} :
    (∀ x ∈ l ++ [a], P x) ↔ (∀ x ∈ l, P x) ∧ P a := by
  rw [List.forall_mem_append, List.forall_mem_singleton]

theorem ResultRound.sized (h : ResultRound v v') (hs : v.Sized) : v'.Sized := by
  cases h with
  | idle hst hst' hr hl =>
    have hsettled := hs.settled
    rw [settledItems_of_not hst.1, ← hr] at hsettled
    refine ⟨.of_not hst'.1, fun hc => ?_, hr ▸ hs.keyLen, hl ▸ hs.lineLen, ?_, fun hc => ?_⟩
    · rw [hst'.2] at hc
      cases hc
    · rwa [settledItems_of_not hst'.1]
    · rw [hst'.1] at hc
      cases hc
  | opensItem hst hst' hr hl =>
    have hsettled := hs.settled
    rw [settledItems_of_not hst.1] at hsettled
    have huses : usesKv v'.state = true := hst' ▸ rfl
    refine ⟨fun _ => by simp [hr], fun hc => ?_, ?_, hl ▸ hs.lineLen, ?_, fun _ => ?_⟩
    · rw [readsLine_of_usesKv huses] at hc
      cases hc
    · rw [hr]
      exact forall_mem_concat.2 ⟨hs.keyLen, rfl⟩
    · rwa [settledItems_concat huses hr]
    · rw [kv_concat hr, hst']
      exact ⟨rfl, rfl⟩
  | opensLine hst hst' hr hl =>
    have hsettled := hs.settled
    rw [settledItems_of_not hst.1, ← hr] at hsettled
    have huses := usesKv_of_readsLine hst'
    refine ⟨.of_not huses, fun _ => by simp [hl], hr ▸ hs.keyLen, ?_, ?_, fun hc => ?_⟩
    · rw [hl]
      exact forall_mem_concat.2 ⟨hs.lineLen, rfl⟩
    · rwa [settledItems_of_not huses]
    · rw [huses] at hc
      cases hc
  | @item kvs kv kv' hr hr' hl h =>
    obtain ⟨huses, hends⟩ := h.usesKv
    have hcur := hs.current huses
    rw [kv_concat hr] at hcur
    have hitem := h.itemAt hcur
    have hsettled := hs.settled
    rw [settledItems_concat huses hr] at hsettled
    have hkeyLen := hs.keyLen
    rw [hr] at hkeyLen
    obtain ⟨hkeys, hkey⟩ := forall_mem_concat.1 hkeyLen
    refine ⟨fun _ => by simp [hr'], fun hc => ?_, ?_, hl ▸ hs.lineLen, ?_, fun _ => ?_⟩
    · rcases hends with h' | h'
      · rw [readsLine_of_usesKv h'] at hc
        cases hc
      · rw [h'] at hc
        cases hc
    · rw [hr']
      exact forall_mem_concat.2 ⟨hkeys, h.keyLen hkey⟩
    · rcases hends with h' | h'
      · rwa [settledItems_concat h' hr']
      · rw [settledItems_of_not (h' ▸ rfl), hr']
        rw [h'] at hitem
        exact forall_mem_concat.2 ⟨hsettled, hitem⟩
    · rwa [kv_concat hr']
  | @line ls l l' hst hr hl hl' h =>
    have hsettled := hs.settled
    rw [settledItems_of_not (usesKv_of_readsLine hst), ← hr] at hsettled
    have huses := h.usesKv hst
    have hlines := hs.lineLen
    rw [hl] at hlines
    refine ⟨.of_not huses, fun _ => by simp [hl'], hr ▸ hs.keyLen, ?_, ?_, fun hc => ?_⟩
    · rw [hl']
      exact forall_mem_concat.2 ⟨(forall_mem_concat.1 hlines).1, h.lineLen⟩
    · rwa [settledItems_of_not huses]
    · rw [huses] at hc
      cases hc

/-! ## Results that are not backed -/

/-- An item that is not in progress has a long key, or a line that is not in progress is empty. -/
def Wrong (v : Flat) : Prop :=
  (∃ kv ∈ v.settledItems, 2 ^ 8 ≤ kv.key.length) ∨ ∃ l ∈ v.settledLines, l.line = []

/-- This round finishes an item with a long key, or an empty line. -/
def Completes (v : Flat) : Prop :=
  v.state = .getValueRemaining ∧ dataLeft v.kv ≤ v.bufferReader.length ∧ 2 ^ 8 ≤ v.kv.key.length ∨
    readsLine v.state = true ∧ ∃ t, v.bufferReader = lf :: t

theorem Idle.not_completes (h : Idle v.state) : ¬ v.Completes := by
  rintro (⟨hst, -⟩ | ⟨hst, -⟩)
  · rw [hst] at h
    cases h.1
  · rw [h.2] at hst
    cases hst

theorem exists_mem_concat {α : Type} {P : α → Prop} {l : List α} {a : α} :
    (∃ x ∈ l ++ [a], P x) ↔ (∃ x ∈ l, P x) ∨ P a := by
  simp only [List.mem_append, List.mem_singleton, or_and_right, exists_or, exists_eq_left]

theorem wrong_congr (hi : v'.settledItems = v.settledItems) (hl : v'.settledLines = v.settledLines) :
    v'.Wrong ↔ v.Wrong := by
  unfold Wrong
  rw [hi, hl]

theorem dataLeft_le_of_data {d : Bytes} (hpos : 0 < kv.bytesRemain) (hq : q = d ++ t)
    (hd : d.length = kv.bytes) : dataLeft kv ≤ q.length := by
  rw [dataLeft, if_pos hpos, ← hd, hq, List.length_append]
  exact Nat.le_add_right _ _

theorem dataLeft_le_of_done (hdone : kv.bytesRemain = 0) (q : Bytes) : dataLeft kv ≤ q.length := by
  rw [dataLeft, if_neg (by omega)]
  exact Nat.zero_le _

theorem ItemRound.finishes (h : ItemRound q kv .getValueRemaining st' kv')
    (hst' : st' ≠ .getValueRemaining) :
    st' = .start ∧ kv'.key = kv.key ∧ dataLeft kv ≤ q.length := by
  cases h with
  | dataWaits => exact absurd rfl hst'
  | data _ hpos hq hd hst =>
    exact ⟨hst.resolve_left hst', rfl, dataLeft_le_of_data hpos hq hd⟩
  | dataRead _ hdone hst =>
    exact ⟨hst.resolve_left hst', rfl, dataLeft_le_of_done hdone q⟩

theorem ItemRound.usesKv_of_header (h : ItemRound q kv st st' kv') (hst : st ≠ .getValueRemaining) :
    PacketParser.usesKv st' = true := by
  cases h <;> first | rfl | exact absurd rfl hst

theorem LineRound.finishes {l : LineResult Bytes} (h : LineRound q st st' l) (hst : st' ≠ st) :
    Idle st' ∧ (l.line = [] ↔ ∃ t, q = lf :: t) := by
  cases h with
  | waits => exact absurd rfl hst
  | @read u t _ hq hu hst' =>
    refine ⟨?_, ?_⟩
    · rcases hst' with rfl | rfl <;> exact ⟨rfl, rfl⟩
    · subst hq
      cases u with
      | nil => exact ⟨fun _ => ⟨t, rfl⟩, fun _ => rfl⟩
      | cons c u =>
        refine ⟨nofun, fun ⟨t', ht'⟩ => absurd ?_ hu⟩
        rw [(List.cons.inj ht').1]
        exact List.mem_cons_self

theorem wrong_iff_of_item {kvs : List (RetrievalResult Bytes)}
    (hr : v.retrievalResults = kvs ++ [kv]) (hr' : v'.retrievalResults = kvs ++ [kv'])
    (hl : v'.lineResults = v.lineResults) (h : ItemRound v.bufferReader kv v.state v'.state kv')
    (hst' : v'.state ≠ v.state) : v'.Wrong ↔ v.Wrong ∨ v.Completes := by
  obtain ⟨huses, hends⟩ := h.usesKv
  have hline := readsLine_of_usesKv huses
  have hline' : readsLine v'.state = false := hends.elim readsLine_of_usesKv fun h => h ▸ rfl
  have hlines : v'.settledLines = v.settledLines := by
    rw [settledLines_of_not hline, settledLines_of_not hline', hl]
  by_cases hdata : v.state = .getValueRemaining
  · rw [hdata] at h hst'
    obtain ⟨hstart, hkey, hleft⟩ := h.finishes hst'
    have hcompl : v.Completes ↔ 2 ^ 8 ≤ kv.key.length := by
      unfold Completes
      rw [kv_concat hr, hline]
      constructor
      · rintro (⟨-, -, h⟩ | ⟨h, -⟩)
        · exact h
        · cases h
      · exact fun h => .inl ⟨hdata, hleft, h⟩
    have hsettled : v'.settledItems = kvs ++ [kv'] := by
      rw [settledItems_of_not (hstart ▸ rfl), hr']
    unfold Wrong
    rw [hcompl, hlines, hsettled, settledItems_concat huses hr, exists_mem_concat, hkey]
    exact or_right_comm
  · have hnot : ¬ v.Completes := by
      rintro (⟨h, -⟩ | ⟨h, -⟩)
      · exact hdata h
      · rw [hline] at h
        cases h
    rw [or_iff_left hnot]
    refine wrong_congr ?_ hlines
    rw [settledItems_concat huses hr, settledItems_concat (h.usesKv_of_header hdata) hr']

theorem wrong_iff_of_line {ls : List (LineResult Bytes)} {l l' : LineResult Bytes}
    (hline : readsLine v.state = true) (hr : v'.retrievalResults = v.retrievalResults)
    (hl : v.lineResults = ls ++ [l]) (hl' : v'.lineResults = ls ++ [l'])
    (h : LineRound v.bufferReader v.state v'.state l') (hst' : v'.state ≠ v.state) :
    v'.Wrong ↔ v.Wrong ∨ v.Completes := by
  obtain ⟨hidle, hempty⟩ := h.finishes hst'
  have huses := usesKv_of_readsLine hline
  have hcompl : v.Completes ↔ l'.line = [] := by
    rw [hempty]
    refine ⟨fun h => h.elim (fun h => ?_) (·.2), fun h => .inr ⟨hline, h⟩⟩
    rw [h.1] at hline
    cases hline
  unfold Wrong
  rw [hcompl, settledItems_of_not huses, settledItems_of_not hidle.1, hr, settledLines_concat hline hl,
    settledLines_of_not hidle.2, hl', exists_mem_concat]
  exact or_assoc.symm

/-- **A round that goes on adds exactly the wrong results that it completes.** -/
theorem ResultRound.wrong_iff (h : ResultRound v v') (hst : v'.state ≠ v.state ∨ Idle v.state) :
    v'.Wrong ↔ v.Wrong ∨ v.Completes := by
  have hsame : ¬ v.Completes → v'.settledItems = v.settledItems →
      v'.settledLines = v.settledLines → (v'.Wrong ↔ v.Wrong ∨ v.Completes) := fun hc hi hl =>
    (wrong_congr hi hl).trans (or_iff_left hc).symm
  cases h with
  | idle hidle hidle' hr hl =>
    refine hsame hidle.not_completes ?_ ?_
    · rw [settledItems_of_not hidle.1, settledItems_of_not hidle'.1, hr]
    · rw [settledLines_of_not hidle.2, settledLines_of_not hidle'.2, hl]
  | opensItem hidle hst' hr hl =>
    have huses : usesKv v'.state = true := hst' ▸ rfl
    refine hsame hidle.not_completes ?_ ?_
    · rw [settledItems_of_not hidle.1, settledItems_concat huses hr]
    · rw [settledLines_of_not hidle.2, settledLines_of_not (readsLine_of_usesKv huses), hl]
  | opensLine hidle hst' hr hl =>
    refine hsame hidle.not_completes ?_ ?_
    · rw [settledItems_of_not hidle.1, settledItems_of_not (usesKv_of_readsLine hst'), hr]
    · rw [settledLines_of_not hidle.2, settledLines_concat hst' hl]
  | item hr hr' hl h =>
    refine wrong_iff_of_item hr hr' hl h (hst.resolve_right fun hidle => ?_)
    cases h.usesKv.1.symm.trans hidle.1
  | line hline hr hl hl' h =>
    refine wrong_iff_of_line hline hr hl hl' h (hst.resolve_right fun hidle => ?_)
    rw [hidle.2] at hline
    cases hline

/-! ## When the loop is left -/

theorem itemBacked_of_finished (hkey : kv.keyLen = kv.key.length % 2 ^ 8)
    (h : kv.bytesRemain = 0 ∧ kv.dataBlock.length = kv.bytes) :
    ItemBacked List.length kv ↔ kv.key.length < 2 ^ 8 := by
  unfold ItemBacked
  rw [h.1, hkey]
  constructor
  · intro hb
    have := (hb (lt_irrefl 0)).1
    omega
  · exact fun hlt _ => ⟨(Nat.mod_eq_of_lt hlt).symm, h.2⟩

theorem innerLen_le_iff {l : LineResult Bytes} (h : l.lineLen = l.line.length) :
    l.innerLen ≤ l.line.length ↔ l.line ≠ [] := by
  unfold LineResult.innerLen
  rw [h, ← List.length_pos_iff]
  omega

theorem Sized.items_iff (hs : v.Sized) :
    (∀ kv ∈ v.retrievalResults, ItemBacked List.length kv) ↔
      (¬ ∃ kv ∈ v.settledItems, 2 ^ 8 ≤ kv.key.length) ∧
        (usesKv v.state = true → ItemBacked List.length v.kv) := by
  have hsettled : ∀ kv ∈ v.settledItems, kv ∈ v.retrievalResults →
      (ItemBacked List.length kv ↔ kv.key.length < 2 ^ 8) := fun kv hkv hmem =>
    itemBacked_of_finished (hs.keyLen kv hmem) (hs.settled kv hkv)
  push Not
  rcases huses : usesKv v.state with _ | _
  · rw [settledItems_of_not huses] at hsettled ⊢
    rw [and_iff_left nofun]
    exact forall₂_congr fun kv hkv => hsettled kv hkv hkv
  · obtain ⟨kvs, hr⟩ := results_concat (hs.result huses)
    rw [settledItems_concat huses hr] at hsettled ⊢
    rw [hr] at hsettled ⊢
    rw [forall_mem_concat, imp_iff_right rfl]
    exact and_congr_left fun _ => forall₂_congr fun kv hkv =>
      hsettled kv hkv (List.mem_append_left _ hkv)

theorem Sized.lines_iff (hs : v.Sized) :
    (∀ l ∈ v.lineResults, l.innerLen ≤ l.line.length) ↔
      (¬ ∃ l ∈ v.settledLines, l.line = []) ∧
        (readsLine v.state = true → ∀ l ∈ v.lineResults.getLast?, l.line ≠ []) := by
  have hline := hs.lineLen
  push Not
  rcases hst : readsLine v.state with _ | _
  · rw [settledLines_of_not hst, and_iff_left nofun]
    exact forall₂_congr fun l hl => innerLen_le_iff (hline l hl)
  · obtain ⟨ls, l, hl⟩ := (List.eq_nil_or_concat' _).resolve_left (hs.line hst)
    rw [settledLines_concat hst hl]
    rw [hl] at hline ⊢
    obtain ⟨hls, hlast⟩ := forall_mem_concat.1 hline
    rw [forall_mem_concat, imp_iff_right rfl, List.getLast?_concat]
    refine and_congr (forall₂_congr fun l hl => innerLen_le_iff (hls l hl)) ?_
    exact (innerLen_le_iff hlast).trans ⟨fun h _ hl' => Option.some.inj hl' ▸ h, fun h => h l rfl⟩

/-- What is wrong between two rounds is a settled result, or one in progress. -/
theorem Sized.backed_iff (hs : v.Sized) : v.Backed List.length ↔ ¬ v.Wrong ∧
    (usesKv v.state = true → ItemBacked List.length v.kv) ∧
    (readsLine v.state = true → ∀ l ∈ v.lineResults.getLast?, l.line ≠ []) := by
  have hbacked : v.Backed List.length ↔ (∀ kv ∈ v.retrievalResults, ItemBacked List.length kv) ∧
      ∀ l ∈ v.lineResults, l.innerLen ≤ l.line.length := ⟨fun h => ⟨h.1, h.2⟩, fun h => ⟨h.1, h.2⟩⟩
  unfold Wrong
  rw [hbacked, hs.items_iff, hs.lines_iff, not_or, and_and_and_comm]

/-- Where the loop must not be left: in a line, and in the header line of the largest size. -/
def Breaks (v : Flat) : Prop :=
  (v.state = .getBytes ∨ v.state = .getCas) ∧ v.kv.bytes = 2 ^ 32 - 1 ∨ readsLine v.state = true

theorem ItemRound.backed_iff (h : ItemRound q kv st st kv') (hkv : ItemAt st kv)
    (hkey : kv.keyLen = kv.key.length % 2 ^ 8) : ItemBacked List.length kv' ↔
      ¬ (st = .getValueRemaining ∧ dataLeft kv ≤ q.length ∧ 2 ^ 8 ≤ kv.key.length) ∧
        ¬ ((st = .getBytes ∨ st = .getCas) ∧ kv.bytes = 2 ^ 32 - 1) := by
  have hkey' := h.keyLen hkey
  have hat := h.itemAt hkv
  cases h with
  | keyWaits | flagsWait | bytesWait =>
    refine iff_of_true (fun hc => absurd ?_ hc) ⟨nofun, nofun⟩
    rw [hkv.1]
    exact Nat.one_pos
  | casWaits | lineEndWaits =>
    obtain ⟨hlt, hrem, hdata⟩ := hkv
    have hskip : ¬ 0 < kv.bytesRemain ↔ kv.bytes = 2 ^ 32 - 1 := by
      rw [hrem]
      omega
    refine ⟨fun hb => ⟨nofun, fun ⟨_, hc⟩ => ?_⟩, fun ⟨_, hc⟩ hb => ?_⟩
    · have hlen := (hb (hskip.2 hc)).2
      simp only [hdata, hc] at hlen
      cases hlen
    · exact absurd ⟨by simp, hskip.1 hb⟩ hc
  | dataWaits hpos hq =>
    refine iff_of_true (fun hc => absurd hpos hc) ⟨fun h => ?_, nofun⟩
    rw [dataLeft, if_pos hpos] at h
    omega
  | data _ hpos hq hd hst =>
    rw [itemBacked_of_finished hkey' ⟨rfl, hd⟩, and_iff_left nofun, ← not_le]
    exact not_congr ⟨fun h => ⟨rfl, dataLeft_le_of_data hpos hq hd, h⟩, (·.2.2)⟩
  | dataRead _ hdone hst =>
    have hdata : kv.dataBlock.length = kv.bytes := by
      rcases hat with h | h
      · rw [h.2, ← h.1, hdone]
        rfl
      · exact h.2
    rw [itemBacked_of_finished hkey' ⟨hdone, hdata⟩, and_iff_left nofun, ← not_le]
    exact not_congr ⟨fun h => ⟨rfl, dataLeft_le_of_done hdone q, h⟩, (·.2.2)⟩

/-- **A round that leaves the loop leaves the lengths backed** exactly if they were and it completes
nothing wrong. -/
theorem ResultRound.backed_iff (h : ResultRound v v') (hs : v.Sized)
    (hst : v'.state = v.state ∨ Idle v.state ∧ Idle v'.state) :
    v'.Backed List.length ↔ ¬ v.Wrong ∧ ¬ v.Completes ∧ ¬ v.Breaks := by
  have hs' := h.sized hs
  rw [hs'.backed_iff]
  cases h with
  | idle hidle hidle' hr hl =>
    have hnot : ¬ v.Breaks := by
      rintro (⟨h | h, -⟩ | h)
      · cases (h ▸ hidle.1 : usesKv .getBytes = false)
      · cases (h ▸ hidle.1 : usesKv .getCas = false)
      · cases h.symm.trans hidle.2
    have hwrong : v'.Wrong ↔ v.Wrong := wrong_congr
      (by rw [settledItems_of_not hidle.1, settledItems_of_not hidle'.1, hr])
      (by rw [settledLines_of_not hidle.2, settledLines_of_not hidle'.2, hl])
    rw [hwrong, hidle'.1, hidle'.2]
    exact and_congr_right fun _ => iff_of_true ⟨nofun, nofun⟩ ⟨hidle.not_completes, hnot⟩
  | opensItem hidle hst' hr hl =>
    have hidle' : Idle v'.state := hst.elim (fun h => h ▸ hidle) (·.2)
    cases (hst' ▸ hidle'.1 : usesKv .getStart = false)
  | opensLine hidle hst' hr hl =>
    have hidle' : Idle v'.state := hst.elim (fun h => h ▸ hidle) (·.2)
    cases hst'.symm.trans hidle'.2
  | @item kvs kv kv' hr hr' hl h =>
    have huses := h.usesKv.1
    have hline := readsLine_of_usesKv huses
    have hsame : v'.state = v.state := hst.resolve_right fun hidle => by
      cases huses.symm.trans hidle.1.1
    have hcur := hs.current huses
    have hkey := hs.keyLen kv (by simp [hr])
    rw [kv_concat hr] at hcur
    rw [hsame] at h
    have hwrong : v'.Wrong ↔ v.Wrong := wrong_congr
      (by rw [settledItems_concat huses hr, settledItems_concat (hsame ▸ huses) hr'])
      (by rw [settledLines_of_not hline, settledLines_of_not (hsame ▸ hline), hl])
    have hcompl : v.Completes ↔ v.state = .getValueRemaining ∧ dataLeft kv ≤ v.bufferReader.length ∧
        2 ^ 8 ≤ kv.key.length := by
      unfold Completes
      rw [kv_concat hr, hline]
      exact or_iff_left fun h => nomatch h.1
    have hbreaks : v.Breaks ↔ (v.state = .getBytes ∨ v.state = .getCas) ∧ kv.bytes = 2 ^ 32 - 1 := by
      unfold Breaks
      rw [kv_concat hr, hline]
      exact or_iff_left nofun
    rw [hwrong, hsame, kv_concat hr', hcompl, hbreaks, ← h.backed_iff hcur hkey]
    refine and_congr_right fun _ => ⟨fun hb => hb.1 huses, fun hb => ⟨fun _ => hb, fun hc => ?_⟩⟩
    cases hline.symm.trans hc
  | @line ls l l' hline hr hl hl' h =>
    have hsame : v'.state = v.state := hst.resolve_right fun hidle => by
      cases hline.symm.trans hidle.1.2
    rw [hsame] at h ⊢
    have hempty : l'.line = [] := by
      generalize v.state = st at hline h
      cases h with
      | waits => rfl
      | read _ _ hst' => rcases hst' with rfl | rfl <;> cases hline
    refine iff_of_false (fun hb => hb.2.2 hline l' ?_ hempty) fun hb => hb.2.2 (.inr hline)
    rw [hl', List.getLast?_concat]
    rfl

end PacketParser

end Libmc
