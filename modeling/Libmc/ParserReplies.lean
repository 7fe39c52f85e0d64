import Libmc.ParserCounting
import Libmc.ParserRetrieval
import Libmc.ParserTermination

/-!
# What is left of the replies

The states are built of calls of the reader and of assignments that leave the request alone
(`Built`). So in a call of `process_packets` neither the keys nor the mode change, it stops with one
of three codes (`Tame`), and it does not look at what is noted about the keys (`Blind`). After calls
that asked for more bytes the parser is as good as one that has been given all of them at once.
`Expects` says what this comes to: when the rest of the replies is there and the call is content, the
parser has used up the last byte.
-/

namespace Libmc

namespace PacketParser

variable {α β : Type} {v w : Flat} {b t R : Bytes} {e : ErrCode} {n k : ℕ} {ks : List Bytes}
  {md : ParserMode}

/-! ### The request stays -/

/-- The codes that a state stops with. -/
def Stops (e : ErrCode) : Prop := e = .incompleteBufferErr ∨ e = .programmingErr ∨ e = .mcServerErr

structure SameRequest (v v' : Flat) : Prop where
  requestKeys : v'.requestKeys = v.requestKeys
  mode : v'.mode = v.mode

theorem SameRequest.refl (v : Flat) : SameRequest v v := ⟨rfl, rfl⟩

theorem SameRequest.trans {v' v'' : Flat} (h : SameRequest v v') (h' : SameRequest v' v'') :
    SameRequest v v'' := ⟨h'.1.trans h.1, h'.2.trans h.2⟩

/-- A computation that leaves the request alone, and stops with one of three codes. -/
def Tame (m : ParseM Bytes Bytes α) : Prop :=
  ∀ v, SameRequest v (m v).2 ∧ ∀ e, (m v).1 = .error e → Stops e

/-- The same parser, with `outOfRange` raised. -/
def raised (v : Flat) : Flat := { v with outOfRange := true }

/-- A computation that does not look at `outOfRange`. -/
def Blind (m : ParseM Bytes Bytes α) : Prop := ∀ v, m v.raised = ((m v).1, (m v).2.raised)

/-- An assignment that leaves the request alone, and does not look at `outOfRange`. -/
structure Assigns (g : Flat → Flat) : Prop where
  same : ∀ v, SameRequest v (g v)
  raised : ∀ v, g v.raised = (g v).raised

/-- What the states are built of. -/
inductive Built : {α : Type} → ParseM Bytes Bytes α → Prop
  | pure {α : Type} (a : α) : Built (pure a)
  | stop {α : Type} {e : ErrCode} (h : Stops e) : Built (ParseM.stop e : ParseM Bytes Bytes α)
  | assign {g : Flat → Flat} (hg : Assigns g) : Built (ParseM.assign g)
  | bind {α β : Type} {m : ParseM Bytes Bytes α} {f : α → ParseM Bytes Bytes β} (hm : Built m)
      (hf : ∀ a, Built (f a)) : Built (m >>= f)
  | kv {α : Type} {m : RetrievalResult Bytes → ParseM Bytes Bytes α} (hm : ∀ kv, Built (m kv)) :
      Built fun v => m v.kv v
  | peek (n : ℕ) : Built (peek n)
  | readUntil (c : UInt8) : Built (readUntil c)
  | skipUntil (c : UInt8) : Built (skipUntil c)
  | readUnsigned : Built readUnsigned
  | readBytes (n : ℕ) : Built (readBytes n)
  | skipBytes (n : ℕ) : Built (skipBytes n)

/-! ### The states are built so -/

namespace Built

theorem ite {q : Prop} [Decidable q] {m m' : ParseM Bytes Bytes α} (hm : Built m)
    (hm' : Built m') : Built (if q then m else m') := by
  split_ifs
  · exact hm
  · exact hm'

theorem sets {g : Flat → Flat} (hsame : ∀ v, SameRequest v (g v))
    (hraised : ∀ v, g v.raised = (g v).raised) : Built (ParseM.assign g) := .assign ⟨hsame, hraised⟩

theorem setState (st : ParserState) : Built (ParseM.assign (setState st)) :=
  .sets (fun _ => ⟨rfl, rfl⟩) fun _ => rfl

theorem modifyKv (g : RetrievalResult Bytes → RetrievalResult Bytes) :
    Built (ParseM.assign (modifyKv g)) := .sets (fun _ => ⟨rfl, rfl⟩) fun _ => rfl

theorem skip (n : ℕ) {f : ParseM Bytes Bytes Unit} (hf : Built f) :
    Built (do PacketParser.skipBytes n; f) := (skipBytes n).bind fun _ => hf

theorem message (n : ℕ) (tp : MessageResultType) : Built (message n tp) :=
  skip n <| .sets
    (fun v => ⟨processMessageResult_requestKeys tp v, processMessageResult_mode tp v⟩) fun v => by
      unfold processMessageResult
      split_ifs <;> rfl

theorem errorLine (he : Stops e) : Built (errorLine e) :=
  (readUntil lf).bind fun _ => skip 1 <| .bind (sets (fun _ => ⟨rfl, rfl⟩) fun _ => rfl) fun _ =>
    (setState .error).bind fun _ => .stop he

theorem processLineResult : Built processLineResult :=
  .bind (sets (fun _ => ⟨rfl, rfl⟩) fun _ => rfl) fun _ => (readUntil lf).bind fun _ =>
    .bind (sets (fun _ => ⟨rfl, rfl⟩) fun _ => rfl) fun _ => skipBytes 1

theorem push {g : Flat → Flat} (st : ParserState) (hg : Built (ParseM.assign g)) :
    Built (do ParseM.assign g; ParseM.assign (PacketParser.setState st)) :=
  hg.bind fun _ => setState st

theorem startState : Built startState := by
  have hprog : Stops .programmingErr := .inr (.inl rfl)
  have hserver : Stops .mcServerErr := .inr (.inr rfl)
  have hline : Built (ParseM.assign pushLine) := .sets (fun _ => ⟨rfl, rfl⟩) fun _ => rfl
  have hv : Built startV := (peek 1).bind fun _ =>
    .ite (skip 6 (push .getStart (.sets (fun _ => ⟨rfl, rfl⟩) fun _ => rfl))) <|
    .ite (skip 8 (push .verStart hline)) (.pure ())
  have he : Built startE := (peek 1).bind fun _ => .ite (errorLine hprog) <|
    .ite (skip 5 (setState _)) <| .ite (message 8 _) (.pure ())
  have hs : Built startS := (peek 2).bind fun _ => (peek 1).bind fun _ =>
    .ite (.ite (message 8 _) (skip 5 (push .statStart hline))) (errorLine hserver)
  have hn : Built startN := (peek 4).bind fun _ => .ite (message 11 _) <|
    .ite (message 12 _) (.pure ())
  exact (peek 0).bind fun _ => .ite hv <| .ite he <|
    .ite ((message 4 .ok).bind fun _ => setState _) <|
    .ite hs <| .ite (message 9 _) <|
    .ite hn <| .ite (message 9 _) <| .ite (errorLine hprog) <|
    .ite (push .incrDecrStart (.sets (fun _ => ⟨rfl, rfl⟩) fun _ => rfl)) (.stop hprog)

theorem number (g : ℕ → RetrievalResult Bytes → RetrievalResult Bytes) (st : ParserState) :
    Built (do let n ← PacketParser.readUnsigned; ParseM.assign (PacketParser.modifyKv (g n))
              PacketParser.skipBytes 1; ParseM.assign (PacketParser.setState st)) :=
  readUnsigned.bind fun _ => (modifyKv _).bind fun _ => skip 1 (setState st)

theorem getBytes : Built getBytes :=
  Built.bind ((peek 0).bind fun _ => .ite (modifyKv _) <| (modifyKv _).bind fun _ =>
    readUnsigned.bind fun _ => (modifyKv _).bind fun _ => skipBytes 1) fun _ => setState _

theorem readDataBlock : Built readDataBlock := by
  have heq : PacketParser.readDataBlock = fun v : Flat =>
      (if 0 < v.kv.bytesRemain then fillDataBlock v.kv.bytes else Pure.pure ()) v := by
    funext v
    rw [readDataBlock_eq]
    split_ifs <;> rfl
  rw [heq]
  refine .kv (m := fun kv => if 0 < kv.bytesRemain then fillDataBlock kv.bytes else Pure.pure ())
    fun kv => .ite ?_ (.pure ())
  exact (modifyKv _).bind fun _ => Built.bind
    (.sets (fun v => by rw [wishForBlock_flat]; exact .refl v)
      fun v => by rw [wishForBlock_flat, wishForBlock_flat])
    fun _ => (readBytes _).bind fun _ => modifyKv _

theorem stateAction (st : ParserState) : Built (stateAction st) := by
  cases st with
  | start => exact startState
  | end_ => exact .pure ()
  | error => exact .pure ()
  | getStart =>
    exact (modifyKv _).bind fun _ => (readUntil space).bind fun _ => (modifyKv _).bind fun _ =>
      skip 1 (setState _)
  | getKey => exact number _ _
  | getFlags => exact number _ _
  | getBytes => exact getBytes
  | getCas => exact skip 1 ((modifyKv _).bind fun _ => setState _)
  | getValueRemaining => exact readDataBlock.bind fun _ => skip 2 (setState _)
  | verStart => exact processLineResult.bind fun _ => setState _
  | statStart => exact processLineResult.bind fun _ => setState _
  | incrDecrStart =>
    exact .bind (sets (fun _ => ⟨rfl, rfl⟩) fun _ => rfl) fun _ => readUnsigned.bind fun _ =>
      .bind (sets (fun _ => ⟨rfl, rfl⟩) fun _ => rfl) fun _ => (skipBytes 1).bind fun _ =>
        push _ (.sets (fun _ => ⟨rfl, rfl⟩) fun _ => rfl)
  | incrDecrRemaining =>
    exact (skipUntil lf).bind fun _ => (skipBytes 1).bind fun _ =>
      push _ (.sets (fun _ => ⟨rfl, rfl⟩) fun _ => rfl)

end Built

/-! ### What is built so leaves the request alone -/

theorem stops_of_check {a : α} (h : e = .ok ∨ Stops e) {e' : ErrCode}
    (he : (check e a : Except ErrCode α) = .error e') : Stops e' := by
  unfold check at he
  split_ifs at he with hok
  obtain rfl := Except.error.inj he
  exact h.resolve_left hok

/-- The calls of the reader are content, ask for more or find no number. -/
theorem reader_stops (q : Bytes) (n : ℕ) (c : UInt8) :
    ((ByteQueue.peek q n).1 = .ok ∨ Stops (ByteQueue.peek q n).1) ∧
    ((ByteQueue.readUntil q c).1 = .ok ∨ Stops (ByteQueue.readUntil q c).1) ∧
    ((ByteQueue.skipUntil q c).1 = .ok ∨ Stops (ByteQueue.skipUntil q c).1) ∧
    ((ByteQueue.readUnsigned q).1 = .ok ∨ Stops (ByteQueue.readUnsigned q).1) ∧
    ((ByteQueue.readBytes q n).1 = .ok ∨ Stops (ByteQueue.readBytes q n).1) ∧
    ((ByteQueue.skipBytes q n).1 = .ok ∨ Stops (ByteQueue.skipBytes q n).1) := by
  unfold ByteQueue.peek ByteQueue.readUntil ByteQueue.skipUntil ByteQueue.readUnsigned
    ByteQueue.readBytes ByteQueue.skipBytes Stops
  refine ⟨?_, ?_, ?_, ?_, ?_, ?_⟩
  · split <;> simp
  all_goals split_ifs <;> simp

theorem Tame.bind {m : ParseM Bytes Bytes α} {f : α → ParseM Bytes Bytes β} (hm : Tame m)
    (hf : ∀ a, Tame (f a)) : Tame (m >>= f) := by
  intro v
  obtain ⟨hsame, hcode⟩ := hm v
  rcases h : m v with ⟨e | a, v'⟩ <;> rw [h] at hsame hcode
  · rw [ParseM.bind_error h]
    exact ⟨hsame, fun e' he => hcode e' (congrArg Except.error (Except.error.inj he))⟩
  · rw [ParseM.bind_ok h]
    obtain ⟨hsame', hcode'⟩ := hf a v'
    exact ⟨hsame.trans hsame', hcode'⟩

/-- **The request stays.** -/
theorem Built.tame {m : ParseM Bytes Bytes α} (h : Built m) : Tame m := by
  induction h with
  | pure a => exact fun v => ⟨.refl v, nofun⟩
  | stop h =>
    refine fun v => ⟨.refl v, fun e' he => ?_⟩
    obtain rfl := Except.error.inj he
    exact h
  | assign hg => exact fun v => ⟨hg.same v, nofun⟩
  | bind _ _ ihm ihf => exact ihm.bind ihf
  | kv _ ih => exact fun v => ih v.kv v
  | peek n => exact fun v => ⟨.refl v, fun _ he => stops_of_check (reader_stops _ n 0).1 he⟩
  | readUntil c =>
    exact fun v => ⟨⟨rfl, rfl⟩, fun _ he => stops_of_check (reader_stops _ 0 c).2.1 he⟩
  | skipUntil c =>
    exact fun v => ⟨⟨rfl, rfl⟩, fun _ he => stops_of_check (reader_stops _ 0 c).2.2.1 he⟩
  | readUnsigned =>
    exact fun v => ⟨⟨rfl, rfl⟩, fun _ he => stops_of_check (reader_stops _ 0 0).2.2.2.1 he⟩
  | readBytes n =>
    exact fun v => ⟨⟨rfl, rfl⟩, fun _ he => stops_of_check (reader_stops _ n 0).2.2.2.2.1 he⟩
  | skipBytes n =>
    exact fun v => ⟨⟨rfl, rfl⟩, fun _ he => stops_of_check (reader_stops _ n 0).2.2.2.2.2 he⟩

/-- **Nothing depends on `outOfRange`.** -/
theorem Built.blind {m : ParseM Bytes Bytes α} (h : Built m) : Blind m := by
  induction h with
  | @bind α β m f _ _ ihm ihf =>
    intro v
    have hv := ihm v
    rcases h : m v with ⟨e | a, v'⟩ <;> rw [h] at hv
    · rw [ParseM.bind_error hv, ParseM.bind_error h]
    · rw [ParseM.bind_ok hv, ParseM.bind_ok h]
      exact ihf a v'
  | assign hg => exact fun v => congrArg (Prod.mk _) (hg.raised v)
  | kv _ ih => exact fun v => ih v.kv v
  | _ => exact fun v => rfl

theorem tame_stateAction (st : ParserState) : Tame (stateAction st) := (Built.stateAction st).tame

theorem body_tame (v : Flat) : (∀ v', body v = .inl v' → SameRequest v v') ∧
    ∀ e w, body v = .inr (e, w) → SameRequest v w ∧ (e = .ok ∨ Stops e) := by
  obtain ⟨hsame, hcode⟩ := tame_stateAction v.state v
  rcases hend : v.canEndParse with _ | _
  · rw [body_eq hend]
    rcases hv : stateAction v.state v with ⟨e | _, w⟩ <;> rw [hv] at hsame hcode
    · refine ⟨nofun, fun e' w' h => ?_⟩
      obtain ⟨rfl, rfl⟩ := Prod.mk.inj (Sum.inr.inj h)
      exact ⟨hsame, .inr (hcode e rfl)⟩
    · refine ⟨fun v' h => ?_, fun e' w' h => by cases h⟩
      obtain rfl := Sum.inl.inj h
      exact hsame
  · rw [body_of_canEndParse hend]
    refine ⟨nofun, fun e' w' h => ?_⟩
    obtain ⟨rfl, rfl⟩ := Prod.mk.inj (Sum.inr.inj h)
    exact ⟨.refl v, .inl rfl⟩

theorem enter_sameRequest (v : Flat) : SameRequest v v.enter := by
  unfold enter
  split_ifs
  · exact ⟨rfl, rfl⟩
  · exact .refl v

theorem call_tame (h : Loop.run body n v.enter = some (e, w)) :
    SameRequest v w ∧ (e = .ok ∨ Stops e) :=
  Loop.run_invariant (I := SameRequest v)
    (J := fun r => SameRequest v r.2 ∧ (r.1 = .ok ∨ Stops r.1))
    (fun s s' hs hb => hs.trans ((body_tame s).1 s' hb))
    (fun s r hs hb => by
      obtain ⟨hsame, hcode⟩ := (body_tame s).2 r.1 r.2 hb
      exact ⟨hs.trans hsame, hcode⟩) (enter_sameRequest v) h

/-! ### The rest of the replies -/

/-- What is to come: a call on all of it does not start again, and if it is content it uses up the
last byte. -/
structure Expects (v : Flat) (R : Bytes) : Prop where
  enter_eq : v.enter = v
  used : ∀ w, Loop.Returns body (v.feed R) (.ok, w) → w.bufferReader = []

/-- **The pieces do not matter.** A call on the first part of what is to come either asks for more,
and the rest is to come, or is content with what was the last part. -/
theorem Expects.call (h : Expects v (b ++ R))
    (hrun : Loop.run body n (v.feed b).enter = some (e, w)) :
    (e = .incompleteBufferErr → Expects w R) ∧ (e = .ok → R = []) := by
  rw [feed_enter, h.enter_eq] at hrun
  have hassoc : ∀ c, (v.feed b).feed c = v.feed (b ++ c) := flatMachine_resumable.feed_append v b
  refine ⟨?_, ?_⟩
  · rintro rfl
    obtain ⟨hent, hret⟩ := flatMachine_resumable.returns_resumed hrun
    refine ⟨hent, fun w' hw' => h.used w' ?_⟩
    rw [← hassoc]
    exact (hret R _).1 hw'
  · rintro rfl
    have hret := flatMachine_resumable.returns_feed hrun nofun R
    have hused := h.used _ (by rw [← hassoc]; exact hret)
    exact (List.append_eq_nil_iff.1 hused).2

/-- A parser that waits for the replies to a request, and has nothing yet. -/
structure Ready (v : Flat) (ks : List Bytes) (md : ParserMode) : Prop where
  bufferReader : v.bufferReader = []
  state : v.state = .start
  requestKeyIdx : v.requestKeyIdx = 0
  requestKeys : v.requestKeys = ks
  mode : v.mode = md
  retrievalResults : v.retrievalResults = []
  messageResults : v.messageResults = []
  lineResults : v.lineResults = []
  unsignedResults : v.unsignedResults = []

/-- What calls make of a parser that is given bytes piece by piece. -/
inductive Fed (v : Flat) : Bytes → Flat → Prop
  | nil : Fed v [] v
  | call {got bs : Bytes} {u w : Flat} {e : ErrCode} {n : ℕ} (h : Fed v got u) (hbs : bs ≠ [])
      (hrun : Loop.run body n (u.feed bs).enter = some (e, w)) : Fed v (got ++ bs) w

theorem Fed.eq_of_nil {got : Bytes} (h : Fed v got w) (hnil : got = []) : w = v := by
  cases h with
  | nil => rfl
  | call _ hbs => exact absurd (List.append_eq_nil_iff.1 hnil).2 hbs

theorem Ready.expects (h : Ready v ks md) (hret : Loop.Returns body (v.feed R) (e, w))
    (hok : e = .ok → w.bufferReader = []) : Expects v R where
  enter_eq := by
    unfold enter
    rw [h.state]
    rfl
  used w' hw' := by
    obtain ⟨rfl, rfl⟩ := Prod.mk.inj (hret.unique hw')
    exact hok rfl

theorem Ready.feed_bufferReader (h : Ready v ks md) (R : Bytes) : (v.feed R).bufferReader = R := by
  show v.bufferReader ++ R = R
  rw [h.bufferReader]
  rfl

end PacketParser

end Libmc
