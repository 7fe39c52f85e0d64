import Libmc.ParserView

/-!
# The parser can be fed in pieces

The parser over bytes is a resumable machine (`flatMachine_resumable`). More bytes do not change a
computation that did not run out of them (`Stable`); one that did run out leaves the parser as it
was, or as it would be after clearing what it was about to fill in (`Retries`), so that the next
call does what an uninterrupted call would have done. With the view, the same holds over blocks.
-/

namespace Libmc

namespace PacketParser

variable {α β : Type} {v v' : Flat} {b : Bytes} {c : UInt8} {len : ℕ}

def feed (v : Flat) (b : Bytes) : Flat := { v with bufferReader := v.bufferReader ++ b }

/-- The code of a computation that needs more bytes. -/
abbrev incomplete : Except ErrCode α := .error .incompleteBufferErr

/-- More bytes do not change a computation that has enough of them. -/
def Stable (m : ParseM Bytes Bytes α) : Prop :=
  ∀ v b, (m v).1 ≠ incomplete → m (v.feed b) = ((m v).1, (m v).2.feed b)

/-- A computation without enough bytes does nothing. -/
def Untouched (m : ParseM Bytes Bytes α) : Prop := ∀ v, (m v).1 = incomplete → (m v).2 = v

/-- A computation that always has enough bytes. -/
def Sure (m : ParseM Bytes Bytes α) : Prop := ∀ v, (m v).1 ≠ incomplete

/-- A computation that has enough bytes where one is left. -/
def Settled (m : ParseM Bytes Bytes α) : Prop :=
  ∀ v : Flat, v.bufferReader ≠ [] → (m v).1 ≠ incomplete

/-- A read that does nothing without enough bytes, and otherwise stops before a byte. -/
def Leaves (m : ParseM Bytes Bytes α) : Prop :=
  ∀ v, ((m v).1 = incomplete → (m v).2 = v) ∧ ∀ a, (m v).1 = .ok a → (m v).2.bufferReader ≠ []

/-- `v'` is in the same place as `v`. -/
structure SamePlace (v v' : Flat) : Prop where
  state : v'.state = v.state
  mode : v'.mode = v.mode
  requestKeys : v'.requestKeys = v.requestKeys
  requestKeyIdx : v'.requestKeyIdx = v.requestKeyIdx

/-- A computation without enough bytes can be started again where it stopped. -/
def Retries (m : ParseM Bytes Bytes α) : Prop :=
  ∀ v, (m v).1 = incomplete → SamePlace v (m v).2 ∧ ∀ b, m ((m v).2.feed b) = m (v.feed b)

/-- Such a computation that leaves the bytes where they are. -/
def RetriesAll (m : ParseM Bytes Bytes α) : Prop :=
  Retries m ∧ ∀ v, (m v).1 = incomplete → (m v).2.bufferReader = v.bufferReader

variable {m : ParseM Bytes Bytes α} {f : α → ParseM Bytes Bytes β}

/-! ### Stability -/

theorem Stable.bind (hm : Stable m) (hf : ∀ a, Stable (f a)) : Stable (m >>= f) := by
  intro v b hne
  have hv := hm v b
  rcases h : m v with ⟨e | a, v'⟩ <;> rw [h] at hv
  · rw [ParseM.bind_error h] at hne ⊢
    exact ParseM.bind_error (hv fun hc => hne (congrArg Except.error (Except.error.inj hc)))
  · rw [ParseM.bind_ok h] at hne ⊢
    rw [ParseM.bind_ok (hv (by simp))]
    exact hf a v' b hne

theorem Stable.ite {q : Prop} [Decidable q] {k : ParseM Bytes Bytes α} (hm : Stable m)
    (hk : Stable k) : Stable (if q then m else k) := by
  split_ifs
  · exact hm
  · exact hk

theorem stable_pure (a : α) : Stable (pure a) := fun _ _ _ => rfl

theorem stable_stop (e : ErrCode) : Stable (ParseM.stop e : ParseM Bytes Bytes α) := fun _ _ _ => rfl

theorem stable_assign {g : Flat → Flat} (hg : ∀ v b, g (feed v b) = feed (g v) b) :
    Stable (ParseM.assign g) := fun v b _ => congrArg (Prod.mk (Except.ok ())) (hg v b)

theorem stable_peek (n : ℕ) : Stable (peek n) := by
  intro v b hne
  by_cases hn : n < v.bufferReader.length
  · unfold peek feed
    simp only [ByteReader.peek]
    rw [ByteQueue.peek_append hn]
  · refine absurd ?_ hne
    unfold peek
    simp only [ByteReader.peek]
    rw [ByteQueue.peek_of_le (Nat.le_of_not_lt hn)]
    rfl

theorem stable_readUntil (c : UInt8) : Stable (readUntil c) := by
  intro v b hne
  by_cases hc : c ∈ v.bufferReader
  · obtain ⟨s, t, heq, hs⟩ := List.eq_append_cons_of_mem hc
    have h1 := ByteQueue.readUntil_append (v := t) hs
    have h2 := ByteQueue.readUntil_append (v := t ++ b) hs
    unfold readUntil feed
    simp only [ByteReader.readUntil]
    rw [heq, List.append_assoc, List.cons_append, h1, h2]
    rfl
  · refine absurd ?_ hne
    unfold readUntil
    simp only [ByteReader.readUntil]
    rw [ByteQueue.readUntil_of_not_mem hc]
    rfl

theorem stable_skipUntil (c : UInt8) : Stable (skipUntil c) := by
  intro v b hne
  by_cases hc : c ∈ v.bufferReader
  · obtain ⟨s, t, heq, hs⟩ := List.eq_append_cons_of_mem hc
    have h1 := ByteQueue.skipUntil_append (v := t) hs
    have h2 := ByteQueue.skipUntil_append (v := t ++ b) hs
    unfold skipUntil feed
    simp only [ByteReader.skipUntil]
    rw [heq, List.append_assoc, List.cons_append, h1, h2]
    rfl
  · refine absurd ?_ hne
    unfold skipUntil
    simp only [ByteReader.skipUntil]
    rw [ByteQueue.skipUntil_of_not_mem hc]
    rfl

theorem stable_readUnsigned : Stable readUnsigned := by
  intro v b hne
  unfold readUnsigned feed at *
  simp only [ByteReader.readUnsigned] at *
  rcases ByteQueue.readUnsigned_cases v.bufferReader with
    h | ⟨c, t, heq, hc, ht⟩ | ⟨s, c, t, heq, hs, hd, hc⟩
  · rw [h] at hne
    exact absurd rfl hne
  · have h1 := ByteQueue.readUnsigned_notDigit (t := t) hc ht
    have h2 := ByteQueue.readUnsigned_notDigit (t := t ++ b) hc (by simp [ht])
    rw [heq, List.cons_append, h1, h2]
    rfl
  · have h1 := ByteQueue.readUnsigned_append (v := t) hs hd hc
    have h2 := ByteQueue.readUnsigned_append (v := t ++ b) hs hd hc
    rw [heq, List.append_assoc, List.cons_append, h1, h2]
    rfl

theorem stable_readBytes (len : ℕ) : Stable (readBytes len) := by
  intro v b hne
  unfold readBytes feed at *
  simp only [ByteReader.readBytes] at *
  by_cases hlen : len ≤ v.bufferReader.length
  · obtain ⟨s, t, heq, hs⟩ : ∃ s t, v.bufferReader = s ++ t ∧ s.length = len :=
      ⟨_, _, (List.take_append_drop len _).symm, List.length_take_of_le hlen⟩
    subst hs
    rw [heq, List.append_assoc, ByteQueue.readBytes_append, ByteQueue.readBytes_append]
  · rw [ByteQueue.readBytes_of_lt (Nat.lt_of_not_le hlen)] at hne
    exact absurd rfl hne

theorem stable_skipBytes (len : ℕ) : Stable (skipBytes len) := by
  intro v b hne
  unfold skipBytes feed at *
  simp only [ByteReader.skipBytes] at *
  by_cases hlen : len ≤ v.bufferReader.length
  · obtain ⟨s, t, heq, hs⟩ : ∃ s t, v.bufferReader = s ++ t ∧ s.length = len :=
      ⟨_, _, (List.take_append_drop len _).symm, List.length_take_of_le hlen⟩
    rw [heq, List.append_assoc, ByteQueue.skipBytes_append hs, ByteQueue.skipBytes_append hs]
  · rw [ByteQueue.skipBytes_of_lt (Nat.lt_of_not_le hlen)] at hne
    exact absurd rfl hne

/-! ### Running out of bytes -/

theorem Sure.settled (h : Sure m) : Settled m := fun v _ => h v

theorem sure_pure (a : α) : Sure (pure a) := fun _ => by simp [ParseM.pure_apply]

theorem sure_assign (g : Flat → Flat) : Sure (ParseM.assign g) := fun _ => by simp

theorem sure_stop {e : ErrCode} (he : e ≠ .incompleteBufferErr) :
    Sure (ParseM.stop e : ParseM Bytes Bytes α) := fun _ => by simpa using he

theorem Sure.assign_bind {g : Flat → Flat} {k : Unit → ParseM Bytes Bytes β} (h : Sure (k ())) :
    Sure (ParseM.assign g >>= k) := fun v => h (g v)

theorem Settled.assign_bind {g : Flat → Flat} {k : Unit → ParseM Bytes Bytes β}
    (hg : ∀ v, (g v).bufferReader = v.bufferReader) (h : Settled (k ())) :
    Settled (ParseM.assign g >>= k) := fun v hv => h (g v) (by rwa [hg])

theorem skipBytes_incomplete {v : Flat} (h : (skipBytes len v).1 = incomplete) :
    v.bufferReader.length < len ∧ (skipBytes len v).2 = v := by
  unfold skipBytes at *
  simp only [ByteReader.skipBytes] at *
  by_cases hlen : v.bufferReader.length < len
  · rw [ByteQueue.skipBytes_of_lt hlen]
    exact ⟨hlen, rfl⟩
  · unfold ByteQueue.skipBytes check at h
    rw [if_neg hlen] at h
    cases h

theorem skipBytes_untouched (len : ℕ) : Untouched (skipBytes len) :=
  fun _ h => (skipBytes_incomplete h).2

theorem settled_skipBytes : Settled (skipBytes 1) := by
  intro v hv h
  have := (skipBytes_incomplete h).1
  have := List.length_pos_of_ne_nil hv
  omega

/-- If `m` does not run out of bytes before `f` and `f` does not at all, then only `m` does. -/
theorem bind_incomplete {v : Flat}
    (hf : ∀ a, (m v).1 = .ok a → (f a (m v).2).1 ≠ incomplete)
    (h : ((m >>= f) v).1 = incomplete) : (m v).1 = incomplete ∧ ((m >>= f) v).2 = (m v).2 := by
  rcases hm : m v with ⟨e | a, v'⟩
  · rw [ParseM.bind_error hm] at h ⊢
    exact ⟨congrArg Except.error (Except.error.inj h), rfl⟩
  · rw [hm] at hf
    rw [ParseM.bind_ok hm] at h
    exact absurd h (hf a rfl)

theorem Untouched.bind (hm : Untouched m) (hf : ∀ a, Sure (f a)) : Untouched (m >>= f) := by
  intro v h
  obtain ⟨h1, h2⟩ := bind_incomplete (fun a _ => hf a _) h
  rw [h2, hm v h1]

theorem Leaves.bind (hm : Leaves m) (hf : ∀ a, Settled (f a)) : Untouched (m >>= f) := by
  intro v h
  obtain ⟨h1, h2⟩ := bind_incomplete (fun a ha => hf a _ ((hm v).2 a ha)) h
  rw [h2, (hm v).1 h1]

theorem Settled.skip_bind {k : Unit → ParseM Bytes Bytes β} (hk : Sure (k ())) :
    Settled (skipBytes 1 >>= k) := by
  intro v hv h
  exact settled_skipBytes v hv (bind_incomplete (fun _ _ => hk _) h).1

theorem peek_bind_untouched (n : ℕ) {k : UInt8 → ParseM Bytes Bytes β} (hk : ∀ c, Untouched (k c)) :
    Untouched (peek n >>= k) := by
  intro v h
  rcases hp : peek n v with ⟨e | c, v'⟩ <;> obtain rfl : v = v' := congrArg Prod.snd hp
  · rw [ParseM.bind_error hp]
  · rw [ParseM.bind_ok hp] at h ⊢
    exact hk c v h

theorem Untouched.ite {q : Prop} [Decidable q] {k : ParseM Bytes Bytes α} (hm : Untouched m)
    (hk : Untouched k) : Untouched (if q then m else k) := by
  split_ifs
  · exact hm
  · exact hk

theorem Sure.untouched (h : Sure m) : Untouched m := fun v hv => absurd hv (h v)

theorem readUntil_leaves (c : UInt8) : Leaves (readUntil c) := by
  intro v
  unfold readUntil
  simp only [ByteReader.readUntil]
  by_cases hc : c ∈ v.bufferReader
  · obtain ⟨s, t, heq, hs⟩ := List.eq_append_cons_of_mem hc
    rw [heq, ByteQueue.readUntil_append hs]
    exact ⟨(fun h => by cases h), fun _ _ => List.cons_ne_nil _ _⟩
  · rw [ByteQueue.readUntil_of_not_mem hc]
    exact ⟨fun _ => rfl, fun _ h => by cases h⟩

theorem skipUntil_leaves (c : UInt8) : Leaves (skipUntil c) := by
  intro v
  unfold skipUntil
  simp only [ByteReader.skipUntil]
  by_cases hc : c ∈ v.bufferReader
  · obtain ⟨s, t, heq, hs⟩ := List.eq_append_cons_of_mem hc
    rw [heq, ByteQueue.skipUntil_append hs]
    exact ⟨(fun h => by cases h), fun _ _ => List.cons_ne_nil _ _⟩
  · rw [ByteQueue.skipUntil_of_not_mem hc]
    exact ⟨fun _ => rfl, fun _ h => by cases h⟩

theorem readUnsigned_leaves : Leaves readUnsigned := by
  intro v
  unfold readUnsigned
  simp only [ByteReader.readUnsigned]
  rcases ByteQueue.readUnsigned_cases v.bufferReader with
    h | ⟨c, t, heq, hc, ht⟩ | ⟨s, c, t, heq, hs, hd, hc⟩
  · rw [h]
    exact ⟨fun _ => rfl, fun _ h => by cases h⟩
  · rw [heq, ByteQueue.readUnsigned_notDigit hc ht]
    exact ⟨(fun h => by cases h), fun _ h => by cases h⟩
  · rw [heq, ByteQueue.readUnsigned_append hs hd hc]
    exact ⟨(fun h => by cases h), fun _ _ => List.cons_ne_nil _ _⟩

/-! ### Starting again -/

theorem SamePlace.refl (v : Flat) : SamePlace v v := ⟨rfl, rfl, rfl, rfl⟩

theorem Untouched.retriesAll (h : Untouched m) : RetriesAll m := by
  refine ⟨fun v hv => ?_, fun v hv => by rw [h v hv]⟩
  rw [h v hv]
  exact ⟨SamePlace.refl v, fun _ => rfl⟩

theorem Untouched.retries (h : Untouched m) : Retries m := h.retriesAll.1

/-- An assignment that could as well be made again. -/
structure Clears (g : Flat → Flat) : Prop where
  again : ∀ v, g (g v) = g v
  feed : ∀ v b, g (PacketParser.feed v b) = PacketParser.feed (g v) b
  place : ∀ v, SamePlace v (g v)
  bytes : ∀ v, (g v).bufferReader = v.bufferReader

theorem Clears.retriesAll {g : Flat → Flat} (hg : Clears g) {k : Unit → ParseM Bytes Bytes β}
    (hk : Untouched (k ())) : RetriesAll (ParseM.assign g >>= k) := by
  have hv : ∀ v, ((ParseM.assign g >>= k) v).1 = incomplete → ((ParseM.assign g >>= k) v).2 = g v :=
    fun v h => hk (g v) h
  refine ⟨fun v h => ?_, fun v h => by rw [hv v h, hg.bytes]⟩
  rw [hv v h]
  refine ⟨hg.place v, fun b => ?_⟩
  rw [ParseM.assign_bind, ParseM.assign_bind, hg.feed, hg.feed, hg.again]

theorem Clears.retries {g : Flat → Flat} (hg : Clears g) {k : Unit → ParseM Bytes Bytes β}
    (hk : Untouched (k ())) : Retries (ParseM.assign g >>= k) := (hg.retriesAll hk).1

theorem Retries.bind (hm : Retries m) (hf : ∀ a, Sure (f a)) : Retries (m >>= f) := by
  intro v h
  obtain ⟨h1, h2⟩ := bind_incomplete (fun a _ => hf a _) h
  obtain ⟨hp, ha⟩ := hm v h1
  rw [h2]
  refine ⟨hp, fun b => ?_⟩
  show ParseM.bind m f _ = ParseM.bind m f _
  unfold ParseM.bind
  rw [ha b]

theorem peek_bind_retries (n : ℕ) {k : UInt8 → ParseM Bytes Bytes β} (hk : ∀ c, RetriesAll (k c)) :
    Retries (peek n >>= k) := by
  intro v h
  rcases hp : peek n v with ⟨e | c, v'⟩ <;> obtain rfl : v = v' := congrArg Prod.snd hp
  · rw [ParseM.bind_error hp]
    exact ⟨SamePlace.refl v, fun _ => rfl⟩
  · rw [ParseM.bind_ok hp] at h ⊢
    obtain ⟨hplace, hagain⟩ := (hk c).1 v h
    have hbytes := (hk c).2 v h
    have hfeed : ∀ (w : Flat) b, w.bufferReader = v.bufferReader →
        peek n (w.feed b) = (.ok c, w.feed b) := by
      intro w b hw
      have hs := stable_peek n v b (by rw [hp]; simp)
      rw [hp] at hs
      have hc : check (ByteQueue.peek (w.bufferReader ++ b) n).1
          (ByteQueue.peek (w.bufferReader ++ b) n).2 = .ok c := by
        rw [hw]
        exact congrArg Prod.fst hs
      exact Prod.ext hc rfl
    refine ⟨hplace, fun b => ?_⟩
    rw [ParseM.bind_ok (hfeed _ b hbytes), ParseM.bind_ok (hfeed v b rfl), hagain b]

/-! ### The states -/

theorem stable_skip_push {g : Flat → Flat} (hg : ∀ v b, g (feed v b) = feed (g v) b) (n : ℕ)
    (st : ParserState) :
    Stable (do skipBytes n; ParseM.assign g; ParseM.assign (setState st)) :=
  (stable_skipBytes n).bind fun _ => (stable_assign hg).bind fun _ => stable_assign fun _ _ => rfl

theorem stable_message (n : ℕ) (tp : MessageResultType) : Stable (message n tp) :=
  (stable_skipBytes n).bind fun _ => stable_assign fun v b => by
    unfold processMessageResult
    split_ifs <;> rfl

theorem stable_errorLine (e : ErrCode) : Stable (errorLine e) :=
  (stable_readUntil lf).bind fun _ => (stable_skipBytes 1).bind fun _ =>
    (stable_assign fun _ _ => rfl).bind fun _ => (stable_assign fun _ _ => rfl).bind fun _ =>
      stable_stop e

theorem untouched_message (n : ℕ) (tp : MessageResultType) : Untouched (message n tp) :=
  (skipBytes_untouched n).bind fun _ => sure_assign _

theorem untouched_errorLine {e : ErrCode} (he : e ≠ .incompleteBufferErr) :
    Untouched (errorLine e) :=
  (readUntil_leaves lf).bind fun _ => .skip_bind <| .assign_bind <| .assign_bind <| sure_stop he

theorem untouched_skip_push (g : Flat → Flat) (n : ℕ) (st : ParserState) :
    Untouched (do skipBytes n; ParseM.assign g; ParseM.assign (setState st)) :=
  (skipBytes_untouched n).bind fun _ => .assign_bind (sure_assign _)

theorem stable_startV : Stable startV :=
  (stable_peek 1).bind fun _ => .ite (stable_skip_push (fun _ _ => rfl) 6 _) <|
    .ite (stable_skip_push (fun _ _ => rfl) 8 _) (stable_pure _)

theorem stable_startE : Stable startE :=
  (stable_peek 1).bind fun _ => .ite (stable_errorLine _) <|
    .ite ((stable_skipBytes 5).bind fun _ => stable_assign fun _ _ => rfl) <|
    .ite (stable_message 8 _) (stable_pure _)

theorem stable_startS : Stable startS :=
  (stable_peek 2).bind fun _ => (stable_peek 1).bind fun _ =>
    .ite (.ite (stable_message 8 _) (stable_skip_push (fun _ _ => rfl) 5 _)) (stable_errorLine _)

theorem stable_startN : Stable startN :=
  (stable_peek 4).bind fun _ => .ite (stable_message 11 _) <| .ite (stable_message 12 _)
    (stable_pure _)

theorem stable_startState : Stable startState :=
  (stable_peek 0).bind fun _ => .ite stable_startV <| .ite stable_startE <|
    .ite ((stable_message 4 .ok).bind fun _ => stable_assign fun _ _ => rfl) <|
    .ite stable_startS <| .ite (stable_message 9 _) <| .ite stable_startN <|
    .ite (stable_message 9 _) <| .ite (stable_errorLine _) <|
    .ite ((stable_assign fun _ _ => rfl).bind fun _ => stable_assign fun _ _ => rfl)
      (stable_stop _)

theorem untouched_startV : Untouched startV :=
  peek_bind_untouched 1 fun _ => .ite (untouched_skip_push _ 6 _) <|
    .ite (untouched_skip_push _ 8 _) (sure_pure _).untouched

theorem untouched_startE : Untouched startE :=
  peek_bind_untouched 1 fun _ => .ite (untouched_errorLine (by decide)) <|
    .ite ((skipBytes_untouched 5).bind fun _ => sure_assign _) <|
    .ite (untouched_message 8 _) (sure_pure _).untouched

theorem untouched_startS : Untouched startS :=
  peek_bind_untouched 2 fun _ => peek_bind_untouched 1 fun _ =>
    .ite (.ite (untouched_message 8 _) (untouched_skip_push _ 5 _))
      (untouched_errorLine (by decide))

theorem untouched_startN : Untouched startN :=
  peek_bind_untouched 4 fun _ => .ite (untouched_message 11 _) <|
    .ite (untouched_message 12 _) (sure_pure _).untouched

theorem untouched_startState : Untouched startState :=
  peek_bind_untouched 0 fun _ => .ite untouched_startV <| .ite untouched_startE <|
    .ite ((untouched_message 4 .ok).bind fun _ => sure_assign _) <|
    .ite untouched_startS <| .ite (untouched_message 9 _) <| .ite untouched_startN <|
    .ite (untouched_message 9 _) <| .ite (untouched_errorLine (by decide)) <|
    .ite (Sure.assign_bind (sure_assign _)).untouched (sure_stop (by decide)).untouched

theorem modifyLast_modifyLast {γ : Type} {g : γ → γ} (hg : ∀ x, g (g x) = g x) (l : List γ) :
    (l.modifyLast g).modifyLast g = l.modifyLast g := by
  rcases List.eq_nil_or_concat' l with rfl | ⟨l, x, rfl⟩
  · rfl
  · rw [List.modifyLast_concat, List.modifyLast_concat, hg]

theorem modifyLast_ne_nil {γ : Type} {g : γ → γ} {l : List γ} (h : l ≠ []) :
    l.modifyLast g ≠ [] := by
  obtain ⟨l, x, rfl⟩ := (List.eq_nil_or_concat' l).resolve_left h
  rw [List.modifyLast_concat]
  simp

theorem clears_modifyKv {g : RetrievalResult Bytes → RetrievalResult Bytes}
    (hg : ∀ kv, g (g kv) = g kv) : Clears (modifyKv g) where
  again v := by
    unfold modifyKv
    simp only [modifyLast_modifyLast hg]
  feed _ _ := rfl
  place _ := ⟨rfl, rfl, rfl, rfl⟩
  bytes _ := rfl

theorem clears_modifyLine {g : LineResult Bytes → LineResult Bytes}
    (hg : ∀ inner, g (g inner) = g inner) : Clears (modifyLine g) where
  again v := by
    unfold modifyLine
    simp only [modifyLast_modifyLast hg]
  feed _ _ := rfl
  place _ := ⟨rfl, rfl, rfl, rfl⟩
  bytes _ := rfl

theorem clears_modifyUnsigned {g : UnsignedResult → UnsignedResult}
    (hg : ∀ inner, g (g inner) = g inner) : Clears (modifyUnsigned g) where
  again v := by
    unfold modifyUnsigned
    simp only [modifyLast_modifyLast hg]
  feed _ _ := rfl
  place _ := ⟨rfl, rfl, rfl, rfl⟩
  bytes _ := rfl

theorem stable_processLineResult : Stable processLineResult :=
  (stable_assign fun _ _ => rfl).bind fun _ => (stable_readUntil lf).bind fun _ =>
    (stable_assign fun _ _ => rfl).bind fun _ => stable_skipBytes 1

theorem retries_processLineResult : Retries processLineResult :=
  (clears_modifyLine fun _ => by rfl).retries <| (readUntil_leaves lf).bind fun _ =>
    .assign_bind (fun _ => by rfl) settled_skipBytes

theorem stable_getStart : Stable getStart :=
  (stable_assign fun _ _ => rfl).bind fun _ => (stable_readUntil space).bind fun _ =>
    (stable_assign fun _ _ => rfl).bind fun _ => (stable_skipBytes 1).bind fun _ =>
      stable_assign fun _ _ => rfl

theorem retries_getStart : Retries getStart :=
  (clears_modifyKv fun _ => by rfl).retries <| (readUntil_leaves space).bind fun _ =>
    .assign_bind (fun _ => by rfl) <| .skip_bind (sure_assign _)

theorem stable_number (g : ℕ → RetrievalResult Bytes → RetrievalResult Bytes) (st : ParserState) :
    Stable (do let n ← readUnsigned; ParseM.assign (modifyKv (g n)); skipBytes 1
               ParseM.assign (setState st)) :=
  stable_readUnsigned.bind fun _ => (stable_assign fun _ _ => rfl).bind fun _ =>
    (stable_skipBytes 1).bind fun _ => stable_assign fun _ _ => rfl

theorem retries_number (g : ℕ → RetrievalResult Bytes → RetrievalResult Bytes) (st : ParserState) :
    Retries (do let n ← readUnsigned; ParseM.assign (modifyKv (g n)); skipBytes 1
                ParseM.assign (setState st)) :=
  (readUnsigned_leaves.bind fun _ => .assign_bind (fun _ => by rfl) <| .skip_bind <|
    sure_assign _).retries

theorem stable_readCasUnique : Stable readCasUnique :=
  (stable_peek 0).bind fun _ => .ite (stable_assign fun _ _ => rfl) <|
    (stable_assign fun _ _ => rfl).bind fun _ => stable_readUnsigned.bind fun _ =>
      (stable_assign fun _ _ => rfl).bind fun _ => stable_skipBytes 1

theorem RetriesAll.ite {q : Prop} [Decidable q] {k : ParseM Bytes Bytes α} (hm : RetriesAll m)
    (hk : RetriesAll k) : RetriesAll (if q then m else k) := by
  split_ifs
  · exact hm
  · exact hk

theorem retries_readCasUnique : Retries readCasUnique :=
  peek_bind_retries 0 fun _ => .ite (sure_assign _).untouched.retriesAll <|
    (clears_modifyKv fun _ => by rfl).retriesAll <| readUnsigned_leaves.bind fun _ =>
      .assign_bind (fun _ => by rfl) settled_skipBytes

theorem stable_getBytes : Stable getBytes :=
  stable_readCasUnique.bind fun _ => stable_assign fun _ _ => rfl

theorem stable_getCas : Stable getCas :=
  (stable_skipBytes 1).bind fun _ => (stable_assign fun _ _ => rfl).bind fun _ =>
    stable_assign fun _ _ => rfl

theorem wishForBlock_flat (v : Flat) : wishForBlock v = v := by
  unfold wishForBlock
  simp only
  split_ifs <;> rfl

/-- What `readDataBlock` does with a result that is not finished. -/
def fillDataBlock (bytes : ℕ) : ParseM Bytes Bytes Unit := do
  ParseM.assign (modifyKv fun kv => { kv with dataBlock := [] })
  ParseM.assign wishForBlock
  let dataBlock ← readBytes bytes
  ParseM.assign (modifyKv fun kv => { kv with dataBlock := dataBlock, bytesRemain := 0 })

theorem readDataBlock_eq (v : Flat) :
    readDataBlock v = if 0 < v.kv.bytesRemain then fillDataBlock v.kv.bytes v else (.ok (), v) := rfl

theorem kv_modifyKv {g : RetrievalResult Bytes → RetrievalResult Bytes}
    (h : v.retrievalResults ≠ []) : (modifyKv g v).kv = g v.kv := by
  obtain ⟨l, x, hl⟩ := (List.eq_nil_or_concat' v.retrievalResults).resolve_left h
  unfold kv modifyKv
  simp only [hl, List.modifyLast_concat, List.getLast?_concat, Option.getD_some]

theorem results_ne_nil (h : 0 < v.kv.bytesRemain) : v.retrievalResults ≠ [] := by
  intro hnil
  unfold kv at h
  rw [hnil] at h
  exact absurd h (by decide)

theorem stable_fillDataBlock (n : ℕ) : Stable (fillDataBlock n) :=
  (stable_assign fun _ _ => rfl).bind fun _ =>
    (stable_assign fun v b => by rw [wishForBlock_flat, wishForBlock_flat]).bind fun _ =>
      (stable_readBytes n).bind fun _ => stable_assign fun _ _ => rfl

theorem stable_readDataBlock : Stable readDataBlock := by
  intro v b
  rw [readDataBlock_eq, readDataBlock_eq, show (v.feed b).kv = v.kv from rfl]
  split_ifs
  · exact stable_fillDataBlock _ v b
  · exact fun _ => rfl

theorem readBytes_untouched (n : ℕ) : Untouched (readBytes n) := by
  intro v h
  unfold readBytes at *
  simp only [ByteReader.readBytes, ByteQueue.readBytes] at *
  split_ifs at h ⊢
  · cases h
  · rfl
  · cases h

theorem retries_fillDataBlock (n : ℕ) : Retries (fillDataBlock n) := by
  refine (clears_modifyKv fun _ => by rfl).retries fun v h => ?_
  rw [ParseM.assign_bind, wishForBlock_flat] at h ⊢
  exact ((readBytes_untouched n).bind fun _ => sure_assign _) v h

theorem fillDataBlock_incomplete {n : ℕ} (h : (fillDataBlock n v).1 = incomplete) :
    (fillDataBlock n v).2 = modifyKv (fun kv => { kv with dataBlock := [] }) v := by
  unfold fillDataBlock at h ⊢
  rw [ParseM.assign_bind, ParseM.assign_bind, wishForBlock_flat] at h ⊢
  exact (readBytes_untouched n).bind (fun _ => sure_assign _) _ h

/-- A data block that was not all there is read again from the start. -/
theorem retries_readDataBlock : Retries readDataBlock := by
  intro v h
  rw [readDataBlock_eq] at h ⊢
  split_ifs at h ⊢ with hpos
  have hv := fillDataBlock_incomplete h
  obtain ⟨hplace, hagain⟩ := retries_fillDataBlock v.kv.bytes v h
  refine ⟨hplace, fun b => ?_⟩
  have hkv : ((fillDataBlock v.kv.bytes v).2.feed b).kv = { v.kv with dataBlock := [] } := by
    rw [hv]
    exact kv_modifyKv (results_ne_nil hpos)
  rw [readDataBlock_eq, readDataBlock_eq, hkv, show (v.feed b).kv = v.kv from rfl]
  simp only [if_pos hpos]
  exact hagain b

theorem readDataBlock_ok (h : readDataBlock v = (.ok (), v')) :
    SamePlace v v' ∧ v'.kv.bytesRemain = 0 := by
  rw [readDataBlock_eq] at h
  split_ifs at h with hpos
  · unfold fillDataBlock at h
    rw [ParseM.assign_bind, ParseM.assign_bind, wishForBlock_flat] at h
    rcases hr : readBytes v.kv.bytes (modifyKv (fun kv => { kv with dataBlock := [] }) v) with
      ⟨e | td, w⟩
    · rw [ParseM.bind_error hr] at h
      cases h
    · have hplace : SamePlace v w :=
        ⟨(congrArg (·.2.state) hr).symm, (congrArg (·.2.mode) hr).symm,
          (congrArg (·.2.requestKeys) hr).symm, (congrArg (·.2.requestKeyIdx) hr).symm⟩
      have hne : w.retrievalResults ≠ [] := by
        rw [← show _ = w.retrievalResults from congrArg (·.2.retrievalResults) hr]
        exact modifyLast_ne_nil (results_ne_nil hpos)
      rw [ParseM.bind_ok hr, ParseM.assign_apply] at h
      obtain rfl : modifyKv _ w = v' := congrArg Prod.snd h
      refine ⟨⟨hplace.state, hplace.mode, hplace.requestKeys, hplace.requestKeyIdx⟩, ?_⟩
      rw [kv_modifyKv hne]
  · obtain rfl : v = v' := congrArg Prod.snd h
    exact ⟨SamePlace.refl v, by omega⟩

theorem stable_getValueRemaining : Stable getValueRemaining :=
  stable_readDataBlock.bind fun _ => (stable_skipBytes 2).bind fun _ => stable_assign fun _ _ => rfl

/-- A call that stopped after the data block goes on after it. -/
theorem retries_getValueRemaining : Retries getValueRemaining := by
  intro v h
  rcases hd : readDataBlock v with ⟨e | _, w⟩
  · have hinc : (readDataBlock v).1 = incomplete := by
      unfold getValueRemaining at h
      rw [ParseM.bind_error hd] at h
      rw [hd]
      exact h
    obtain ⟨hplace, hagain⟩ := retries_readDataBlock v hinc
    unfold getValueRemaining
    rw [ParseM.bind_error hd]
    rw [hd] at hplace hagain
    refine ⟨hplace, fun b => ?_⟩
    show ParseM.bind _ _ _ = ParseM.bind _ _ _
    unfold ParseM.bind
    rw [hagain b]
  · obtain ⟨hplace, hremain⟩ := readDataBlock_ok hd
    have hskip := (skipBytes_untouched 2).bind (f := fun _ => ParseM.assign (setState .start))
      (fun _ => sure_assign _) w
    unfold getValueRemaining at h ⊢
    rw [ParseM.bind_ok hd] at h ⊢
    rw [hskip h]
    refine ⟨hplace, fun b => ?_⟩
    have h1 : readDataBlock (v.feed b) = (.ok (), w.feed b) := by
      rw [stable_readDataBlock v b (by rw [hd]; simp), hd]
    have h2 : readDataBlock (w.feed b) = (.ok (), w.feed b) := by
      rw [readDataBlock_eq, show (w.feed b).kv = w.kv from rfl, if_neg (by omega)]
    rw [ParseM.bind_ok h1, ParseM.bind_ok h2]

theorem stable_incrDecrStart : Stable incrDecrStart :=
  (stable_assign fun _ _ => rfl).bind fun _ => stable_readUnsigned.bind fun _ =>
    (stable_assign fun _ _ => rfl).bind fun _ => (stable_skipBytes 1).bind fun _ =>
      (stable_assign fun _ _ => rfl).bind fun _ => stable_assign fun _ _ => rfl

theorem retries_incrDecrStart : Retries incrDecrStart :=
  (clears_modifyUnsigned fun _ => by rfl).retries <| readUnsigned_leaves.bind fun _ =>
    .assign_bind (fun _ => by rfl) <| .skip_bind <| .assign_bind <| sure_assign _

theorem stable_incrDecrRemaining : Stable incrDecrRemaining :=
  (stable_skipUntil lf).bind fun _ => (stable_skipBytes 1).bind fun _ =>
    (stable_assign fun _ _ => rfl).bind fun _ => stable_assign fun _ _ => rfl

theorem retries_incrDecrRemaining : Retries incrDecrRemaining :=
  ((skipUntil_leaves lf).bind fun _ => .skip_bind <| .assign_bind <| sure_assign _).retries

/-- More bytes do not change what a state does with enough of them. -/
theorem stable_stateAction (st : ParserState) : Stable (stateAction st) := by
  cases st with
  | start => exact stable_startState
  | end_ => exact stable_pure ()
  | error => exact stable_pure ()
  | getStart => exact stable_getStart
  | getKey => exact stable_number _ _
  | getFlags => exact stable_number _ _
  | getBytes => exact stable_getBytes
  | getCas => exact stable_getCas
  | getValueRemaining => exact stable_getValueRemaining
  | verStart => exact stable_processLineResult.bind fun _ => stable_assign fun _ _ => rfl
  | statStart => exact stable_processLineResult.bind fun _ => stable_assign fun _ _ => rfl
  | incrDecrStart => exact stable_incrDecrStart
  | incrDecrRemaining => exact stable_incrDecrRemaining

theorem retries_stateAction (st : ParserState) : Retries (stateAction st) := by
  cases st with
  | start => exact untouched_startState.retries
  | end_ => exact (sure_pure ()).untouched.retries
  | error => exact (sure_pure ()).untouched.retries
  | getStart => exact retries_getStart
  | getKey => exact retries_number _ _
  | getFlags => exact retries_number _ _
  | getBytes => exact retries_readCasUnique.bind fun _ => sure_assign _
  | getCas =>
    exact ((skipBytes_untouched 1).bind fun _ => .assign_bind <| sure_assign _).retries
  | getValueRemaining => exact retries_getValueRemaining
  | verStart => exact retries_processLineResult.bind fun _ => sure_assign _
  | statStart => exact retries_processLineResult.bind fun _ => sure_assign _
  | incrDecrStart => exact retries_incrDecrStart
  | incrDecrRemaining => exact retries_incrDecrRemaining

/-! ### The parser as a machine -/

/-- `process_packets` over bytes, with more bytes before each call. -/
def flatMachine : Incremental Flat UInt8 ErrCode := ⟨feed, enter, body, .incompleteBufferErr⟩

/-- `process_packets` over blocks, with a `BufferReader::write` before each call. -/
def machine (minCapacity : ℕ) : Incremental Blocks UInt8 ErrCode where
  feed p bs := { p with bufferReader := p.bufferReader.write minCapacity bs }
  enter := enter
  body := body
  more := .incompleteBufferErr

theorem body_of_canEndParse (h : v.canEndParse = true) : body v = .inr (.ok, v) := by
  unfold body
  rw [if_pos h]

theorem body_eq (h : v.canEndParse = false) : body v = goOn (stateAction v.state v) := by
  unfold body
  rw [h]
  rfl

theorem SamePlace.canEndParse (h : SamePlace v v') : v'.canEndParse = v.canEndParse := by
  unfold PacketParser.canEndParse
  rw [h.state, h.mode, h.requestKeys, h.requestKeyIdx]

theorem feed_enter (v : Flat) (b : Bytes) : (v.feed b).enter = v.enter.feed b := by
  unfold enter
  rw [show (v.feed b).state = v.state from rfl]
  split_ifs <;> rfl

/-- A call that runs out of bytes does so in a state that reads. -/
theorem body_more (h : body v = .inr (.incompleteBufferErr, v')) :
    v.canEndParse = false ∧ stateAction v.state v = (incomplete, v') := by
  rcases hend : v.canEndParse with _ | _
  · rw [body_eq hend] at h
    rcases hs : stateAction v.state v with ⟨e | _, w⟩ <;> rw [hs] at h
    · obtain ⟨rfl, rfl⟩ := Prod.mk.inj (Sum.inr.inj h)
      exact ⟨rfl, rfl⟩
    · cases h
  · rw [body_of_canEndParse hend] at h
    cases h

/-- The parser over bytes can be fed in pieces. -/
theorem flatMachine_resumable : flatMachine.Resumable where
  feed_nil v := by
    show feed v [] = v
    unfold feed
    rw [List.append_nil]
  feed_append v b c := by
    show feed (feed v b) c = feed v (b ++ c)
    unfold feed
    simp only [List.append_assoc]
  enter_feed := feed_enter
  round {v v'} b h := by
    show body (v.feed b) = .inl (v'.feed b)
    rcases hend : v.canEndParse with _ | _
    · rw [show flatMachine.body v = body v from rfl, body_eq hend] at h
      rw [body_eq (v := v.feed b) hend]
      have hs := stable_stateAction v.state v b
      rcases hv : stateAction v.state v with ⟨e | _, w⟩ <;> rw [hv] at h hs
      · cases h
      · obtain rfl := Sum.inl.inj h
        rw [show (v.feed b).state = v.state from rfl, hs (by simp)]
        rfl
    · rw [show flatMachine.body v = body v from rfl, body_of_canEndParse hend] at h
      cases h
  final {v e v'} b h he := by
    show body (v.feed b) = .inr (e, v'.feed b)
    rcases hend : v.canEndParse with _ | _
    · rw [show flatMachine.body v = body v from rfl, body_eq hend] at h
      rw [body_eq (v := v.feed b) hend]
      have hs := stable_stateAction v.state v b
      rcases hv : stateAction v.state v with ⟨e' | _, w⟩ <;> rw [hv] at h hs
      · obtain ⟨rfl, rfl⟩ := Prod.mk.inj (Sum.inr.inj h)
        rw [show (v.feed b).state = v.state from rfl, hs fun hc => he (Except.error.inj hc)]
        rfl
      · cases h
    · rw [show flatMachine.body v = body v from rfl, body_of_canEndParse hend] at h
      obtain ⟨rfl, rfl⟩ := Prod.mk.inj (Sum.inr.inj h)
      exact body_of_canEndParse hend
  resume {v v'} b h := by
    obtain ⟨hend, hs⟩ := body_more h
    have hr := retries_stateAction v.state v (by rw [hs])
    rw [hs] at hr
    obtain ⟨hplace, hagain⟩ := hr
    have hend' : (v'.feed b).canEndParse = false := (hplace.canEndParse).trans hend
    show body (v'.feed b) = body (v.feed b)
    rw [body_eq hend', body_eq (v := v.feed b) hend, show (v'.feed b).state = v.state from hplace.state,
      hagain b]
    rfl
  enter_more {v v'} h := by
    obtain ⟨-, hs⟩ := body_more h
    have hr := retries_stateAction v.state v (by rw [hs])
    rw [hs] at hr
    have hstate : v'.state.isEndState = false := by
      rw [hr.1.state]
      cases hst : v.state with
      | end_ =>
        rw [hst] at hs
        cases hs
      | error =>
        rw [hst] at hs
        cases hs
      | _ => rfl
    show enter v' = v'
    unfold enter
    rw [hstate]
    rfl

theorem machine_call (p : Blocks) (h : p.Ok) (cap n : ℕ) :
    flatMachine.call n p.view = ((machine cap).call n p).map (Prod.map id view) := by
  show Loop.run body n p.view.enter = (Loop.run body n p.enter).map _
  rw [← view_enter, run_view h.enter]

theorem machine_feed (p : Blocks) (h : p.Ok) (cap : ℕ) (bs : Bytes) :
    p.view.feed bs = ((machine cap).feed p bs).view ∧ ((machine cap).feed p bs).Ok := by
  have hw := BufferReader.write_writes h.wf cap bs
  exact ⟨(view_writes h hw).symm, h.writes hw⟩

theorem machine_feedPieces {p : Blocks} (h : p.Ok) (cap n : ℕ) (cs : List Bytes) :
    flatMachine.feedPieces n p.view cs =
      ((machine cap).feedPieces n p cs).map (Prod.map id (Prod.map view id)) :=
  Incremental.feedPieces_map (M := machine cap) (N := flatMachine) (I := Ok) rfl
    (fun p bs h => machine_feed p h cap bs) (fun p h => machine_call p h cap n)
    (fun p e q h hr => h.enter.run (show Loop.run body n p.enter = some (e, q) from hr)) h cs

theorem machine_feedPieces_ok {p q : Blocks} (h : p.Ok) {cap n : ℕ} {e : ErrCode}
    {cs rest : List Bytes} (hr : (machine cap).feedPieces n p cs = some (e, q, rest)) : q.Ok :=
  Incremental.feedPieces_invariant (M := machine cap) (I := Ok)
    (fun p bs h => (machine_feed p h cap bs).2)
    (fun p e q h hr => h.enter.run (show Loop.run body n p.enter = some (e, q) from hr)) h hr

/-- What a call on all the bytes returns, feeding them in pieces over blocks returns. -/
theorem feedPieces_of_returns {p : Blocks} (h : p.Ok) {chunks : List Bytes} (hne : chunks ≠ [])
    (cap : ℕ) {e : ErrCode} {w : Flat} (hret : (p.view.feed chunks.flatten).Returns (e, w)) :
    ∃ n q rest, (machine cap).feedPieces n p chunks = some (e, q, rest) ∧ q.Ok ∧
      q.view.feed rest.flatten = w := by
  obtain ⟨n, hn⟩ := hret
  obtain ⟨t, rest, hpieces, ht⟩ := flatMachine_resumable.feedPieces_of_whole hne hn
  rw [machine_feedPieces h cap] at hpieces
  obtain ⟨⟨e', q, rest'⟩, hq, heq⟩ := Option.map_eq_some_iff.1 hpieces
  obtain ⟨rfl, hrest⟩ := Prod.mk.inj heq
  obtain ⟨rfl, rfl⟩ := Prod.mk.inj hrest
  exact ⟨n, q, rest', hq, machine_feedPieces_ok h hq, ht.symm⟩

/-- A parser on a new connection. -/
def fresh (keys : List Bytes) (mode : ParserMode) : Blocks :=
  { requestKeys := keys, bufferReader := {}, mode := mode }

theorem fresh_ok (keys : List Bytes) (mode : ParserMode) : (fresh keys mode).Ok :=
  ⟨BufferReader.wf_default, fun _ h => absurd h List.not_mem_nil,
    fun _ h => absurd h List.not_mem_nil⟩

/-- **The parser does not depend on how the bytes arrive.** If `process_packets` returns on the
whole input written at once, then fed in pieces it ends with the same code, and with the same state
and results and, once the pieces not written are put back, the same unread bytes. -/
theorem process_packets_chunks (keys : List Bytes) (mode : ParserMode) (minCapacity : ℕ)
    (chunks : List Bytes) (hne : chunks ≠ []) {e : ErrCode} {q : Blocks}
    (h : ((machine minCapacity).feed (fresh keys mode) chunks.flatten).Returns (e, q)) :
    ∃ n q' rest, (machine minCapacity).feedPieces n (fresh keys mode) chunks = some (e, q', rest) ∧
      q'.view.feed rest.flatten = q.view := by
  obtain ⟨hfeed, hfok⟩ := machine_feed _ (fresh_ok keys mode) minCapacity chunks.flatten
  have hwhole : ((fresh keys mode).view.feed chunks.flatten).Returns (e, q.view) := by
    rw [hfeed]
    exact (returns_view hfok (e, q.view)).2 ⟨q, h, hfok.enter.run h.choose_spec, rfl⟩
  obtain ⟨n, q', rest, hpieces, -, hq⟩ :=
    feedPieces_of_returns (fresh_ok keys mode) hne minCapacity hwhole
  exact ⟨n, q', rest, hpieces, hq⟩

theorem process_packets_chunks_end :
    ∃ n q' rest, (machine 4).feedPieces n (fresh [] .endState) [[69, 78], [68, 13, 10]] =
        some (.ok, q', rest) ∧
      q'.view.feed rest.flatten = { bufferReader := [], state := .end_, mode := .endState } :=
  process_packets_chunks [] .endState 4 [[69, 78], [68, 13, 10]] (by decide) ⟨2, rfl⟩

end PacketParser

end Libmc
