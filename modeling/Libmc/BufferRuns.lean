import Mathlib.Data.FinEnum
import Libmc.BufferWrite
import Libmc.Support.Run

/-!
# The buffer reader as a queue of bytes

Whatever is written to a `BufferReader` and read from it, its blocks cannot be told from the plain
list of the unread bytes: the operations answer as the same operations on the list do, and leave the
list that these leave (`exec_unread`), in every run from a new reader (`run_unread`).
-/

namespace Libmc

/-- A call on the buffer reader. The bytes of `commitWrite` are put at `getWritePtr` after the call
of `prepareWriteBlock` that it follows. -/
inductive BufferOp
  | write (bs : Bytes)
  | prepareWriteBlock (len : ℕ)
  | commitWrite (len : ℕ) (bs : Bytes)
  | peek (offset : ℕ)
  | readUntil (value : UInt8)
  | skipUntil (value : UInt8)
  | readUnsigned
  | readBytes (len : ℕ)
  | skipBytes (len : ℕ)
  | expectBytes (str : Bytes)
  deriving DecidableEq, Repr

/-- What a call gives back: the code, the byte, number or count, and the bytes of the token. -/
structure BufferAnswer where
  err : ErrCode := .ok
  value : ℕ := 0
  token : Bytes := []
  deriving DecidableEq, Repr

namespace ByteQueue

variable {q q' str : Bytes}

def expectBytes (q str : Bytes) : ErrCode × Bytes :=
  if str.length > q.length then (.incompleteBufferErr, q)
  else if str <+: q then (.ok, q.drop str.length)
  else (.programmingErr, q)

/-- The number that the leading digits stand for, once they have ended. -/
def number (q : Bytes) : ErrCode × ℕ × Bytes :=
  if q.length < 2 then (.incompleteBufferErr, 0, q)
  else if q.takeWhile isDigit = [] then (.programmingErr, 0, q)
  else if ∀ c ∈ q, isDigit c then (.incompleteBufferErr, 0, q)
  else (.ok, Decimal.value (q.takeWhile isDigit) % 2 ^ 64, q.dropWhile isDigit)

theorem readUnsigned_eq (q : Bytes) : readUnsigned q = number q := by
  unfold readUnsigned number
  simp only [← List.dropWhile_eq_nil_iff]
  split_ifs
  · rfl
  · rfl
  · rfl
  · exact congrArg (fun n => (ErrCode.ok, n, _)) (foldDigits_mod 0 _)

def exec (q : Bytes) : BufferOp → BufferAnswer × Bytes
  | .write bs => ({}, q ++ bs)
  | .prepareWriteBlock _ => ({}, q)
  | .commitWrite _ bs => ({}, q ++ bs)
  | .peek offset =>
    let (err, c) := peek q offset
    ({ err, value := c.toNat }, q)
  | .readUntil value =>
    let (err, value, token, q) := readUntil q value
    ({ err, value, token }, q)
  | .skipUntil value =>
    let (err, value, q) := skipUntil q value
    ({ err, value }, q)
  | .readUnsigned =>
    let (err, value, q) := number q
    ({ err, value }, q)
  | .readBytes len =>
    let (err, token, q) := readBytes q len
    ({ err, token }, q)
  | .skipBytes len =>
    let (err, q) := skipBytes q len
    ({ err }, q)
  | .expectBytes str =>
    let (err, q) := expectBytes q str
    ({ err }, q)

def Does (q : Bytes) (ev : BufferOp × BufferAnswer) (q' : Bytes) : Prop := exec q ev.1 = (ev.2, q')

/-- An error leaves the queue as it is. -/
theorem exec_error (q : Bytes) (op : BufferOp) (h : (exec q op).1.err ≠ .ok) :
    (exec q op).2 = q := by
  cases op with
  | write => exact absurd rfl h
  | prepareWriteBlock => exact absurd rfl h
  | commitWrite => exact absurd rfl h
  | peek => rfl
  | readUntil value =>
    simp only [exec, readUntil] at h ⊢
    split_ifs at h ⊢
    · exact absurd rfl h
    · rfl
  | skipUntil value =>
    simp only [exec, skipUntil] at h ⊢
    split_ifs at h ⊢
    · exact absurd rfl h
    · rfl
  | readUnsigned =>
    simp only [exec, number] at h ⊢
    split_ifs at h ⊢
    · rfl
    · rfl
    · rfl
    · exact absurd rfl h
  | readBytes len =>
    simp only [exec, readBytes] at h ⊢
    split_ifs at h ⊢
    · rfl
    · rfl
    · exact absurd rfl h
  | skipBytes len =>
    simp only [exec, skipBytes] at h ⊢
    split_ifs at h ⊢
    · rfl
    · exact absurd rfl h
  | expectBytes str =>
    simp only [exec, expectBytes] at h ⊢
    split_ifs at h ⊢
    · rfl
    · exact absurd rfl h
    · rfl

end ByteQueue

namespace BufferReader

variable {r r' : BufferReader} {blocks bl : List DataBlock} {cur : DataCursor} {str : Bytes}
  {w cap len : ℕ}

/-- A call on the blocks. A token is looked up after the call. -/
def exec (minCapacity : ℕ) (r : BufferReader) : BufferOp → BufferAnswer × BufferReader
  | .write bs => ({}, r.write minCapacity bs)
  | .prepareWriteBlock len => ({}, (r.prepareWriteBlock minCapacity len).2)
  | .commitWrite len bs => ({}, (r.prepareWriteBlock minCapacity len).2.commitWrite bs)
  | .peek offset =>
    let (err, c) := r.peek offset
    ({ err, value := c.toNat }, r)
  | .readUntil value =>
    let (err, value, td, r) := r.readUntil value
    ({ err, value, token := tokenBytes r.dataBlockList td }, r)
  | .skipUntil value =>
    let (err, value, r) := r.skipUntil value
    ({ err, value }, r)
  | .readUnsigned =>
    let (err, value, r) := r.readUnsigned
    ({ err, value }, r)
  | .readBytes len =>
    let (err, td, r) := r.readBytes len
    ({ err, token := tokenBytes r.dataBlockList td }, r)
  | .skipBytes len =>
    let (err, r) := r.skipBytes len
    ({ err }, r)
  | .expectBytes str =>
    let (err, r) := r.expectBytes str
    ({ err }, r)

/-- What a caller has to see to: no more is committed than there is room for, and what is expected
comes. -/
def Fits (minCapacity : ℕ) (r : BufferReader) : BufferOp → Prop
  | .commitWrite len bs => bs.length ≤ (r.prepareWriteBlock minCapacity len).1
  | .expectBytes str => str.length ≤ r.readLeft → str <+: r.unread
  | _ => True

/-- A call with its answer. -/
def Does (minCapacity : ℕ) (r : BufferReader) (ev : BufferOp × BufferAnswer) (r' : BufferReader) :
    Prop :=
  r.Fits minCapacity ev.1 ∧ r.exec minCapacity ev.1 = (ev.2, r')

theorem does_exec (op : BufferOp) (hfits : r.Fits cap op) :
    Does cap r (op, (r.exec cap op).1) (r.exec cap op).2 := ⟨hfits, rfl⟩

/-! ### Writing nothing -/

theorem commitWrite_nil (hroom : 0 < r.writeBlock.getWriteLeft) :
    r.commitWrite [] = r := by
  have hocc : (fun b : DataBlock => b.occupy []) = id := by
    funext b
    simp [DataBlock.occupy]
  have hne : r.writeBlock.size ≠ r.writeBlock.capacity := by
    unfold DataBlock.getWriteLeft at hroom
    omega
  unfold commitWrite
  simp only [hocc, congrFun hocc r.writeBlock, List.modify_id, id_eq, List.length_nil, Nat.add_zero,
    if_neg hne]

/-! ### What is expected -/

theorem strncmpEq_append (u s t : Bytes) : strncmpEq u.length (u ++ s) (u ++ t) = true := by
  induction u with
  | nil => rfl
  | cons c u ih => simp [strncmpEq, ih]

theorem expectLoop_eq (hd : Dense blocks w) (hw : blocks.length ≤ w + 1)
    (h : blocks.drop cur.iterator = bl) (hc : CursorOk blocks cur)
    (hstr : str <+: unreadAt blocks cur) :
    expectLoop bl cur str = (.ok, slicesFor bl cur str.length) := by
  induction bl generalizing cur str with
  | nil => rfl
  | cons b bl ih =>
    obtain ⟨hb, hdrop⟩ := drop_eq_cons_iff.1 h
    have hu := unreadAt_cons h (hc.offset_le b hb)
    have hsize : (b.data.drop cur.offset).length = b.size - cur.offset := List.length_drop
    rw [hu] at hstr
    unfold expectLoop slicesFor
    by_cases h0 : str.length = 0
    · rw [if_pos h0, if_pos h0]
    rw [if_neg h0, if_neg h0]
    by_cases hin : str.length < b.size - cur.offset
    · -- the block goes on after the string
      obtain ⟨t, ht⟩ := List.prefix_of_prefix_length_le hstr (List.prefix_append _ _)
        (hsize.symm ▸ hin.le)
      have hcmp : strncmpEq str.length (b.data.drop cur.offset) str = true := by
        have := strncmpEq_append str t []
        rwa [ht, List.append_nil] at this
      rw [if_pos hin, if_pos hin, if_pos hcmp]
    · obtain ⟨t, rfl⟩ := List.prefix_of_prefix_length_le (List.prefix_append _ _) hstr
        (hsize.symm ▸ Nat.le_of_not_lt hin)
      have hcmp := strncmpEq_append (b.data.drop cur.offset) [] t
      rw [List.append_nil, hsize] at hcmp
      have hrest := ih hdrop (hd.cursorOk hw (lt_of_drop_eq_cons h))
        ((List.prefix_append_right_inj _).1 hstr)
      have hdropt : (b.data.drop cur.offset ++ t).drop (b.size - cur.offset) = t := by
        rw [← hsize, List.drop_left]
      have hlen : (b.data.drop cur.offset ++ t).length - (b.size - cur.offset) = t.length := by
        rw [List.length_append, hsize]
        omega
      rw [if_neg hin, if_neg hin, if_pos hcmp, hdropt, hrest, hlen]

theorem expectBytes_eq (h : Wf r) (hstr : str.length ≤ r.readLeft → str <+: r.unread) :
    r.expectBytes str = r.skipBytes str.length := by
  unfold expectBytes skipBytes
  by_cases hlt : str.length > r.readLeft
  · rw [if_pos hlt, if_pos hlt]
  · have heq : expectLoop r.blocksLeft r.blockReadCursor str =
        (.ok, slicesFor r.blocksLeft r.blockReadCursor str.length) :=
      expectLoop_eq h.dense h.write_last rfl h.cursor (hstr (Nat.le_of_not_lt hlt))
    rw [if_neg hlt, if_neg hlt, heq]

theorem expectBytes_queue (h : Wf r) (hstr : str.length ≤ r.readLeft → str <+: r.unread) :
    ByteQueue.expectBytes r.unread str = ByteQueue.skipBytes r.unread str.length := by
  unfold ByteQueue.expectBytes ByteQueue.skipBytes
  by_cases hlt : str.length > r.unread.length
  · rw [if_pos hlt, if_pos hlt]
  · rw [if_neg hlt, if_neg hlt, if_pos (hstr (h.readLeft_eq ▸ Nat.le_of_not_lt hlt))]

/-! ### One call -/

/-- **A call answers as it does on the unread bytes**, and leaves what is unread then. -/
theorem exec_unread (h : Wf r) (hcap : 0 < cap) (op : BufferOp) (hfits : r.Fits cap op) :
    Wf (r.exec cap op).2 ∧
      ByteQueue.exec r.unread op = ((r.exec cap op).1, (r.exec cap op).2.unread) := by
  cases op with
  | write bs =>
    have hwrites := write_writes h cap bs
    exact ⟨hwrites.wf, congrArg (Prod.mk _) hwrites.unread_eq.symm⟩
  | prepareWriteBlock len =>
    obtain ⟨hwrites, -, -⟩ := prepareWriteBlock_room h (lt_of_lt_of_le hcap (le_max_right len cap))
    have hunread := hwrites.unread_eq.trans (List.append_nil _)
    exact ⟨hwrites.wf, congrArg (Prod.mk _) hunread.symm⟩
  | commitWrite len bs =>
    obtain ⟨hwrites, hprep, hroom⟩ :=
      prepareWriteBlock_room h (lt_of_lt_of_le hcap (le_max_right len cap))
    have hcommit : Writes r bs ((r.prepareWriteBlock cap len).2.commitWrite bs) := by
      by_cases hbs : bs = []
      · rw [hbs, commitWrite_nil hroom]
        exact hwrites
      · exact hwrites.trans (commitWrite_writes hprep hbs (hfits.trans (min_le_right _ _)))
    exact ⟨hcommit.wf, congrArg (Prod.mk _) hcommit.unread_eq.symm⟩
  | peek offset =>
    refine ⟨h, ?_⟩
    simp only [exec, ByteQueue.exec, peek_unread h]
  | readUntil value =>
    obtain ⟨e, n, td, r', heq, hqueue, hreads, -⟩ := readUntil_unread h value
    simp only [exec, ByteQueue.exec, heq, hqueue, tokenBytes_congr hreads.datas_eq]
    exact ⟨hreads.wf, trivial⟩
  | skipUntil value =>
    obtain ⟨e, n, r', heq, hqueue, hreads⟩ := skipUntil_unread h value
    simp only [exec, ByteQueue.exec, heq, hqueue]
    exact ⟨hreads.wf, trivial⟩
  | readUnsigned =>
    obtain ⟨e, n, r', heq, hqueue, hreads⟩ := readUnsigned_unread h
    rw [ByteQueue.readUnsigned_eq] at hqueue
    simp only [exec, ByteQueue.exec, heq, hqueue]
    exact ⟨hreads.wf, trivial⟩
  | readBytes len =>
    obtain ⟨e, td, r', heq, hqueue, hreads, -⟩ := readBytes_unread h len
    simp only [exec, ByteQueue.exec, heq, hqueue, tokenBytes_congr hreads.datas_eq]
    exact ⟨hreads.wf, trivial⟩
  | skipBytes len =>
    obtain ⟨e, r', heq, hqueue, hreads⟩ := skipBytes_unread h len
    simp only [exec, ByteQueue.exec, heq, hqueue]
    exact ⟨hreads.wf, trivial⟩
  | expectBytes str =>
    obtain ⟨e, r', heq, hqueue, hreads⟩ := skipBytes_unread h str.length
    simp only [exec, ByteQueue.exec, expectBytes_eq h hfits, expectBytes_queue h hfits, heq, hqueue]
    exact ⟨hreads.wf, trivial⟩

theorem Does.unread (h : Wf r) (hcap : 0 < cap) {ev : BufferOp × BufferAnswer}
    (hdoes : Does cap r ev r') : Wf r' ∧ ByteQueue.Does r.unread ev r'.unread := by
  obtain ⟨hfits, heq⟩ := hdoes
  have := exec_unread h hcap ev.1 hfits
  rwa [heq] at this

/-! ### Runs -/

/-- **The buffer reader is a queue of bytes.** In every run from a new reader the answers are those
of a run on the list of the unread bytes, from the empty list; an error leaves the list as it is, and
`readLeft` is its length. -/
theorem run_unread (hcap : 0 < cap) {tr : List (Transition BufferReader (BufferOp × BufferAnswer))}
    (hrun : Run (Does cap) {} tr r) :
    Run ByteQueue.Does [] (tr.map (.map unread)) r.unread ∧
      ∀ t ∈ tr, t.after.readLeft = t.after.unread.length ∧
        (t.event.2.err ≠ .ok → t.after.unread = t.before.unread) := by
  have hstep : ∀ r ev r', Wf r → Does cap r ev r' → Wf r' ∧ ByteQueue.Does r.unread ev r'.unread :=
    fun _ _ _ hwf hdoes => hdoes.unread hwf hcap
  refine ⟨hrun.map wf_default hstep, ?_⟩
  refine hrun.forall_of (C := fun _ _ => True) wf_default (fun r ev r' hwf hdoes _ => ?_)
    fun _ _ => trivial
  obtain ⟨hwf', hqueue⟩ := hstep r ev r' hwf hdoes
  refine ⟨hwf', hwf'.readLeft_eq, fun herr => ?_⟩
  have herror := ByteQueue.exec_error r.unread ev.1
  rw [hqueue] at herror
  exact herror herr

/-- A number that lies in two blocks of three bytes, and is there once its terminator is. -/
theorem run_unread_number : ∃ tr r, Run (Does 3) {} tr r ∧
    tr.map (·.event) = [(.write (ascii "ab"), {}), (.write (ascii "12"), {}),
      (.readUntil 49, { value := 2, token := ascii "ab" }),
      (.readUnsigned, { err := .incompleteBufferErr }), (.commitWrite 5 (ascii "\r\n"), {}),
      (.readUnsigned, { value := 12 }), (.expectBytes (ascii "\r"), {})] ∧
    Run ByteQueue.Does [] (tr.map (.map unread)) (ascii "\n") := by
  have hrun := (((((((Run.nil : Run (Does 3) {} [] {}).snoc
    (does_exec (.write (ascii "ab")) trivial)).snoc (does_exec (.write (ascii "12")) trivial)).snoc
    (does_exec (.readUntil 49) trivial)).snoc (does_exec .readUnsigned trivial)).snoc
    (does_exec (.commitWrite 5 (ascii "\r\n")) (Nat.le_refl 2))).snoc
    (does_exec .readUnsigned trivial)).snoc
    (does_exec (.expectBytes (ascii "\r")) fun _ => ⟨ascii "\n", rfl⟩)
  exact ⟨_, _, hrun, by decide, (run_unread (by decide) hrun).1⟩

end BufferReader

end Libmc
