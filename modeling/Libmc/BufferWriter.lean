import Libmc.Itoa

/-!
# The buffer writer

A request is a list of buffers, sent with `sendmsg`. The writer has an index of the next buffer and
the number of buffers left. A buffer that was sent in part is cut in place, after the list has been
saved; `rewind` puts the saved list back. What is left to send and the whole request are byte
strings: a commit drops what was sent from the first (`Wf.commitRead`), and rewinding makes it the
second again (`Wf.rewind`).
-/

namespace Libmc

/-- `BufferWriter`; an `iovec` is the bytes it points to. -/
structure BufferWriter where
  iovec : List Bytes := []
  originalIovec : List Bytes := []
  readIdx : ℕ := 0
  msgIovlen : ℕ := 0
  deriving DecidableEq, Repr

namespace BufferWriter

/-- `BufferWriter::reset`. -/
def reset (_ : BufferWriter) : BufferWriter := {}

/-- `BufferWriter::takeBuffer`. -/
def takeBuffer (w : BufferWriter) (buf : Bytes) : BufferWriter :=
  { w with iovec := w.iovec ++ [buf], msgIovlen := w.msgIovlen + 1 }

/-- `BufferWriter::takeNumber`. -/
def takeNumber (w : BufferWriter) (val : Int64) : BufferWriter := w.takeBuffer (int64ToCharArray val)

/-- `BufferWriter::getReadPtr`, with the buffers behind the pointer. -/
def getReadPtr (w : BufferWriter) : List Bytes := (w.iovec.drop w.readIdx).take w.msgIovlen

/-- The loop of `commitRead`: `m_msgIovlen`, `m_readIdx` and `nSent`. -/
def passBuffers (iovec : List Bytes) : ℕ → ℕ → ℕ → ℕ × ℕ × ℕ
  | 0, readIdx, nSent => (0, readIdx, nSent)
  | msgIovlen + 1, readIdx, nSent =>
    let len := (iovec.getD readIdx []).length
    if len ≤ nSent then passBuffers iovec msgIovlen (readIdx + 1) (nSent - len)
    else (msgIovlen + 1, readIdx, nSent)

/-- `BufferWriter::commitRead`. -/
def commitRead (w : BufferWriter) (nSent : ℕ) : BufferWriter :=
  let (msgIovlen, readIdx, nSent) := passBuffers w.iovec w.msgIovlen w.readIdx nSent
  if 0 < nSent then
    { iovec := w.iovec.modify readIdx (·.drop nSent)
      originalIovec := if w.originalIovec = [] then w.iovec else w.originalIovec
      readIdx, msgIovlen }
  else { w with readIdx, msgIovlen }

/-- `BufferWriter::rewind`. -/
def rewind (w : BufferWriter) : BufferWriter :=
  { w with
    readIdx := 0
    msgIovlen := w.iovec.length
    iovec := if w.originalIovec = [] then w.iovec else w.originalIovec }

/-- `BufferWriter::isRead`. -/
def isRead (w : BufferWriter) : Bool := w.readIdx ≠ 0

/-! ### What is left of the request -/

def unread (w : BufferWriter) : Bytes := w.getReadPtr.flatten

/-- The bytes of the whole request. -/
def request (w : BufferWriter) : Bytes :=
  (if w.originalIovec = [] then w.iovec else w.originalIovec).flatten

structure Wf (w : BufferWriter) : Prop where
  length_eq : w.readIdx + w.msgIovlen = w.iovec.length
  original_length : w.originalIovec ≠ [] → w.originalIovec.length = w.iovec.length
  suffix : w.unread <:+ w.request
  pos : 0 < w.iovec.length

variable {w : BufferWriter} {iovec : List Bytes} {n i s : ℕ} {buf bs : Bytes}

theorem unread_eq (h : w.readIdx + w.msgIovlen = w.iovec.length) :
    w.unread = (w.iovec.drop w.readIdx).flatten := by
  unfold unread getReadPtr
  rw [List.take_of_length_le]
  rw [List.length_drop]
  omega

/-- A writer that has taken buffers, and sent none of them. -/
structure Loaded (w : BufferWriter) (bs : Bytes) : Prop where
  flatten_eq : w.iovec.flatten = bs
  length_eq : w.msgIovlen = w.iovec.length
  readIdx_eq : w.readIdx = 0
  original_eq : w.originalIovec = []

theorem loaded_reset (w : BufferWriter) : Loaded w.reset [] := ⟨rfl, rfl, rfl, rfl⟩

theorem Loaded.takeBuffer (h : Loaded w bs) (buf : Bytes) : Loaded (w.takeBuffer buf) (bs ++ buf) where
  flatten_eq := by
    show (w.iovec ++ [buf]).flatten = _
    rw [List.flatten_append, h.flatten_eq, List.flatten_cons, List.flatten_nil, List.append_nil]
  length_eq := by
    show w.msgIovlen + 1 = (w.iovec ++ [buf]).length
    rw [List.length_append, h.length_eq]
    rfl
  readIdx_eq := h.readIdx_eq
  original_eq := h.original_eq

theorem Loaded.takeNumber (h : Loaded w bs) (val : Int64) :
    Loaded (w.takeNumber val) (bs ++ Decimal.signed val.toInt) := by
  rw [← int64ToCharArray_eq]
  exact h.takeBuffer _

theorem Loaded.unread_eq (h : Loaded w bs) : w.unread = bs := by
  rw [BufferWriter.unread_eq (by rw [h.readIdx_eq, h.length_eq, Nat.zero_add]), h.readIdx_eq,
    List.drop_zero, h.flatten_eq]

theorem Loaded.request_eq (h : Loaded w bs) : w.request = bs := by
  unfold request
  rw [if_pos h.original_eq, h.flatten_eq]

theorem Loaded.wf (h : Loaded w bs) (hpos : 0 < w.iovec.length) : Wf w where
  length_eq := by rw [h.readIdx_eq, h.length_eq, Nat.zero_add]
  original_length hne := absurd h.original_eq hne
  suffix := by rw [h.unread_eq, h.request_eq]
  pos := hpos

/-! ### Sending -/

theorem passBuffers_spec (h : i + n = iovec.length) {n' i' s' : ℕ}
    (hpass : passBuffers iovec n i s = (n', i', s')) :
    i' + n' = iovec.length ∧ i ≤ i' ∧
      (iovec.drop i').flatten.drop s' = (iovec.drop i).flatten.drop s ∧
      s' + (iovec.drop i).flatten.length = s + (iovec.drop i').flatten.length ∧
      (0 < n' → s' < (iovec.getD i' []).length) := by
  induction n generalizing i s with
  | zero =>
    obtain ⟨rfl, rfl, rfl⟩ : 0 = n' ∧ i = i' ∧ s = s' := by simpa [passBuffers] using hpass
    exact ⟨h, le_rfl, rfl, rfl, fun h0 => absurd h0 (lt_irrefl 0)⟩
  | succ n ih =>
    unfold passBuffers at hpass
    simp only at hpass
    split_ifs at hpass with hle
    · obtain ⟨h1, h2, h3, h4, h5⟩ := ih (by omega) hpass
      have hlt : i < iovec.length := by omega
      rw [List.getD_eq_getElem _ _ hlt] at hle h3 h4
      refine ⟨h1, by omega, ?_, ?_, h5⟩
      · rw [h3, List.drop_eq_getElem_cons hlt, List.flatten_cons, List.drop_append,
          List.drop_eq_nil_of_le hle, List.nil_append]
      · rw [List.drop_eq_getElem_cons hlt, List.flatten_cons, List.length_append]
        omega
    · obtain ⟨rfl, rfl, rfl⟩ : n + 1 = n' ∧ i = i' ∧ s = s' := by simpa using hpass
      exact ⟨h, le_rfl, rfl, rfl, fun _ => by omega⟩

theorem passBuffers_le (iovec : List Bytes) (n i s : ℕ) : (passBuffers iovec n i s).1 ≤ n := by
  induction n generalizing i s with
  | zero => exact le_rfl
  | succ n ih =>
    unfold passBuffers
    dsimp only
    split_ifs
    · exact (ih _ _).trans (Nat.le_succ n)
    · exact le_rfl

theorem msgIovlen_commitRead (w : BufferWriter) (s : ℕ) :
    (w.commitRead s).msgIovlen = (passBuffers w.iovec w.msgIovlen w.readIdx s).1 := by
  unfold commitRead
  dsimp only
  split_ifs <;> rfl

/-- An empty buffer is passed in any case. -/
theorem msgIovlen_commitRead_lt (hpos : w.msgIovlen ≠ 0) (hnil : w.iovec.getD w.readIdx [] = [])
    (s : ℕ) : (w.commitRead s).msgIovlen < w.msgIovlen := by
  obtain ⟨n, hn⟩ := Nat.exists_eq_succ_of_ne_zero hpos
  rw [msgIovlen_commitRead, hn, passBuffers, hnil]
  exact Nat.lt_succ_of_le (passBuffers_le _ _ _ _)

theorem flatten_drop_modify (hi : i < iovec.length) (hs : s ≤ (iovec.getD i []).length) :
    ((iovec.modify i (·.drop s)).drop i).flatten = (iovec.drop i).flatten.drop s := by
  rw [List.getD_eq_getElem _ _ hi] at hs
  have hi' : i < (iovec.modify i (·.drop s)).length := by rwa [List.length_modify]
  have htail : (iovec.modify i (·.drop s)).drop (i + 1) = iovec.drop (i + 1) := by
    rw [List.drop_modify_of_lt]
    exact Nat.lt_succ_self i
  rw [List.drop_eq_getElem_cons hi', List.drop_eq_getElem_cons hi, htail, List.getElem_modify_eq,
    List.flatten_cons, List.flatten_cons, List.drop_append_of_le_length hs]

/-- What `sendmsg` has taken is no longer left. The writer counts no buffer when nothing is left. -/
theorem Wf.commitRead (h : Wf w) (hs : s ≤ w.unread.length) :
    Wf (w.commitRead s) ∧ (w.commitRead s).unread = w.unread.drop s ∧
      (w.commitRead s).request = w.request ∧
        ((w.commitRead s).msgIovlen = 0 ↔ s = w.unread.length) := by
  obtain ⟨n', i', s', hpass⟩ : ∃ n' i' s', passBuffers w.iovec w.msgIovlen w.readIdx s = (n', i', s') :=
    ⟨_, _, _, rfl⟩
  obtain ⟨hlen, -, hdrop, hsum, hpart⟩ := passBuffers_spec h.length_eq hpass
  have hend : n' = 0 → (w.iovec.drop i').flatten.length = 0 := fun h0 => by
    rw [List.drop_eq_nil_of_le (by omega)]
    rfl
  have hmore : 0 < n' → s' < (w.iovec.drop i').flatten.length := fun h0 => by
    have hi' : i' < w.iovec.length := by omega
    have hlt := hpart h0
    rw [List.getD_eq_getElem _ _ hi'] at hlt
    rw [List.drop_eq_getElem_cons hi', List.flatten_cons, List.length_append]
    omega
  rw [unread_eq h.length_eq] at hs ⊢
  have hsuffix := h.suffix
  rw [unread_eq h.length_eq] at hsuffix
  by_cases hs' : 0 < s'
  · -- a buffer is left, since there are bytes of it
    have hn' : 0 < n' := by omega
    have hi' : i' < w.iovec.length := by omega
    have heq : w.commitRead s =
        { iovec := w.iovec.modify i' (·.drop s')
          originalIovec := if w.originalIovec = [] then w.iovec else w.originalIovec
          readIdx := i', msgIovlen := n' } := by
      unfold BufferWriter.commitRead
      rw [hpass]
      exact if_pos hs'
    have hunread : (w.commitRead s).unread = (w.iovec.drop w.readIdx).flatten.drop s := by
      rw [unread_eq (by rw [heq]; simpa using hlen), heq]
      simp only
      rw [flatten_drop_modify hi' (hpart hn').le, hdrop]
    have hne : w.iovec ≠ [] := List.ne_nil_of_length_pos h.pos
    have hrequest : (w.commitRead s).request = w.request := by
      unfold request
      rw [heq]
      simp only
      split_ifs <;> simp_all
    refine ⟨⟨by rw [heq]; simpa using hlen, fun _ => ?_, ?_, ?_⟩, hunread, hrequest, ?_⟩
    · rw [heq]
      simp only [List.length_modify]
      split_ifs with ho
      · rfl
      · exact h.original_length ho
    · rw [hunread, hrequest]
      exact (List.drop_suffix _ _).trans hsuffix
    · rw [heq, List.length_modify]
      exact h.pos
    · rw [heq]
      simp only
      omega
  · obtain rfl : s' = 0 := by omega
    have heq : w.commitRead s = { w with readIdx := i', msgIovlen := n' } := by
      unfold BufferWriter.commitRead
      rw [hpass]
      exact if_neg hs'
    have hunread : (w.commitRead s).unread = (w.iovec.drop w.readIdx).flatten.drop s := by
      rw [unread_eq (by rw [heq]; exact hlen), heq]
      exact hdrop
    have hrequest : (w.commitRead s).request = w.request := by
      rw [heq]
      rfl
    refine ⟨⟨by rw [heq]; exact hlen, by rw [heq]; exact h.original_length, ?_,
      by rw [heq]; exact h.pos⟩, hunread, hrequest, ?_⟩
    · rw [hunread, hrequest]
      exact (List.drop_suffix _ _).trans hsuffix
    · rw [heq]
      simp only
      omega

theorem Wf.rewind (h : Wf w) : Wf w.rewind ∧ w.rewind.unread = w.request ∧
    w.rewind.request = w.request ∧ w.rewind.msgIovlen ≠ 0 := by
  have hlen : (if w.originalIovec = [] then w.iovec else w.originalIovec).length =
      w.iovec.length := by
    split_ifs with ho
    · rfl
    · exact h.original_length ho
  have heq : w.rewind.readIdx + w.rewind.msgIovlen = w.rewind.iovec.length := by
    show 0 + w.iovec.length = _
    rw [Nat.zero_add]
    exact hlen.symm
  have hrequest : w.rewind.request = w.request := by
    unfold request BufferWriter.rewind
    simp only
    split_ifs <;> rfl
  have hunread : w.rewind.unread = w.request := unread_eq heq
  refine ⟨⟨heq, fun ho => ?_, by rw [hunread, hrequest], ?_⟩, hunread, hrequest, ?_⟩
  · exact (h.original_length ho).trans hlen.symm
  · exact hlen.symm ▸ h.pos
  · exact h.pos.ne'

theorem Wf.msgIovlen_pos (h : Wf w) (hidx : w.readIdx = 0) : w.msgIovlen ≠ 0 := by
  have := h.length_eq
  have := h.pos
  omega

end BufferWriter

end Libmc
