import Libmc.BufferWriter
import Libmc.Support.Run

/-!
# Sending a request in parts

The buffers that were taken are cut from the front as bytes are sent (`cut`), and a rewind brings
all of them back. A writer does this in place, with an index, a count and one saved copy: what
`getReadPtr` exposes is at every moment the list that is left (`Run.tracks`). An empty buffer goes
with the bytes before it, so none is left when there is nothing to send (`cut_eq_nil`).
-/

namespace Libmc

namespace BufferWriter

variable {w w' : BufferWriter} {iovec bufs left : List Bytes} {i n s : ℕ}

/-! ## Runs -/

/-- A call that builds a message. -/
inductive Take
  | takeBuffer (buf : Bytes)
  | takeNumber (val : Int64)

def take (w : BufferWriter) : Take → BufferWriter
  | .takeBuffer buf => w.takeBuffer buf
  | .takeNumber val => w.takeNumber val

/-- The bytes that a call adds to the message. -/
def Take.buf : Take → Bytes
  | .takeBuffer buf => buf
  | .takeNumber val => int64ToCharArray val

inductive SendOp
  | commitRead (n : ℕ)
  | rewind
  deriving DecidableEq, Repr

/-- A call while a message is sent; no more is committed than is left. -/
inductive Sends : BufferWriter → SendOp → BufferWriter → Prop
  | commitRead {w : BufferWriter} {n : ℕ} (h : n ≤ w.unread.length) :
      Sends w (.commitRead n) (w.commitRead n)
  | rewind {w : BufferWriter} : Sends w .rewind w.rewind

/-- The bytes committed since the last rewind. -/
def committed : List SendOp → ℕ :=
  List.foldl (fun c op => match op with | .commitRead n => c + n | .rewind => 0) 0

/-- The elements of `m_iovec` that the loop of `commitRead` looks at, and the one after it. -/
def passIndices (iovec : List Bytes) : ℕ → ℕ → ℕ → List ℕ
  | 0, readIdx, nSent => if 0 < nSent then [readIdx] else []
  | msgIovlen + 1, readIdx, nSent =>
    let len := (iovec.getD readIdx []).length
    if len ≤ nSent then readIdx :: passIndices iovec msgIovlen (readIdx + 1) (nSent - len)
    else [readIdx]

/-- The elements of `m_iovec` that `commitRead` looks at. -/
def commitIndices (w : BufferWriter) (nSent : ℕ) : List ℕ :=
  passIndices w.iovec w.msgIovlen w.readIdx nSent

/-! ## Buffers that are sent -/

/-- Take `n` bytes from the front of a list of buffers, and every buffer that has no more. -/
def cut : ℕ → List Bytes → List Bytes
  | _, [] => []
  | n, b :: bs => if b.length ≤ n then cut (n - b.length) bs else b.drop n :: bs

theorem flatten_cut (n : ℕ) (bs : List Bytes) : (cut n bs).flatten = bs.flatten.drop n := by
  induction bs generalizing n with
  | nil => simp [cut]
  | cons b bs ih =>
    unfold cut
    split_ifs with hle
    · rw [ih, List.flatten_cons, List.drop_append, List.drop_eq_nil_of_le hle, List.nil_append]
    · rw [List.flatten_cons, List.flatten_cons, List.drop_append_of_le_length (by omega)]

theorem cut_head (n : ℕ) (bs : List Bytes) : ∀ b ∈ (cut n bs).head?, b ≠ [] := by
  induction bs generalizing n with
  | nil => simp [cut]
  | cons b bs ih =>
    unfold cut
    split_ifs with hle
    · exact ih _
    · rintro _ ⟨rfl⟩
      exact List.ne_nil_of_length_pos (by rw [List.length_drop]; omega)

/-- Nothing is left when all bytes are sent, and no empty buffer either. -/
theorem cut_eq_nil (bs : List Bytes) : cut n bs = [] ↔ bs.flatten.length ≤ n := by
  constructor
  · intro h
    have hflat := flatten_cut n bs
    rw [h, List.flatten_nil] at hflat
    exact List.drop_eq_nil_iff.1 hflat.symm
  · intro h
    have hflat := flatten_cut n bs
    rw [List.drop_eq_nil_of_le h] at hflat
    have hhead := cut_head n bs
    cases hcut : cut n bs with
    | nil => rfl
    | cons b l =>
      rw [hcut] at hflat hhead
      exact absurd (List.append_eq_nil_iff.1 hflat).1 (hhead b rfl)

/-! ## The writer -/

/-- The writer was given `bufs`, and `left` of them is left. -/
structure Tracks (bufs left : List Bytes) (w : BufferWriter) : Prop where
  length_eq : w.readIdx + w.msgIovlen = w.iovec.length
  left_eq : w.iovec.drop w.readIdx = left
  bufs_eq : (if w.originalIovec = [] then w.iovec else w.originalIovec) = bufs
  bufs_length : w.iovec.length = bufs.length

theorem Tracks.getReadPtr (h : Tracks bufs left w) : w.getReadPtr = left := by
  unfold BufferWriter.getReadPtr
  rw [h.left_eq, List.take_of_length_le]
  rw [← h.left_eq, List.length_drop]
  have := h.length_eq
  omega

theorem Tracks.unread (h : Tracks bufs left w) : w.unread = left.flatten := by
  unfold BufferWriter.unread
  rw [h.getReadPtr]

theorem Tracks.msgIovlen (h : Tracks bufs left w) : w.msgIovlen = left.length := by
  have := h.length_eq
  rw [← h.left_eq, List.length_drop]
  omega

theorem passBuffers_cut (h : i + n = iovec.length) (hs : s ≤ (iovec.drop i).flatten.length)
    {n' i' s' : ℕ} (hpass : passBuffers iovec n i s = (n', i', s')) :
    i' + n' = iovec.length ∧ (s' = 0 → cut s (iovec.drop i) = iovec.drop i') ∧
      (0 < s' → i' < iovec.length ∧
        cut s (iovec.drop i) = (iovec.modify i' (·.drop s')).drop i') := by
  induction n generalizing i s with
  | zero =>
    obtain ⟨rfl, rfl, rfl⟩ : 0 = n' ∧ i = i' ∧ s = s' := by simpa [passBuffers] using hpass
    have hnil : iovec.drop i = [] := List.drop_eq_nil_of_le (by omega)
    rw [hnil] at hs ⊢
    exact ⟨h, fun _ => rfl, fun hpos => absurd hs (by simp; omega)⟩
  | succ n ih =>
    have hi : i < iovec.length := by omega
    unfold passBuffers at hpass
    dsimp only at hpass
    rw [List.getD_eq_getElem _ _ hi] at hpass
    rw [List.drop_eq_getElem_cons hi, List.flatten_cons, List.length_append] at hs
    rw [List.drop_eq_getElem_cons hi, cut]
    split_ifs at hpass with hle
    · rw [if_pos hle]
      exact ih (by omega) (by omega) hpass
    · obtain ⟨rfl, rfl, rfl⟩ : n + 1 = n' ∧ i = i' ∧ s = s' := by simpa using hpass
      rw [if_neg hle]
      refine ⟨h, fun hzero => ?_, fun _ => ⟨hi, ?_⟩⟩
      · rw [hzero, List.drop_zero, List.drop_eq_getElem_cons hi]
      · have hi' : i < (iovec.modify i (·.drop s)).length := by rwa [List.length_modify]
        have htail : (iovec.modify i (·.drop s)).drop (i + 1) = iovec.drop (i + 1) := by
          rw [List.drop_modify_of_lt]
          exact Nat.lt_succ_self i
        rw [List.drop_eq_getElem_cons hi', List.getElem_modify_eq, htail]

theorem Tracks.commitRead (h : Tracks bufs left w) (hs : s ≤ left.flatten.length) :
    Tracks bufs (cut s left) (w.commitRead s) := by
  rcases hpass : passBuffers w.iovec w.msgIovlen w.readIdx s with ⟨n', i', s'⟩
  rw [← h.left_eq] at hs ⊢
  obtain ⟨hlen, hwhole, hpart⟩ := passBuffers_cut h.length_eq hs hpass
  unfold BufferWriter.commitRead
  rw [hpass]
  dsimp only
  split_ifs with hpos horig
  · -- the first cut: the buffers are saved
    obtain ⟨hi', hcut⟩ := hpart hpos
    have hne : w.iovec ≠ [] := List.ne_nil_of_length_pos (by omega)
    have hbufs := h.bufs_eq
    rw [if_pos horig] at hbufs
    refine ⟨by simpa using hlen, hcut.symm, ?_, by simpa using h.bufs_length⟩
    exact (if_neg hne).trans hbufs
  · obtain ⟨hi', hcut⟩ := hpart hpos
    have hbufs := h.bufs_eq
    rw [if_neg horig] at hbufs
    refine ⟨by simpa using hlen, hcut.symm, ?_, by simpa using h.bufs_length⟩
    exact (if_neg horig).trans hbufs
  · exact ⟨hlen, (hwhole (by omega)).symm, h.bufs_eq, h.bufs_length⟩

theorem Tracks.rewind (h : Tracks bufs left w) : Tracks bufs bufs w.rewind := by
  have hiovec : w.rewind.iovec = bufs := h.bufs_eq
  refine ⟨?_, hiovec, ?_, by rw [hiovec]⟩
  · rw [hiovec]
    show 0 + w.iovec.length = bufs.length
    rw [Nat.zero_add, h.bufs_length]
  · show (if w.originalIovec = [] then w.rewind.iovec else w.originalIovec) = bufs
    split_ifs with horig
    · exact hiovec
    · exact (if_neg horig).symm.trans h.bufs_eq

theorem passIndices_lt (h : i + n = iovec.length) (hs : s ≤ (iovec.drop i).flatten.length) :
    ∀ j ∈ passIndices iovec n i s, j < iovec.length := by
  induction n generalizing i s with
  | zero =>
    have hnil : iovec.drop i = [] := List.drop_eq_nil_of_le (by omega)
    have hzero : s = 0 := by
      rw [hnil] at hs
      simpa using hs
    rw [passIndices, if_neg (by omega)]
    exact List.forall_mem_nil _
  | succ n ih =>
    have hi : i < iovec.length := by omega
    unfold passIndices
    dsimp only
    rw [List.getD_eq_getElem _ _ hi]
    rw [List.drop_eq_getElem_cons hi, List.flatten_cons, List.length_append] at hs
    split_ifs with hle
    · exact List.forall_mem_cons.2 ⟨hi, ih (by omega) (by omega)⟩
    · exact List.forall_mem_singleton.2 hi

theorem Tracks.commitIndices_lt (h : Tracks bufs left w) (hs : s ≤ left.flatten.length) :
    ∀ j ∈ w.commitIndices s, j < w.iovec.length :=
  passIndices_lt h.length_eq (by rwa [h.left_eq])

/-! ## A message -/

def build (takes : List Take) (w : BufferWriter) : BufferWriter := takes.foldl take w.reset

def message (takes : List Take) : Bytes := (takes.map Take.buf).flatten

theorem foldl_take (takes : List Take) (w : BufferWriter) : takes.foldl take w =
    { w with
      iovec := w.iovec ++ takes.map Take.buf
      msgIovlen := w.msgIovlen + takes.length } := by
  induction takes generalizing w with
  | nil =>
    rw [List.map_nil, List.append_nil]
    rfl
  | cons op takes ih =>
    have hop : w.take op =
        { w with iovec := w.iovec ++ [op.buf], msgIovlen := w.msgIovlen + 1 } := by
      cases op <;> rfl
    rw [List.foldl_cons, ih, hop, List.map_cons, List.length_cons]
    simp only [List.append_assoc, List.cons_append, List.nil_append, Nat.add_assoc,
      Nat.add_comm 1]

theorem tracks_build (takes : List Take) (w : BufferWriter) :
    Tracks (takes.map Take.buf) (takes.map Take.buf) (build takes w) := by
  unfold build
  rw [foldl_take]
  refine ⟨?_, ?_, ?_, ?_⟩
  · simp [reset]
  · simp [reset]
  · simp [reset]
  · simp [reset]

def leftOf (bufs : List Bytes) : List SendOp → List Bytes :=
  List.foldl (fun left op => match op with | .commitRead n => cut n left | .rewind => bufs) bufs

variable {tr : List (Transition BufferWriter SendOp)}

theorem leftOf_snoc (bufs : List Bytes) (ops : List SendOp) (op : SendOp) :
    leftOf bufs (ops ++ [op]) =
      match op with
      | .commitRead n => cut n (leftOf bufs ops)
      | .rewind => bufs := by
  unfold leftOf
  rw [List.foldl_append]
  cases op <;> rfl

theorem committed_snoc (ops : List SendOp) (op : SendOp) :
    committed (ops ++ [op]) =
      match op with
      | .commitRead n => committed ops + n
      | .rewind => 0 := by
  unfold committed
  rw [List.foldl_append]
  cases op <;> rfl

theorem Tracks.run (h : Tracks bufs bufs w) (hrun : Run Sends w tr w') :
    Tracks bufs (leftOf bufs (tr.map (·.event))) w' := by
  induction hrun with
  | nil => exact h
  | snoc hrun hs ih =>
    rw [List.map_append, List.map_singleton, leftOf_snoc]
    cases hs with
    | commitRead hn => exact ih.commitRead (by rwa [ih.unread] at hn)
    | rewind => exact ih.rewind

/-- The bytes that are left are those that were not committed. -/
theorem flatten_leftOf (bufs : List Bytes) (ops : List SendOp) :
    (leftOf bufs ops).flatten = bufs.flatten.drop (committed ops) := by
  induction ops using List.reverseRecOn with
  | nil => rfl
  | append_singleton ops op ih =>
    rw [leftOf_snoc, committed_snoc]
    cases op with
    | commitRead n => rw [flatten_cut, ih, List.drop_drop]
    | rewind => exact List.drop_zero.symm

/-- No more is committed than was built. -/
theorem Tracks.committed_le (h : Tracks bufs bufs w) (hrun : Run Sends w tr w') :
    committed (tr.map (·.event)) ≤ bufs.flatten.length := by
  induction hrun with
  | nil => exact Nat.zero_le _
  | snoc hrun hs ih =>
    have hleft := (h.run hrun).unread
    rw [flatten_leftOf] at hleft
    rw [List.map_append, List.map_singleton, committed_snoc]
    cases hs with
    | commitRead hn =>
      rw [hleft, List.length_drop] at hn
      show _ + _ ≤ _
      omega
    | rewind => exact Nat.zero_le _

/-- **Sending in parts.** A message is built and then sent with any commits of what is left and any
rewinds. At every moment `getReadPtr` exposes the buffers of the message with what was committed
since the last rewind cut off; the count is that of these buffers, and after a commit it is zero
when all bytes are sent; every index is in range; a rewind brings back the whole message. -/
theorem getReadPtr_run (takes : List Take) (w₀ : BufferWriter)
    (hrun : Run Sends (build takes w₀) tr w) :
    let ops := tr.map (·.event)
    w.getReadPtr.flatten = (message takes).drop (committed ops) ∧
      committed ops ≤ (message takes).length ∧
      w.getReadPtr = leftOf (takes.map Take.buf) ops ∧
      (w.msgIovlen = 0 ↔ leftOf (takes.map Take.buf) ops = []) ∧
      (0 < w.msgIovlen → w.readIdx < w.iovec.length) ∧
      (∀ n ≤ w.unread.length, (∀ j ∈ w.commitIndices n, j < w.iovec.length) ∧
        ((w.commitRead n).msgIovlen = 0 ↔ committed ops + n = (message takes).length)) ∧
      w.rewind.getReadPtr.flatten = message takes := by
  intro ops
  have hbuild := tracks_build takes w₀
  have htracks : Tracks (takes.map Take.buf) (leftOf (takes.map Take.buf) ops) w :=
    hbuild.run hrun
  have hflat := flatten_leftOf (takes.map Take.buf) ops
  have hle : committed ops ≤ (message takes).length := hbuild.committed_le hrun
  have hlen := htracks.length_eq
  refine ⟨?_, hle, htracks.getReadPtr, ?_, fun hpos => by omega, fun n hn => ?_, ?_⟩
  · rw [htracks.getReadPtr, hflat]
    rfl
  · rw [htracks.msgIovlen, List.length_eq_zero_iff]
  · rw [htracks.unread] at hn
    refine ⟨htracks.commitIndices_lt hn, ?_⟩
    rw [(htracks.commitRead hn).msgIovlen, List.length_eq_zero_iff, cut_eq_nil]
    rw [hflat, List.length_drop] at hn ⊢
    change n ≤ (message takes).length - committed ops at hn
    show (message takes).length - committed ops ≤ n ↔ _
    omega
  · rw [htracks.rewind.getReadPtr]
    rfl

/-- Two bytes of three are sent, and the message is rewound. -/
theorem getReadPtr_run_rewind :
    (((build [.takeBuffer (ascii "ab"), .takeBuffer [], .takeBuffer (ascii "c")] {}).commitRead
      2).rewind).getReadPtr.flatten = ascii "abc" := by
  have hrun : Run Sends (build [.takeBuffer (ascii "ab"), .takeBuffer [], .takeBuffer (ascii "c")] {})
      [⟨_, .commitRead 2, _⟩] _ := .snoc .nil (.commitRead (by decide))
  exact (getReadPtr_run _ {} hrun).2.2.2.2.2.2

end BufferWriter

end Libmc
