import Libmc.BufferRuns

/-!
# Blocks that are left full

`prepareWriteBlock` leaves a block that has no room. `commitWrite` means to do the same, but it adds
the bytes to a size that `occupy` has already added them to: it leaves a block that lacks as many
bytes as have just come. So the blocks behind the write iterator are all full in a run exactly when
no bytes that come are half of what was free (`run_full`).
-/

namespace Libmc

/-- A call that writes nothing: the reads, and what is done with the tokens that they gave. -/
inductive ReadOp
  | peek (offset : ℕ)
  | readUntil (value : UInt8)
  | skipUntil (value : UInt8)
  | readUnsigned
  | readBytes (len : ℕ)
  | skipBytes (len : ℕ)
  | expectBytes (str : Bytes)
  | copyTokenData (td : TokenData)
  | freeTokenData (td : TokenData)
  deriving DecidableEq, Repr

/-- A call while bytes are received. The bytes of `commitWrite` were put at `getWritePtr`. -/
inductive ReceiveOp
  | prepareWriteBlock (len : ℕ)
  | commitWrite (bs : Bytes)
  | read (op : ReadOp)
  | reset
  deriving DecidableEq, Repr

namespace BufferReader

variable {r r' : BufferReader} {bl : List DataBlock} {b : DataBlock} {bs : Bytes} {cap len i : ℕ}
  {tr : List (Transition BufferReader ReceiveOp)}

def read (r : BufferReader) : ReadOp → BufferReader
  | .peek _ => r
  | .readUntil value => (r.readUntil value).2.2.2
  | .skipUntil value => (r.skipUntil value).2.2
  | .readUnsigned => r.readUnsigned.2.2
  | .readBytes len => (r.readBytes len).2.2
  | .skipBytes len => (r.skipBytes len).2
  | .expectBytes str => (r.expectBytes str).2
  | .copyTokenData td => { r with dataBlockList := copyTokenData r.dataBlockList td }
  | .freeTokenData td => { r with dataBlockList := freeTokenData r.dataBlockList td }

def receive (minCapacity : ℕ) (r : BufferReader) : ReceiveOp → BufferReader
  | .prepareWriteBlock len => (r.prepareWriteBlock minCapacity len).2
  | .commitWrite bs => r.commitWrite bs
  | .read op => r.read op
  | .reset => r.reset

/-- Some bytes are committed, no more than the block of the write iterator has room for. -/
def Room (r : BufferReader) : ReceiveOp → Prop
  | .commitWrite bs => bs ≠ [] ∧ r.blockWriteIterator < r.dataBlockList.length ∧
      bs.length ≤ r.writeBlock.getWriteLeft
  | _ => True

def Receives (minCapacity : ℕ) (r : BufferReader) (op : ReceiveOp) (r' : BufferReader) : Prop :=
  r.Room op ∧ r.receive minCapacity op = r'

theorem receives_receive (op : ReceiveOp) (hroom : r.Room op) :
    Receives cap r op (r.receive cap op) := ⟨hroom, rfl⟩

/-- What is committed is not half of what is free. -/
def NotHalf (r : BufferReader) : ReceiveOp → Prop
  | .commitWrite bs => r.writeBlock.size + 2 * bs.length ≠ r.writeBlock.capacity
  | _ => True

instance (r : BufferReader) : DecidablePred r.NotHalf
  | .prepareWriteBlock _ => isTrue trivial
  | .commitWrite _ => inferInstanceAs (Decidable (_ ≠ _))
  | .read _ => isTrue trivial
  | .reset => isTrue trivial

/-- Every block that the write iterator has left is full, and so is every block but the last. -/
def LeftFull (r : BufferReader) : Prop :=
  ∀ (i : ℕ) (b : DataBlock), r.dataBlockList[i]? = some b →
    i < r.blockWriteIterator ∨ i + 1 < r.dataBlockList.length → b.size = b.capacity

/-- The write iterator is at the last block or past it, and the blocks before it are full. -/
structure Filled (r : BufferReader) : Prop where
  write_le : r.blockWriteIterator ≤ r.dataBlockList.length
  write_last : r.dataBlockList.length ≤ r.blockWriteIterator + 1
  size_le : ∀ (i : ℕ) (b : DataBlock), r.dataBlockList[i]? = some b → b.size ≤ b.capacity
  full : ∀ (i : ℕ) (b : DataBlock), r.dataBlockList[i]? = some b → i < r.blockWriteIterator →
    b.size = b.capacity

theorem Filled.leftFull (h : Filled r) : LeftFull r := by
  intro i b hb hi
  have hlast := h.write_last
  exact h.full i b hb (by omega)

theorem filled_default : Filled {} where
  write_le := le_rfl
  write_last := Nat.zero_le _
  size_le _ _ hb := by simp at hb
  full _ _ hb := by simp at hb

/-! ### Reads -/

theorem map_copyTokenData {β : Type*} {f : DataBlock → β} (hf : ∀ b n, f (b.acquire n) = f b)
    (td : TokenData) : (copyTokenData bl td).map f = bl.map f := by
  induction td generalizing bl with
  | nil => rfl
  | cons s td ih => exact ih.trans (map_modify_of_eq (fun b => hf b s.size) _ _)

/-- Reads leave the write iterator where it is, and the bytes and the room of every block. -/
theorem read_same (r : BufferReader) (op : ReadOp) :
    (r.read op).blockWriteIterator = r.blockWriteIterator ∧
      (r.read op).dataBlockList.map (fun b => (b.data, b.capacity)) =
        r.dataBlockList.map fun b => (b.data, b.capacity) := by
  cases op with
  | peek => exact ⟨rfl, rfl⟩
  | readUntil value =>
    simp only [read, readUntil]
    split_ifs
    · exact ⟨rfl, rfl⟩
    · exact ⟨rfl, rfl⟩
  | skipUntil value =>
    simp only [read, skipUntil]
    split_ifs
    · exact ⟨rfl, rfl⟩
    · exact ⟨rfl, map_data_capacity_freeTokenData _ _⟩
  | readUnsigned =>
    simp only [read, readUnsigned]
    split_ifs
    · exact ⟨rfl, rfl⟩
    · exact ⟨rfl, rfl⟩
    · exact ⟨rfl, rfl⟩
    · exact ⟨rfl, map_data_capacity_freeTokenData _ _⟩
  | readBytes len =>
    simp only [read, readBytes]
    split_ifs
    · exact ⟨rfl, rfl⟩
    · exact ⟨rfl, rfl⟩
    · exact ⟨rfl, rfl⟩
  | skipBytes len =>
    simp only [read, skipBytes]
    split_ifs
    · exact ⟨rfl, rfl⟩
    · exact ⟨rfl, map_data_capacity_freeTokenData _ _⟩
  | expectBytes str =>
    simp only [read, expectBytes]
    split_ifs
    · exact ⟨rfl, rfl⟩
    · exact ⟨rfl, map_data_capacity_freeTokenData _ _⟩
  | copyTokenData td => exact ⟨rfl, map_copyTokenData (fun _ _ => rfl) td⟩
  | freeTokenData td => exact ⟨rfl, map_data_capacity_freeTokenData _ td⟩

theorem read_block (op : ReadOp) (hb : (r.read op).dataBlockList[i]? = some b) :
    ∃ b', r.dataBlockList[i]? = some b' ∧ b'.size = b.size ∧ b'.capacity = b.capacity := by
  have hi := congrArg (·[i]?) (read_same r op).2
  simp only [List.getElem?_map, hb, Option.map_some] at hi
  obtain ⟨b', hb', heq⟩ := Option.map_eq_some_iff.1 hi.symm
  obtain ⟨hdata, hcapacity⟩ := Prod.mk.inj heq
  exact ⟨b', hb', congrArg List.length hdata, hcapacity⟩

theorem read_length (op : ReadOp) : (r.read op).dataBlockList.length = r.dataBlockList.length := by
  simpa using congrArg List.length (read_same r op).2

theorem Filled.read (h : Filled r) (op : ReadOp) : Filled (r.read op) := by
  have hw := (read_same r op).1
  refine ⟨?_, ?_, ?_, ?_⟩
  · rw [hw, read_length]
    exact h.write_le
  · rw [hw, read_length]
    exact h.write_last
  · intro i b hb
    obtain ⟨b', hb', hsize, hcapacity⟩ := read_block op hb
    rw [← hsize, ← hcapacity]
    exact h.size_le i b' hb'
  · intro i b hb hi
    obtain ⟨b', hb', hsize, hcapacity⟩ := read_block op hb
    rw [← hsize, ← hcapacity]
    exact h.full i b' hb' (hw ▸ hi)

/-! ### Writes -/

theorem Filled.leaveFullBlock (h : Filled r) : Filled r.leaveFullBlock := by
  unfold BufferReader.leaveFullBlock
  split_ifs with hc
  · obtain ⟨hne, hleft⟩ := hc
    have hle := h.write_le
    have hlast := h.write_last
    refine ⟨by simp only; omega, by simp only; omega, h.size_le, ?_⟩
    intro i b hb hi
    rcases Nat.lt_succ_iff_lt_or_eq.1 hi with hi | rfl
    · exact h.full i b hb hi
    · -- the block that is left has no room
      have hsize := h.size_le _ b hb
      rw [writeBlock_eq hb] at hleft
      unfold DataBlock.getWriteLeft at hleft
      omega
  · exact h

theorem pushBlock_block (hb : (r.pushBlock cap len).dataBlockList[i]? = some b) :
    r.dataBlockList[i]? = some b ∨
      i = r.dataBlockList.length ∧ b = DataBlock.init (max len cap) := by
  rw [show (r.pushBlock cap len).dataBlockList = r.dataBlockList ++ [_] from rfl,
    List.getElem?_append] at hb
  split_ifs at hb with hi
  · exact .inl hb
  · rw [List.getElem?_singleton] at hb
    split_ifs at hb with h0
    exact .inr ⟨by omega, (Option.some.inj hb).symm⟩

theorem Filled.ensureBlock (h : Filled r) (cap len : ℕ) : Filled (r.ensureBlock cap len) := by
  unfold BufferReader.ensureBlock
  split_ifs with hw
  · refine ⟨by simp [pushBlock], by simp [pushBlock], ?_, ?_⟩
    · intro i b hb
      rcases pushBlock_block hb with hb | ⟨-, rfl⟩
      · exact h.size_le i b hb
      · exact Nat.zero_le _
    · intro i b hb hi
      rcases pushBlock_block hb with hb | ⟨rfl, -⟩
      · exact h.full i b hb (hw ▸ hi)
      · exact absurd hi (Nat.lt_irrefl _)
  · exact h

theorem Filled.initReadCursor (h : Filled r) : Filled r.initReadCursor := by
  unfold BufferReader.initReadCursor
  split_ifs
  · exact ⟨h.write_le, h.write_last, h.size_le, h.full⟩
  · exact h

theorem Filled.prepareWriteBlock (h : Filled r) (cap len : ℕ) :
    Filled (r.prepareWriteBlock cap len).2 :=
  (h.leaveFullBlock.ensureBlock cap len).initReadCursor

theorem commitWrite_block (hb : (r.commitWrite bs).dataBlockList[i]? = some b) :
    (i ≠ r.blockWriteIterator ∧ r.dataBlockList[i]? = some b) ∨
      i = r.blockWriteIterator ∧ b = r.writeBlock.occupy bs := by
  rw [show (r.commitWrite bs).dataBlockList = r.dataBlockList.modify _ _ from rfl,
    List.getElem?_modify] at hb
  obtain ⟨b', hb', rfl⟩ := Option.map_eq_some_iff.1 hb
  by_cases hi : r.blockWriteIterator = i
  · subst hi
    rw [if_pos rfl, ← writeBlock_eq hb']
    exact .inr ⟨rfl, rfl⟩
  · rw [if_neg hi]
    exact .inl ⟨Ne.symm hi, hb'⟩

theorem commitWrite_iterator (bs : Bytes) : (r.commitWrite bs).blockWriteIterator =
    if r.writeBlock.size + 2 * bs.length = r.writeBlock.capacity then r.blockWriteIterator + 1
    else r.blockWriteIterator := by
  have hiff : (r.writeBlock.occupy bs).size + bs.length = (r.writeBlock.occupy bs).capacity ↔
      r.writeBlock.size + 2 * bs.length = r.writeBlock.capacity := by
    rw [occupy_size, show (r.writeBlock.occupy bs).capacity = r.writeBlock.capacity from rfl]
    omega
  exact if_congr hiff rfl rfl

theorem commitWrite_length (bs : Bytes) :
    (r.commitWrite bs).dataBlockList.length = r.dataBlockList.length := List.length_modify _ _ _

/-- What is not half of the free room leaves the write iterator where it is. -/
theorem Filled.commitWrite (h : Filled r) (hroom : r.Room (.commitWrite bs))
    (hhalf : r.NotHalf (.commitWrite bs)) : Filled (r.commitWrite bs) := by
  obtain ⟨-, hlt, hle⟩ := hroom
  have hw : (r.commitWrite bs).blockWriteIterator = r.blockWriteIterator := by
    rw [commitWrite_iterator]
    exact if_neg hhalf
  refine ⟨?_, ?_, ?_, ?_⟩
  · rw [hw, commitWrite_length]
    exact h.write_le
  · rw [hw, commitWrite_length]
    exact h.write_last
  · intro i b hb
    rcases commitWrite_block hb with ⟨-, hb⟩ | ⟨-, rfl⟩
    · exact h.size_le i b hb
    · have hblock := List.getElem?_eq_getElem hlt
      have hsize := h.size_le _ _ hblock
      rw [← writeBlock_eq hblock] at hsize
      have hocc := occupy_size r.writeBlock bs
      unfold DataBlock.getWriteLeft at hle
      show (r.writeBlock.occupy bs).size ≤ r.writeBlock.capacity
      omega
  · intro i b hb hi
    rw [hw] at hi
    rcases commitWrite_block hb with ⟨-, hb⟩ | ⟨rfl, -⟩
    · exact h.full i b hb hi
    · exact absurd hi (Nat.lt_irrefl _)

/-- Half of the free room makes the write iterator leave a block that is not full. -/
theorem not_leftFull_commitWrite (hroom : r.Room (.commitWrite bs))
    (hhalf : ¬ r.NotHalf (.commitWrite bs)) : ¬ LeftFull (r.commitWrite bs) := by
  obtain ⟨hne, hlt, -⟩ := hroom
  have hhalf : r.writeBlock.size + 2 * bs.length = r.writeBlock.capacity := not_not.1 hhalf
  have hw := commitWrite_iterator (r := r) bs
  rw [if_pos hhalf] at hw
  have hlt' : r.blockWriteIterator < (r.commitWrite bs).dataBlockList.length := by
    rw [commitWrite_length]
    exact hlt
  have hb := List.getElem?_eq_getElem hlt'
  intro hfull
  have hsize := hfull _ _ hb (.inl (hw ▸ Nat.lt_succ_self _))
  rcases commitWrite_block hb with ⟨hne, -⟩ | ⟨-, hblock⟩
  · exact hne rfl
  · have hocc := occupy_size r.writeBlock bs
    have hpos := List.length_pos_of_ne_nil hne
    rw [hblock, hocc] at hsize
    have : r.writeBlock.size + bs.length = r.writeBlock.capacity := hsize
    omega

theorem filled_reset (r : BufferReader) : Filled r.reset := by
  refine ⟨Nat.zero_le _, ?_, ?_, ?_⟩
  · simp only [reset, List.length_map, List.length_take]
    omega
  · intro i b hb
    obtain ⟨b', -, rfl⟩ := List.mem_map.1 (List.mem_of_getElem? hb)
    exact Nat.zero_le _
  · intro i b _ hi
    exact absurd hi (Nat.not_lt_zero i)

/-! ### Room -/

theorem ensureBlock_lt (cap len : ℕ) (hle : r.blockWriteIterator ≤ r.dataBlockList.length) :
    (r.ensureBlock cap len).blockWriteIterator < (r.ensureBlock cap len).dataBlockList.length := by
  unfold ensureBlock
  split_ifs with hw
  · simp [pushBlock]
  · exact lt_of_le_of_ne hle hw

theorem room_prepareWriteBlock (h : Filled r) (hbs : bs ≠ [])
    (hle : bs.length ≤ (r.prepareWriteBlock cap len).1) :
    (r.prepareWriteBlock cap len).2.Room (.commitWrite bs) := by
  refine ⟨hbs, ?_, hle.trans (min_le_right _ _)⟩
  have hlt := ensureBlock_lt cap len h.leaveFullBlock.write_le
  simp only [prepareWriteBlock, initReadCursor]
  split_ifs
  · exact hlt
  · exact hlt

theorem Room.read (hroom : r.Room (.commitWrite bs)) (op : ReadOp) :
    (r.read op).Room (.commitWrite bs) := by
  obtain ⟨hne, hlt, hle⟩ := hroom
  have hw := (read_same r op).1
  have hlt' : r.blockWriteIterator < (r.read op).dataBlockList.length := by
    rw [read_length]
    exact hlt
  have hblock := List.getElem?_eq_getElem hlt'
  obtain ⟨b, hb, hsize, hcapacity⟩ := read_block op hblock
  have hwrite : (r.read op).writeBlock = (r.read op).dataBlockList[r.blockWriteIterator] :=
    writeBlock_eq (by rw [hw, hblock])
  rw [writeBlock_eq hb] at hle
  refine ⟨hne, by rwa [hw], ?_⟩
  unfold DataBlock.getWriteLeft at *
  rw [hwrite, ← hsize, ← hcapacity]
  exact hle

/-! ### Runs -/

theorem Filled.receives (h : Filled r) {op : ReceiveOp} (hstep : Receives cap r op r')
    (hhalf : r.NotHalf op) : Filled r' := by
  obtain ⟨hroom, rfl⟩ := hstep
  cases op with
  | prepareWriteBlock len => exact h.prepareWriteBlock cap len
  | commitWrite bs => exact h.commitWrite hroom hhalf
  | read op => exact h.read op
  | reset => exact filled_reset r

/-- **A block is left full** by the write iterator, and all blocks but the last are full, in every
state of a run exactly when it never commits half of what is free in a block. -/
theorem run_full (hrun : Run (Receives cap) {} tr r) :
    (∀ t ∈ tr, t.after.LeftFull) ↔ ∀ t ∈ tr, t.before.NotHalf t.event := by
  apply hrun.forall_iff (I := Filled) filled_default
  · intro r op r' h hstep hhalf
    have hfilled := h.receives hstep hhalf
    exact ⟨hfilled, hfilled.leftFull⟩
  · intro r op r' _ hstep hhalf
    obtain ⟨hroom, rfl⟩ := hstep
    cases op with
    | prepareWriteBlock => exact absurd trivial hhalf
    | commitWrite bs => exact not_leftFull_commitWrite hroom hhalf
    | read => exact absurd trivial hhalf
    | reset => exact absurd trivial hhalf

/-- A block of four bytes that is filled in two parts, with a read and a reset. -/
theorem run_full_four : ∃ tr r, Run (Receives 4) {} tr r ∧
    tr.map (·.event) = [.prepareWriteBlock 4, .read (.peek 0), .commitWrite (ascii "a"), .reset,
      .prepareWriteBlock 9, .commitWrite (ascii "abc"), .prepareWriteBlock 1,
      .commitWrite (ascii "d"), .prepareWriteBlock 2] ∧
    r.dataBlockList.map (·.size) = [4, 0] ∧ ∀ t ∈ tr, t.after.LeftFull := by
  have hrun := (((((((((Run.nil : Run (Receives 4) {} [] {}).snoc
    (receives_receive (.prepareWriteBlock 4) trivial)).snoc
    (receives_receive (.read (.peek 0)) trivial)).snoc
    (receives_receive (.commitWrite (ascii "a"))
      ((room_prepareWriteBlock filled_default (by decide) (by decide)).read (.peek 0)))).snoc
    (receives_receive .reset trivial)).snoc
    (receives_receive (.prepareWriteBlock 9) trivial)).snoc
    (receives_receive (.commitWrite (ascii "abc"))
      (room_prepareWriteBlock (filled_reset _) (by decide) (by decide)))).snoc
    (receives_receive (.prepareWriteBlock 1) trivial)).snoc
    (receives_receive (.commitWrite (ascii "d")) ⟨by decide, by decide, by decide⟩)).snoc
    (receives_receive (.prepareWriteBlock 2) trivial)
  exact ⟨_, _, hrun, by decide, by decide, (run_full hrun).2 (by decide)⟩

/-- Half of a fresh block comes: the other half is never written. -/
theorem receive_half (cap len : ℕ) (hne : bs ≠ []) (hcap : 2 * bs.length = cap) (hlen : len ≤ cap) :
    (((({} : BufferReader).prepareWriteBlock cap len).2.commitWrite bs).prepareWriteBlock
      cap len).2.dataBlockList = [⟨bs, cap, bs.length⟩, DataBlock.init cap] := by
  have hmax : max len cap = cap := max_eq_right hlen
  have hleave : bs.length + bs.length = cap := by omega
  simp [prepareWriteBlock, leaveFullBlock, ensureBlock, pushBlock, initReadCursor, commitWrite,
    writeBlock, DataBlock.init, DataBlock.occupy, DataBlock.size, hmax, hleave, hne]

/-- 4096 bytes come into a fresh block of 8192, and the next ones go into a new block. -/
theorem not_run_full : ¬ ∀ cap tr r, Run (Receives cap) {} tr r → ∀ t ∈ tr,
    ∀ (i : ℕ) (b : DataBlock), t.after.dataBlockList[i]? = some b →
      i + 1 < t.after.dataBlockList.length → b.size = b.capacity := by
  intro h
  obtain ⟨bs, hbs⟩ : ∃ bs : Bytes, bs.length = 4096 :=
    ⟨List.replicate 4096 0, List.length_replicate⟩
  have hne : bs ≠ [] := List.ne_nil_of_length_pos (by omega)
  have hroom : (({} : BufferReader).prepareWriteBlock 8192 8192).2.Room (.commitWrite bs) := by
    apply room_prepareWriteBlock filled_default hne
    rw [hbs]
    decide
  have hrun := (((Run.nil : Run (Receives 8192) {} [] {}).snoc
    (receives_receive (.prepareWriteBlock 8192) trivial)).snoc
    (receives_receive (.commitWrite bs) hroom)).snoc
    (receives_receive (.prepareWriteBlock 8192) trivial)
  have hblocks := receive_half 8192 8192 hne (by omega) le_rfl
  have hlength : 0 + 1 < [⟨bs, 8192, bs.length⟩, DataBlock.init 8192].length := Nat.one_lt_two
  have hfull := h 8192 _ _ hrun _ (List.mem_append_right _ (List.mem_singleton_self _)) 0
    ⟨bs, 8192, bs.length⟩ (congrArg (·[0]?) hblocks)
    (lt_of_lt_of_eq hlength (congrArg List.length hblocks).symm)
  have hsize : bs.length = 8192 := hfull
  omega

end BufferReader

end Libmc
