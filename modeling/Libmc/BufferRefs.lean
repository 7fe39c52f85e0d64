import Libmc.BufferFull

/-!
# What the reference counts count

The reference count of a block is the number of its bytes that somebody still needs: those that
are not read yet, and those in the slices of the tokens that are held. Bytes that come are counted
when they are committed (`Counted.commitWrite`); a token takes over the count of the bytes that it
is read from (`Counted.take`), what is skipped gives it back (`Counted.skip`), and a copy of a token
is counted once more. So a release never takes a count below zero, and a block is `reusable` when
none of its bytes is needed (`run_counted`).
-/

namespace Libmc

/-- How much of a token lies in a block. -/
def sizeIn (td : TokenData) (i : ℕ) : ℕ := tokenSize (td.filter (·.iterator = i))

/-- How much of the tokens lies in a block. -/
def heldIn (live : List TokenData) (i : ℕ) : ℕ := (live.map (sizeIn · i)).sum

/-- How many bytes of a block are not read when the read cursor is at `cur`. -/
def unreadIn (blocks : List DataBlock) (cur : DataCursor) (i : ℕ) : ℕ :=
  match blocks[i]? with
  | none => 0
  | some b =>
    if i < cur.iterator then 0 else if i = cur.iterator then b.size - cur.offset else b.size

/-- A reader and the tokens that are held. -/
structure Holding where
  reader : BufferReader := {}
  live : List TokenData := []
  deriving DecidableEq, Repr

/-- A call on the reader, or what is done with a token that is held. -/
inductive TokenOp
  | call (op : BufferOp)
  | copyTokenData (td : TokenData)
  | freeTokenData (td : TokenData)
  deriving DecidableEq, Repr

namespace BufferReader

/-- The token that a call gives to its caller. -/
def taken (r : BufferReader) : BufferOp → List TokenData
  | .readUntil value => [(r.readUntil value).2.2.1]
  | .readBytes len => [(r.readBytes len).2.1]
  | _ => []

/-- The slices that a call releases. -/
def skipped (r : BufferReader) : BufferOp → TokenData
  | .skipUntil value =>
    let endCur := seek (· == value) r.blocksLeft r.blockReadCursor
    if endCur.iterator = r.dataBlockList.length then []
    else slicesTo endCur r.blocksLeft r.blockReadCursor
  | .readUnsigned =>
    if r.readLeft < 2 then []
    else
      let endCur := seek (fun c => !isDigit c) r.blocksLeft r.blockReadCursor
      if r.blockReadCursor = endCur then []
      else if endCur.iterator = r.dataBlockList.length then []
      else slicesTo endCur r.blocksLeft r.blockReadCursor
  | .skipBytes len =>
    if len > r.readLeft then [] else (slicesFor r.blocksLeft r.blockReadCursor len).1
  | .expectBytes str =>
    if str.length > r.readLeft then [] else (expectLoop r.blocksLeft r.blockReadCursor str).2.1
  | _ => []

end BufferReader

namespace Holding

def exec (minCapacity : ℕ) (s : Holding) : TokenOp → Holding
  | .call op => ⟨(s.reader.exec minCapacity op).2, s.reader.taken op ++ s.live⟩
  | .copyTokenData td =>
    ⟨{ s.reader with dataBlockList := Libmc.copyTokenData s.reader.dataBlockList td }, td :: s.live⟩
  | .freeTokenData td =>
    ⟨{ s.reader with dataBlockList := Libmc.freeTokenData s.reader.dataBlockList td },
      s.live.erase td⟩

/-- The slices that a call releases. -/
def released (s : Holding) : TokenOp → TokenData
  | .call op => s.reader.skipped op
  | .copyTokenData _ => []
  | .freeTokenData td => td

/-- Only tokens that are held are copied or freed. -/
def Fits (minCapacity : ℕ) (s : Holding) : TokenOp → Prop
  | .call op => s.reader.Fits minCapacity op
  | .copyTokenData td => td ∈ s.live
  | .freeTokenData td => td ∈ s.live

def Does (minCapacity : ℕ) (s : Holding) (op : TokenOp) (s' : Holding) : Prop :=
  s.Fits minCapacity op ∧ s.exec minCapacity op = s'

/-- Some byte of a block is not read, or a token that is held has one. -/
def Needs (s : Holding) (i : ℕ) : Prop :=
  0 < unreadIn s.reader.dataBlockList s.reader.blockReadCursor i ∨
    ∃ td ∈ s.live, ∃ slice ∈ td, slice.iterator = i ∧ 0 < slice.size

end Holding

/-- Every slice that is released is counted in its block then. -/
def ReleasesOk : List DataBlock → TokenData → Prop
  | _, [] => True
  | blocks, s :: td => (∃ b, blocks[s.iterator]? = some b ∧ (s.size : ℤ) ≤ b.nBytesRef) ∧
      ReleasesOk (blocks.modify s.iterator (·.release s.size)) td

variable {blocks bl : List DataBlock} {cur : DataCursor} {b : DataBlock} {i : ℕ} {td : TokenData}
  {live : List TokenData} {p : UInt8 → Bool}

/-! ### Slices in a block -/

@[simp] theorem sizeIn_nil (i : ℕ) : sizeIn [] i = 0 := rfl

theorem sizeIn_cons (s : DataBlockSlice) (td : TokenData) (i : ℕ) :
    sizeIn (s :: td) i = (if s.iterator = i then s.size else 0) + sizeIn td i := by
  unfold sizeIn tokenSize
  by_cases h : s.iterator = i
  · rw [List.filter_cons_of_pos (by simpa using h), if_pos h, List.map_cons, List.sum_cons]
  · rw [List.filter_cons_of_neg (by simpa using h), if_neg h, Nat.zero_add]

theorem sizeIn_append (td td' : TokenData) (i : ℕ) :
    sizeIn (td ++ td') i = sizeIn td i + sizeIn td' i := by
  unfold sizeIn tokenSize
  rw [List.filter_append, List.map_append, List.sum_append]

theorem sizeIn_eq_zero_iff : sizeIn td i = 0 ↔ ∀ s ∈ td, s.iterator = i → s.size = 0 := by
  induction td with
  | nil => simp
  | cons s td ih =>
    rw [sizeIn_cons, Nat.add_eq_zero_iff, ih, List.forall_mem_cons]
    simp

theorem ValidToken.sizeIn_end (h : ValidToken blocks td) (hi : blocks.length ≤ i) :
    sizeIn td i = 0 := by
  rw [sizeIn_eq_zero_iff]
  intro s hs hit
  obtain ⟨b, hb, -⟩ := h s hs
  have := (List.getElem?_eq_some_iff.1 hb).1
  omega

theorem heldIn_eq_zero_iff : heldIn live i = 0 ↔ ∀ td ∈ live, sizeIn td i = 0 := by
  unfold heldIn
  simp [List.sum_eq_zero_iff]

theorem heldIn_erase (h : td ∈ live) (i : ℕ) :
    sizeIn td i + heldIn (live.erase td) i = heldIn live i := by
  have hperm := ((List.perm_cons_erase h).map (sizeIn · i)).sum_eq
  rw [List.map_cons, List.sum_cons] at hperm
  exact hperm.symm

theorem getElem?_freeTokenData (td : TokenData) (i : ℕ) :
    (freeTokenData bl td)[i]? = bl[i]?.map (·.release (sizeIn td i)) := by
  induction td generalizing bl with
  | nil => simp [freeTokenData, DataBlock.release]
  | cons s td ih =>
    show (freeTokenData (bl.modify s.iterator (·.release s.size)) td)[i]? = _
    rw [ih, List.getElem?_modify, sizeIn_cons]
    rcases bl[i]? with _ | b
    · rfl
    · by_cases hi : s.iterator = i <;> simp [DataBlock.release, hi, sub_sub]

theorem getElem?_copyTokenData (td : TokenData) (i : ℕ) :
    (copyTokenData bl td)[i]? = bl[i]?.map (·.acquire (sizeIn td i)) := by
  induction td generalizing bl with
  | nil => simp [copyTokenData, DataBlock.acquire]
  | cons s td ih =>
    show (copyTokenData (bl.modify s.iterator (·.acquire s.size)) td)[i]? = _
    rw [ih, List.getElem?_modify, sizeIn_cons]
    rcases bl[i]? with _ | b
    · rfl
    · by_cases hi : s.iterator = i <;> simp [DataBlock.acquire, hi, add_assoc]

/-- The slices of a token that is counted in every block can be released one after the other. -/
theorem releasesOk_of (hv : ∀ s ∈ td, s.iterator < bl.length)
    (hcount : ∀ (i : ℕ) (b : DataBlock), bl[i]? = some b → (sizeIn td i : ℤ) ≤ b.nBytesRef) :
    ReleasesOk bl td := by
  induction td generalizing bl with
  | nil => trivial
  | cons s td ih =>
    obtain ⟨hlt, hv⟩ := List.forall_mem_cons.1 hv
    have hb := List.getElem?_eq_getElem hlt
    refine ⟨⟨_, hb, ?_⟩, ih ?_ ?_⟩
    · have := hcount _ _ hb
      rw [sizeIn_cons, if_pos rfl] at this
      omega
    · rw [List.length_modify]
      exact hv
    · intro i b hb
      rw [List.getElem?_modify] at hb
      obtain ⟨b', hb', rfl⟩ := Option.map_eq_some_iff.1 hb
      have := hcount i b' hb'
      rw [sizeIn_cons] at this
      split_ifs at this ⊢
      · show _ ≤ b'.nBytesRef - s.size
        omega
      · simpa using this

/-! ### Bytes that are not read -/

theorem unreadIn_some (hb : blocks[i]? = some b) : unreadIn blocks cur i =
    if i < cur.iterator then 0 else if i = cur.iterator then b.size - cur.offset else b.size := by
  unfold unreadIn
  rw [hb]

theorem unreadIn_none (h : blocks.length ≤ i) : unreadIn blocks cur i = 0 := by
  unfold unreadIn
  rw [List.getElem?_eq_none h]

theorem unreadIn_before (h : i < cur.iterator) : unreadIn blocks cur i = 0 := by
  unfold unreadIn
  rcases blocks[i]? with _ | b
  · rfl
  · exact if_pos h

theorem unreadIn_block (h : blocks[i]? = bl[i]?) (cur : DataCursor) :
    unreadIn blocks cur i = unreadIn bl cur i := by
  unfold unreadIn
  rw [h]

theorem unreadIn_congr (h : datas blocks = datas bl) (cur : DataCursor) (i : ℕ) :
    unreadIn blocks cur i = unreadIn bl cur i := by
  have hi := congrArg (·[i]?) h
  simp only [datas, List.getElem?_map] at hi
  unfold unreadIn DataBlock.size
  revert hi
  rcases blocks[i]? with _ | b <;> rcases bl[i]? with _ | b'
  · exact fun _ => rfl
  · exact fun hi => absurd hi (Option.some_ne_none _).symm
  · exact fun hi => absurd hi (Option.some_ne_none _)
  · intro hi
    have hdata : b.data = b'.data := Option.some.inj hi
    simp only [hdata]

/-- What is not read from a cursor on lies in its block, or behind it. -/
theorem unreadIn_next (hb : blocks[cur.iterator]? = some b) (i : ℕ) :
    unreadIn blocks cur i = (if cur.iterator = i then b.size - cur.offset else 0) +
      unreadIn blocks ⟨cur.iterator + 1, 0⟩ i := by
  rcases Nat.lt_trichotomy i cur.iterator with hi | rfl | hi
  · rw [unreadIn_before hi, unreadIn_before (Nat.lt_succ_of_lt hi), if_neg hi.ne']
  · rw [unreadIn_some hb, if_neg (Nat.lt_irrefl _), if_pos rfl, if_pos rfl,
      unreadIn_before (Nat.lt_succ_self _), Nat.add_zero]
  · rw [if_neg hi.ne, Nat.zero_add]
    unfold unreadIn
    rcases blocks[i]? with _ | b'
    · rfl
    · simp only [if_neg hi.not_gt, if_neg hi.ne', if_neg (show ¬ i < cur.iterator + 1 by omega),
        Nat.sub_zero, ite_self]

/-- Added up over the blocks, it is the bytes from the cursor on. -/
theorem sum_unreadIn (h : blocks.drop cur.iterator = bl)
    (hoff : ∀ b, blocks[cur.iterator]? = some b → cur.offset ≤ b.size) :
    ∑ i ∈ Finset.range blocks.length, unreadIn blocks cur i = (unreadAt blocks cur).length := by
  induction bl generalizing cur with
  | nil =>
    have hend := List.drop_eq_nil_iff.1 h
    rw [unreadAt_end hend, List.length_nil]
    apply Finset.sum_eq_zero
    intro i hi
    exact unreadIn_before (lt_of_lt_of_le (Finset.mem_range.1 hi) hend)
  | cons b bl ih =>
    obtain ⟨hb, hdrop⟩ := drop_eq_cons_iff.1 h
    have hlt := lt_of_drop_eq_cons h
    have hrest := @ih ⟨cur.iterator + 1, 0⟩ hdrop fun _ _ => Nat.zero_le _
    have hsize : (b.data.drop cur.offset).length = b.size - cur.offset := List.length_drop
    rw [unreadAt_cons h (hoff b hb), List.length_append, ← hrest, hsize]
    simp only [unreadIn_next hb]
    rw [Finset.sum_add_distrib, Finset.sum_ite_eq, if_pos (Finset.mem_range.2 hlt)]

theorem unreadIn_eq_zero (hoff : ∀ b, blocks[cur.iterator]? = some b → cur.offset ≤ b.size)
    (hnil : unreadAt blocks cur = []) (i : ℕ) : unreadIn blocks cur i = 0 := by
  have hsum := sum_unreadIn rfl hoff
  rw [hnil, List.length_nil, Finset.sum_eq_zero_iff] at hsum
  rcases Nat.lt_or_ge i blocks.length with hi | hi
  · exact hsum i (Finset.mem_range.2 hi)
  · exact unreadIn_none hi

namespace BufferReader

theorem sizeIn_pushSlice (cur : DataCursor) (n i : ℕ) :
    sizeIn (pushSlice cur n) i = if cur.iterator = i then n else 0 := by
  unfold pushSlice
  split_ifs with hn hi hi
  · rw [sizeIn_cons, if_pos hi, sizeIn_nil, Nat.add_zero]
  · rw [sizeIn_cons, if_neg hi, sizeIn_nil]
  · rw [sizeIn_nil]
    omega
  · rfl

/-- The slices up to where a search ends are what is read by then, in every block. -/
theorem sizeIn_slicesTo (h : blocks.drop cur.iterator = bl) (i : ℕ) :
    sizeIn (slicesTo (seek p bl cur) bl cur) i + unreadIn blocks (seek p bl cur) i =
      unreadIn blocks cur i := by
  induction bl generalizing cur with
  | nil => exact Nat.zero_add _
  | cons b bl ih =>
    obtain ⟨hb, hdrop⟩ := drop_eq_cons_iff.1 h
    by_cases hfind : b.find p cur.offset = b.size
    · -- the rest of the block is read
      have hlater : cur.iterator < (seek p bl ⟨cur.iterator + 1, 0⟩).iterator :=
        seek_iterator_le p bl ⟨cur.iterator + 1, 0⟩
      rw [seek_miss hfind, slicesTo_later hlater, sizeIn_append, sizeIn_pushSlice, Nat.add_assoc,
        ih hdrop, unreadIn_next hb]
    · have hsince : cur.offset ≤ b.find p cur.offset := Nat.le_add_right _ _
      have hle : b.find p cur.offset - cur.offset ≤ b.size - cur.offset := by
        have : (b.data.drop cur.offset).findIdx p ≤ (b.data.drop cur.offset).length :=
          List.findIdx_le_length
        rw [List.length_drop] at this
        unfold DataBlock.find DataBlock.size
        omega
      have hhit : blocks[(⟨cur.iterator, b.find p cur.offset⟩ : DataCursor).iterator]? = some b := hb
      rw [seek_hit hfind, slicesTo_same, sizeIn_pushSlice, unreadIn_next hb, unreadIn_next hhit]
      split_ifs
      · simp only
        omega
      · simp only
        omega

theorem sizeIn_slicesFor (h : blocks.drop cur.iterator = bl) (len i : ℕ) :
    sizeIn (slicesFor bl cur len).1 i + unreadIn blocks (slicesFor bl cur len).2 i =
      unreadIn blocks cur i := by
  induction bl generalizing cur len with
  | nil => exact Nat.zero_add _
  | cons b bl ih =>
    obtain ⟨hb, hdrop⟩ := drop_eq_cons_iff.1 h
    simp only [slicesFor]
    split_ifs
    · exact Nat.zero_add _
    · have hlast : blocks[(⟨cur.iterator, cur.offset + len⟩ : DataCursor).iterator]? = some b := hb
      rw [unreadIn_next hb, unreadIn_next hlast, sizeIn_cons, sizeIn_nil]
      split_ifs
      · simp only
        omega
      · simp only
        omega
    · have hrest := @ih ⟨cur.iterator + 1, 0⟩ hdrop (len - (b.size - cur.offset))
      rw [unreadIn_next hb, sizeIn_cons, Nat.add_assoc, hrest]

/-! ### The counts -/

/-- Every block counts its bytes that are not read, and those of the tokens that are held. -/
structure Counted (r : BufferReader) (live : List TokenData) : Prop where
  wf : Wf r
  valid : ∀ td ∈ live, ValidToken r.dataBlockList td
  count : ∀ (i : ℕ) (b : DataBlock), r.dataBlockList[i]? = some b →
    b.nBytesRef = unreadIn r.dataBlockList r.blockReadCursor i + heldIn live i

variable {r r' : BufferReader} {bs : Bytes} {cap len n : ℕ}

theorem counted_default : Counted {} [] where
  wf := wf_default
  valid := List.forall_mem_nil _
  count _ _ hb := by simp at hb

theorem Counted.of_same (h : Counted r live) (hwf : Wf r')
    (hblocks : r'.dataBlockList = r.dataBlockList)
    (hcur : r'.blockReadCursor = r.blockReadCursor) : Counted r' live := by
  refine ⟨hwf, ?_, ?_⟩
  · rw [hblocks]
    exact h.valid
  · rw [hblocks, hcur]
    exact h.count

/-! ### Writing -/

theorem Counted.leaveFullBlock (h : Counted r live) : Counted r.leaveFullBlock live := by
  apply h.of_same (leaveFullBlock_spec h.wf).1.wf
  · unfold BufferReader.leaveFullBlock
    split_ifs <;> rfl
  · unfold BufferReader.leaveFullBlock
    split_ifs <;> rfl

theorem Counted.pushBlock (h : Counted r live)
    (hw : r.blockWriteIterator = r.dataBlockList.length) (hpos : 0 < max len cap) :
    Counted (r.pushBlock cap len) live := by
  have hwrites := pushBlock_writes h.wf hw hpos
  refine ⟨hwrites.wf, fun td htd => hwrites.keeps.validToken (h.valid td htd), ?_⟩
  intro i b hb
  rcases pushBlock_block hb with hold | ⟨rfl, rfl⟩
  · have hi := (List.getElem?_eq_some_iff.1 hold).1
    have hunread : unreadIn r.dataBlockList (r.pushBlock cap len).blockReadCursor i =
        unreadIn r.dataBlockList r.blockReadCursor i := by
      unfold BufferReader.pushBlock
      simp only
      split_ifs with hcur
      · rw [unreadIn_before (Nat.lt_succ_of_lt hi), unreadIn_before (hcur ▸ hi)]
      · rfl
    rw [unreadIn_block (hb.trans hold.symm), hunread]
    exact h.count i b hold
  · have hheld : heldIn live r.dataBlockList.length = 0 :=
      heldIn_eq_zero_iff.2 fun td htd => (h.valid td htd).sizeIn_end le_rfl
    rw [unreadIn_some hb, hheld]
    simp [DataBlock.init, DataBlock.size]

theorem Counted.ensureBlock (h : Counted r live) (hpos : 0 < max len cap) :
    Counted (r.ensureBlock cap len) live := by
  unfold BufferReader.ensureBlock
  split_ifs with hw
  · exact h.pushBlock hw hpos
  · exact h

theorem Counted.initReadCursor (h : Counted r live)
    (hlt : r.blockWriteIterator < r.dataBlockList.length) : Counted r.initReadCursor live := by
  have hwf := (initReadCursor_spec h.wf hlt).1.wf
  revert hwf
  unfold BufferReader.initReadCursor
  split_ifs with h0
  · intro hwf
    refine ⟨hwf, h.valid, ?_⟩
    intro i b hb
    have hnil : r.unread = [] := by
      rw [← List.length_eq_zero_iff, ← h.wf.readLeft_eq, h0]
    have hzero : unreadIn r.dataBlockList ⟨r.blockWriteIterator, r.writeBlock.size⟩ i = 0 := by
      have hi : i < r.dataBlockList.length := (List.getElem?_eq_some_iff.1 hb).1
      have hlast := h.wf.write_last
      rw [unreadIn_some hb]
      simp only
      split_ifs with hbefore hat
      · rfl
      · rw [writeBlock_eq (hat ▸ hb)]
        exact Nat.sub_self _
      · omega
    rw [hzero, ← unreadIn_eq_zero h.wf.cursor.offset_le hnil i]
    exact h.count i b hb
  · exact fun _ => h

theorem Counted.prepareWriteBlock (h : Counted r live) (hpos : 0 < max len cap) :
    Counted (r.prepareWriteBlock cap len).2 live := by
  obtain ⟨hwrites, hroom⟩ := leaveFullBlock_spec h.wf
  have hlt := (ensureBlock_spec hwrites.wf cap len hpos hroom).2.1
  exact (h.leaveFullBlock.ensureBlock hpos).initReadCursor hlt

theorem Counted.commitWrite (h : Counted r live) (hprep : Prepared r) (hbs : bs ≠ [])
    (hroom : bs.length ≤ r.writeBlock.getWriteLeft) : Counted (r.commitWrite bs) live := by
  have hwrites := commitWrite_writes hprep hbs hroom
  refine ⟨hwrites.wf, fun td htd => hwrites.keeps.validToken (h.valid td htd), ?_⟩
  intro i b hb
  rcases commitWrite_block hb with ⟨-, hold⟩ | ⟨rfl, rfl⟩
  · rw [unreadIn_block (hb.trans hold.symm)]
    exact h.count i b hold
  · have hold := List.getElem?_eq_getElem hprep.write_lt
    rw [← writeBlock_eq hold] at hold
    have hcount := h.count _ _ hold
    have hle := hprep.cursor_le
    have hcursor : (r.commitWrite bs).blockReadCursor = r.blockReadCursor := rfl
    rw [unreadIn_some hold, if_neg hle.not_gt] at hcount
    rw [unreadIn_some hb, occupy_size, hcursor, if_neg hle.not_gt]
    show r.writeBlock.nBytesRef + bs.length = _
    rw [hcount]
    by_cases hcur : r.blockWriteIterator = r.blockReadCursor.iterator
    · have hoff := h.wf.cursor.offset_le r.writeBlock (hcur ▸ hold)
      rw [if_pos hcur, if_pos hcur]
      omega
    · rw [if_neg hcur, if_neg hcur]
      omega

theorem Counted.writeLoop (h : Counted r live) (hn : bs.length ≤ n) :
    Counted (writeLoop cap n r bs) live := by
  induction n generalizing r bs with
  | zero => exact h
  | succ n ih =>
    unfold BufferReader.writeLoop
    split_ifs with h0
    · exact h
    · have hpos := Nat.pos_of_ne_zero h0
      obtain ⟨-, hprep, hsome, hle, hroom⟩ := prepareWriteBlock_spec h.wf cap hpos
      have hcounted := h.prepareWriteBlock (lt_of_lt_of_le hpos (le_max_left _ cap))
      generalize r.prepareWriteBlock cap bs.length = p at *
      obtain ⟨k, r₁⟩ := p
      simp only at hprep hsome hle hroom hcounted ⊢
      have htake : (bs.take k).length = k := by
        rw [List.length_take]
        omega
      have hne : bs.take k ≠ [] := List.ne_nil_of_length_pos (by omega)
      have hcommit := hcounted.commitWrite hprep hne (by omega)
      exact ih hcommit (by rw [List.length_drop]; omega)

/-! ### Reading -/

/-- A token takes over the count of the bytes that it is read from. -/
theorem Counted.take (h : Counted r live) (hwf : Wf r')
    (hblocks : r'.dataBlockList = r.dataBlockList) (hv : ValidToken r.dataBlockList td)
    (hread : ∀ i, sizeIn td i + unreadIn r.dataBlockList r'.blockReadCursor i =
      unreadIn r.dataBlockList r.blockReadCursor i) : Counted r' (td :: live) := by
  refine ⟨hwf, ?_, ?_⟩
  · rw [hblocks]
    exact List.forall_mem_cons.2 ⟨hv, h.valid⟩
  · rw [hblocks]
    intro i b hb
    have hheld : heldIn (td :: live) i = sizeIn td i + heldIn live i := List.sum_cons
    rw [h.count i b hb, ← hread i, hheld]
    omega

theorem Counted.skip (h : Counted r live) (hwf : Wf r')
    (hblocks : r'.dataBlockList = freeTokenData r.dataBlockList td)
    (hv : ValidToken r.dataBlockList td)
    (hread : ∀ i, sizeIn td i + unreadIn r.dataBlockList r'.blockReadCursor i =
      unreadIn r.dataBlockList r.blockReadCursor i) :
    Counted r' live ∧ ReleasesOk r.dataBlockList td := by
  have hdatas : datas r'.dataBlockList = datas r.dataBlockList := by
    rw [hblocks, datas_freeTokenData]
  refine ⟨⟨hwf, fun td' htd' => (h.valid td' htd').congr hdatas.symm, ?_⟩, ?_⟩
  · intro i b hb
    rw [hblocks, getElem?_freeTokenData] at hb
    obtain ⟨b', hb', rfl⟩ := Option.map_eq_some_iff.1 hb
    rw [unreadIn_congr hdatas]
    show b'.nBytesRef - _ = _
    rw [h.count i b' hb', ← hread i]
    omega
  · apply releasesOk_of
    · intro s hs
      obtain ⟨b, hb, -⟩ := hv s hs
      exact (List.getElem?_eq_some_iff.1 hb).1
    · intro i b hb
      rw [h.count i b hb, ← hread i]
      omega

theorem Wf.validToken_slicesTo (h : Wf r)
    (hne : (seek p r.blocksLeft r.blockReadCursor).iterator ≠ r.dataBlockList.length) :
    ValidToken r.dataBlockList
      (slicesTo (seek p r.blocksLeft r.blockReadCursor) r.blocksLeft r.blockReadCursor) := by
  have hex : ∃ x ∈ r.unread, p x := by
    by_contra hc
    apply hne
    apply h.seek_end
    intro x hx
    rw [Bool.eq_false_iff]
    exact fun hpx => hc ⟨x, hx, hpx⟩
  exact (h.seek_found hex).valid

theorem Counted.skipBytes (h : Counted r live) (len : ℕ) :
    Counted (r.skipBytes len).2 live ∧ ReleasesOk r.dataBlockList (r.skipped (.skipBytes len)) := by
  obtain ⟨e, r', heq, -, hreads⟩ := skipBytes_unread h.wf len
  have hwf : Wf (r.skipBytes len).2 := by
    rw [heq]
    exact hreads.wf
  revert hwf
  unfold skipped BufferReader.skipBytes
  dsimp only
  split_ifs with hlt
  · exact fun _ => ⟨h, trivial⟩
  · intro hwf
    exact h.skip hwf rfl (h.wf.slicesFor (Nat.le_of_not_lt hlt)).2.2.2
      fun i => sizeIn_slicesFor rfl len i

theorem skipped_expectBytes (h : Wf r) {str : Bytes}
    (hstr : str.length ≤ r.readLeft → str <+: r.unread) :
    r.skipped (.expectBytes str) = r.skipped (.skipBytes str.length) := by
  unfold skipped
  dsimp only
  by_cases hlt : str.length > r.readLeft
  · rw [if_pos hlt, if_pos hlt]
  · have heq := expectLoop_eq h.dense h.write_last rfl h.cursor (hstr (Nat.le_of_not_lt hlt))
    rw [if_neg hlt, if_neg hlt]
    exact congrArg (·.2.1) heq

/-- **One call** keeps the counts, and releases what is counted. -/
theorem Counted.exec (h : Counted r live) (hcap : 0 < cap) (op : BufferOp)
    (hfits : r.Fits cap op) :
    Counted (r.exec cap op).2 (r.taken op ++ live) ∧
      ReleasesOk r.dataBlockList (r.skipped op) := by
  have hwf := (exec_unread h.wf hcap op hfits).1
  have hpos : ∀ len, 0 < max len cap := fun len => lt_of_lt_of_le hcap (le_max_right len cap)
  have hfor (len : ℕ) (hle : ¬ len > r.readLeft) :=
    (h.wf.slicesFor (Nat.le_of_not_lt hle)).2.2.2
  cases op with
  | write bs => exact ⟨h.writeLoop le_rfl, trivial⟩
  | prepareWriteBlock len => exact ⟨h.prepareWriteBlock (hpos len), trivial⟩
  | commitWrite len bs =>
    obtain ⟨-, hprep, hroom⟩ := prepareWriteBlock_room h.wf (hpos len)
    have hcounted := h.prepareWriteBlock (hpos len)
    refine ⟨?_, trivial⟩
    by_cases hbs : bs = []
    · simp only [BufferReader.exec, hbs, commitWrite_nil hroom]
      exact hcounted
    · exact hcounted.commitWrite hprep hbs (hfits.trans (min_le_right _ _))
  | peek => exact ⟨h, trivial⟩
  | readUntil value =>
    refine ⟨?_, trivial⟩
    revert hwf
    simp only [BufferReader.exec, taken, BufferReader.readUntil]
    split_ifs with hend
    · intro hwf
      exact h.take hwf rfl validToken_nil fun i => Nat.zero_add _
    · intro hwf
      exact h.take hwf rfl (h.wf.validToken_slicesTo hend) fun i => sizeIn_slicesTo rfl i
  | skipUntil value =>
    revert hwf
    unfold skipped
    simp only [BufferReader.exec, taken, BufferReader.skipUntil]
    split_ifs with hend
    · exact fun _ => ⟨h, trivial⟩
    · intro hwf
      exact h.skip hwf rfl (h.wf.validToken_slicesTo hend) fun i => sizeIn_slicesTo rfl i
  | readUnsigned =>
    revert hwf
    unfold skipped
    simp only [BufferReader.exec, taken, BufferReader.readUnsigned]
    split_ifs with h2 hcur hend
    · exact fun _ => ⟨h, trivial⟩
    · exact fun _ => ⟨h, trivial⟩
    · exact fun _ => ⟨h, trivial⟩
    · intro hwf
      exact h.skip hwf rfl (h.wf.validToken_slicesTo hend) fun i => sizeIn_slicesTo rfl i
  | readBytes len =>
    refine ⟨?_, trivial⟩
    revert hwf
    simp only [BufferReader.exec, taken, BufferReader.readBytes]
    split_ifs with h0 hlt
    · intro hwf
      exact h.take hwf rfl validToken_nil fun i => Nat.zero_add _
    · intro hwf
      exact h.take hwf rfl validToken_nil fun i => Nat.zero_add _
    · intro hwf
      exact h.take hwf rfl (hfor len hlt) fun i => sizeIn_slicesFor rfl len i
  | skipBytes len => exact h.skipBytes len
  | expectBytes str =>
    rw [skipped_expectBytes h.wf hfits]
    show Counted (r.expectBytes str).2 live ∧ _
    rw [expectBytes_eq h.wf hfits]
    exact h.skipBytes str.length

/-! ### Tokens -/

theorem Counted.copy (h : Counted r live) (htd : td ∈ live) :
    Counted { r with dataBlockList := copyTokenData r.dataBlockList td } (td :: live) := by
  have hsame : (copyTokenData r.dataBlockList td).map (fun b => (b.data, b.capacity)) =
      r.dataBlockList.map fun b => (b.data, b.capacity) := map_copyTokenData (fun _ _ => rfl) td
  have hreads := h.wf.reads hsame h.wf.cursor h.wf.readLeft_eq
  refine ⟨hreads.wf, ?_, ?_⟩
  · intro td' htd'
    have hmem : td' ∈ live := by
      rcases List.mem_cons.1 htd' with rfl | htd'
      · exact htd
      · exact htd'
    exact (h.valid td' hmem).congr hreads.datas_eq.symm
  · intro i b hb
    have hunread : unreadIn (copyTokenData r.dataBlockList td) r.blockReadCursor i =
        unreadIn r.dataBlockList r.blockReadCursor i := unreadIn_congr hreads.datas_eq _ i
    have hheld : heldIn (td :: live) i = sizeIn td i + heldIn live i := List.sum_cons
    simp only [getElem?_copyTokenData] at hb
    obtain ⟨b', hb', rfl⟩ := Option.map_eq_some_iff.1 hb
    show b'.nBytesRef + (sizeIn td i : ℤ) = (unreadIn (copyTokenData _ td) _ i : ℤ) + _
    rw [hunread, h.count i b' hb', hheld]
    omega

theorem Counted.free (h : Counted r live) (htd : td ∈ live) :
    Counted { r with dataBlockList := freeTokenData r.dataBlockList td } (live.erase td) ∧
      ReleasesOk r.dataBlockList td := by
  have hsame := map_data_capacity_freeTokenData r.dataBlockList td
  have hreads := h.wf.reads hsame h.wf.cursor h.wf.readLeft_eq
  refine ⟨⟨hreads.wf, ?_, ?_⟩, releasesOk_of ?_ ?_⟩
  · intro td' htd'
    exact (h.valid td' (List.mem_of_mem_erase htd')).congr hreads.datas_eq.symm
  · intro i b hb
    have hunread : unreadIn (freeTokenData r.dataBlockList td) r.blockReadCursor i =
        unreadIn r.dataBlockList r.blockReadCursor i := unreadIn_congr hreads.datas_eq _ i
    have hheld := heldIn_erase htd i
    simp only [getElem?_freeTokenData] at hb
    obtain ⟨b', hb', rfl⟩ := Option.map_eq_some_iff.1 hb
    show b'.nBytesRef - (sizeIn td i : ℤ) = (unreadIn (freeTokenData _ td) _ i : ℤ) + _
    rw [hunread, h.count i b' hb', ← hheld]
    omega
  · intro slice hslice
    obtain ⟨b, hb, -⟩ := h.valid td htd slice hslice
    exact (List.getElem?_eq_some_iff.1 hb).1
  · intro i b hb
    have hheld := heldIn_erase htd i
    rw [h.count i b hb, ← hheld]
    omega

end BufferReader

/-! ### Runs -/

namespace Holding

open BufferReader

variable {s s' : Holding} {op : TokenOp} {cap : ℕ} {tr : List (Transition Holding TokenOp)}

theorem does_exec (op : TokenOp) (hfits : s.Fits cap op) : Does cap s op (s.exec cap op) :=
  ⟨hfits, rfl⟩

theorem Does.counted (h : Counted s.reader s.live) (hcap : 0 < cap) (hdoes : Does cap s op s') :
    Counted s'.reader s'.live ∧ ReleasesOk s.reader.dataBlockList (s.released op) := by
  obtain ⟨hfits, rfl⟩ := hdoes
  cases op with
  | call op => exact h.exec hcap op hfits
  | copyTokenData td => exact ⟨h.copy hfits, trivial⟩
  | freeTokenData td => exact h.free hfits

/-- A block counts nothing exactly when nobody needs it. -/
theorem reusable_iff {i : ℕ} {b : DataBlock} (h : Counted s.reader s.live)
    (hb : s.reader.dataBlockList[i]? = some b) : b.reusable = true ↔ ¬ s.Needs i := by
  have hlive : heldIn s.live i = 0 ↔
      ¬ ∃ td ∈ s.live, ∃ slice ∈ td, slice.iterator = i ∧ 0 < slice.size := by
    simp only [heldIn_eq_zero_iff, sizeIn_eq_zero_iff]
    push Not
    simp
  unfold DataBlock.reusable Needs
  rw [decide_eq_true_iff, h.count i b hb, not_or, ← hlive]
  omega

/-- **The reference counts are exact** in every run: a block counts its bytes that are not read and
those of the tokens that are held. No release takes a count below zero, and a block is reusable
exactly when nobody needs it. -/
theorem run_counted (hcap : 0 < cap) (hrun : Run (Does cap) {} tr s) :
    ∀ t ∈ tr, ReleasesOk t.before.reader.dataBlockList (t.before.released t.event) ∧
      ∀ (i : ℕ) (b : DataBlock), t.after.reader.dataBlockList[i]? = some b →
        b.nBytesRef = unreadIn t.after.reader.dataBlockList t.after.reader.blockReadCursor i +
            heldIn t.after.live i ∧
          (b.reusable = true ↔ ¬ t.after.Needs i) := by
  refine hrun.forall_of (I := fun s => Counted s.reader s.live) (C := fun _ _ => True)
    counted_default (fun s op s' h hdoes _ => ?_) fun _ _ => trivial
  obtain ⟨hcounted, hreleases⟩ := hdoes.counted h hcap
  exact ⟨hcounted, hreleases, fun i b hb => ⟨hcounted.count i b hb, reusable_iff hcounted hb⟩⟩

/-- A token over three blocks is copied, and freed twice. -/
theorem run_counted_token : ∃ tr s, Run (Does 3) {} tr s ∧
    tr.map (fun t => t.after.reader.dataBlockList.map (·.nBytesRef)) =
      [[3], [3, 3], [3, 3, 2], [3, 3, 2], [3, 3, 2], [6, 6, 3], [3, 3, 2], [3, 3, 1], [0, 0, 0]] ∧
    ∀ t ∈ tr, ReleasesOk t.before.reader.dataBlockList (t.before.released t.event) ∧
      ∀ (i : ℕ) (b : DataBlock), t.after.reader.dataBlockList[i]? = some b →
        b.nBytesRef = unreadIn t.after.reader.dataBlockList t.after.reader.blockReadCursor i +
            heldIn t.after.live i ∧
          (b.reusable = true ↔ ¬ t.after.Needs i) := by
  have hrun := (((((((((Run.nil : Run (Does 3) {} [] {}).snoc
    (does_exec (.call (.write (ascii "abc"))) trivial)).snoc
    (does_exec (.call (.commitWrite 3 (ascii "def"))) (Nat.le_refl 3))).snoc
    (does_exec (.call (.write (ascii "gh"))) trivial)).snoc
    (does_exec (.call (.readUntil 120)) trivial)).snoc
    (does_exec (.call (.readUntil 104)) trivial)).snoc
    (does_exec (.copyTokenData [⟨0, 0, 3⟩, ⟨1, 0, 3⟩, ⟨2, 0, 1⟩]) List.mem_cons_self)).snoc
    (does_exec (.freeTokenData [⟨0, 0, 3⟩, ⟨1, 0, 3⟩, ⟨2, 0, 1⟩]) List.mem_cons_self)).snoc
    (does_exec (.call (.expectBytes (ascii "h"))) fun _ => ⟨[], rfl⟩)).snoc
    (does_exec (.freeTokenData [⟨0, 0, 3⟩, ⟨1, 0, 3⟩, ⟨2, 0, 1⟩]) List.mem_cons_self)
  exact ⟨_, _, hrun, by decide, run_counted (by decide) hrun⟩

end Holding

end Libmc
