import Libmc.BufferQueue

/-!
# Writing into the buffer reader

A write puts its bytes at the end of what is unread, and leaves every valid token its bytes
(`write_writes`, `Extends.tokenBytes_eq`). The three parts of `prepareWriteBlock` keep the
invariant and the unread bytes; `commitWrite` adds to the last block.
-/

namespace Libmc

namespace BufferReader

variable {blocks bl bl' : List DataBlock} {cur : DataCursor} {b : DataBlock} {n : ℕ}
  {td : TokenData} {r r' : BufferReader}

/-- Every block of `bl` is still there in `bl'`, with its bytes at the front. -/
def Extends (bl bl' : List DataBlock) : Prop :=
  ∀ (i : ℕ) (b : DataBlock), bl[i]? = some b →
    ∃ b' : DataBlock, bl'[i]? = some b' ∧ b.data <+: b'.data

theorem Extends.refl (bl : List DataBlock) : Extends bl bl := fun _ b hb => ⟨b, hb, List.prefix_rfl⟩

theorem Extends.trans {bl'' : List DataBlock} (h : Extends bl bl') (h' : Extends bl' bl'') :
    Extends bl bl'' := by
  intro i b hb
  obtain ⟨b', hb', hp⟩ := h i b hb
  obtain ⟨b'', hb'', hp'⟩ := h' i b' hb'
  exact ⟨b'', hb'', hp.trans hp'⟩

theorem Extends.sliceBytes_eq {s : DataBlockSlice} (h : Extends bl bl')
    (hb : bl[s.iterator]? = some b) (hs : s.offset + s.size ≤ b.size) :
    sliceBytes bl' s = sliceBytes bl s := by
  obtain ⟨b', hb', t, ht⟩ := h s.iterator b hb
  unfold DataBlock.size at hs
  simp only [sliceBytes, hb, hb', Option.map_some, Option.getD_some, ← ht]
  rw [List.drop_append_of_le_length (by omega), List.take_append_of_le_length]
  rw [List.length_drop]
  omega

/-- Valid tokens keep their bytes. -/
theorem Extends.tokenBytes_eq (h : Extends bl bl') (hv : ValidToken bl td) :
    tokenBytes bl' td = tokenBytes bl td := by
  unfold tokenBytes
  refine List.flatMap_congr fun s hs => ?_
  obtain ⟨b, hb, hle⟩ := hv s hs
  exact h.sliceBytes_eq hb hle

theorem Extends.validToken (h : Extends bl bl') (hv : ValidToken bl td) : ValidToken bl' td := by
  intro s hs
  obtain ⟨b, hb, hle⟩ := hv s hs
  obtain ⟨b', hb', hp⟩ := h s.iterator b hb
  exact ⟨b', hb', hle.trans hp.length_le⟩

/-- `r'` comes from `r` by writing `bs`. -/
structure Writes (r : BufferReader) (bs : Bytes) (r' : BufferReader) : Prop where
  wf : Wf r'
  unread_eq : r'.unread = r.unread ++ bs
  keeps : Extends r.dataBlockList r'.dataBlockList

variable {r'' : BufferReader} {bs bs' : Bytes} {cap len : ℕ}

theorem Wf.writes_refl (h : Wf r) : Writes r [] r := ⟨h, (List.append_nil _).symm, Extends.refl _⟩

theorem Writes.trans (h : Writes r bs r') (h' : Writes r' bs' r'') : Writes r (bs ++ bs') r'' :=
  ⟨h'.wf, by rw [h'.unread_eq, h.unread_eq, List.append_assoc], h.keeps.trans h'.keeps⟩

theorem writeBlock_eq (hb : r.dataBlockList[r.blockWriteIterator]? = some b) : r.writeBlock = b := by
  unfold writeBlock
  rw [hb]
  rfl

theorem leaveFullBlock_spec (h : Wf r) :
    Writes r [] (leaveFullBlock r) ∧
      ((leaveFullBlock r).blockWriteIterator ≠ (leaveFullBlock r).dataBlockList.length →
        0 < (leaveFullBlock r).writeBlock.getWriteLeft) := by
  unfold leaveFullBlock
  split_ifs with hc
  · obtain ⟨hne, hfull⟩ := hc
    have hlt : r.blockWriteIterator < r.dataBlockList.length := lt_of_le_of_ne h.write_le hne
    have hlast := h.write_last
    refine ⟨⟨⟨h.readLeft_eq, h.cursor, fun i b hb hi hnil => ?_, hlt, by simp only; omega,
      h.size_le, h.capacity_pos⟩, (List.append_nil _).symm, Extends.refl _⟩, fun hc => ?_⟩
    · rcases Nat.lt_succ_iff_lt_or_eq.1 hi with hi | rfl
      · exact h.dense i b hb hi hnil
      · have hcap := h.capacity_pos b (List.mem_of_getElem? hb)
        rw [writeBlock_eq hb] at hfull
        simp only [DataBlock.getWriteLeft, DataBlock.size, hnil, List.length_nil] at hfull
        omega
    · simp only at hc
      omega
  · exact ⟨h.writes_refl, fun hne => Nat.pos_of_ne_zero fun h0 => hc ⟨hne, h0⟩⟩

theorem unreadAt_push (hle : cur.iterator ≤ blocks.length) :
    unreadAt (blocks ++ [DataBlock.init n]) cur = unreadAt blocks cur := by
  unfold unreadAt
  rw [List.drop_append_of_le_length hle]
  simp [datas, DataBlock.init]

theorem pushBlock_writes (h : Wf r) (hw : r.blockWriteIterator = r.dataBlockList.length)
    (hpos : 0 < max len cap) : Writes r [] (pushBlock cap r len) := by
  have hunread : (pushBlock cap r len).unread = r.unread ∧
      CursorOk (r.dataBlockList ++ [DataBlock.init (max len cap)])
        (pushBlock cap r len).blockReadCursor := by
    unfold pushBlock unread
    by_cases hc : r.blockReadCursor.iterator = r.dataBlockList.length
    · simp only [if_pos hc]
      rw [unreadAt_end hc.ge, unreadAt_end (by simp)]
      exact ⟨rfl, by simp, fun b hb => by simp at hb, fun b hb => by simp at hb⟩
    · have hlt : r.blockReadCursor.iterator < r.dataBlockList.length :=
        lt_of_le_of_ne h.cursor.le hc
      simp only [if_neg hc]
      rw [unreadAt_push hlt.le]
      refine ⟨rfl, by simp only [List.length_append]; omega, fun b hb => ?_, fun b hb hne => ?_⟩
      · rw [List.getElem?_append_left hlt] at hb
        exact h.cursor.offset_le b hb
      · rw [List.getElem?_append_left hlt] at hb
        rw [unreadAt_push hlt.le] at hne
        exact h.cursor.offset_lt b hb hne
  refine ⟨⟨?_, hunread.2, fun i b hb hi => ?_, by simp [pushBlock], by simp [pushBlock], ?_, ?_⟩,
    by rw [hunread.1, List.append_nil], fun i b hb => ?_⟩
  · rw [hunread.1, ← h.readLeft_eq]
    rfl
  · rw [show (pushBlock cap r len).dataBlockList = r.dataBlockList ++ _ from rfl,
      List.getElem?_append_left hi] at hb
    exact h.dense i b hb (hw ▸ hi)
  · intro b hb
    rcases List.mem_append.1 hb with hb | hb
    · exact h.size_le b hb
    · obtain rfl := List.mem_singleton.1 hb
      exact Nat.zero_le _
  · intro b hb
    rcases List.mem_append.1 hb with hb | hb
    · exact h.capacity_pos b hb
    · obtain rfl := List.mem_singleton.1 hb
      exact hpos
  · refine ⟨b, ?_, List.prefix_rfl⟩
    exact (List.getElem?_append_left (List.getElem?_eq_some_iff.1 hb).1).trans hb

theorem ensureBlock_spec (h : Wf r) (cap len : ℕ) (hpos : 0 < max len cap)
    (hroom : r.blockWriteIterator ≠ r.dataBlockList.length → 0 < r.writeBlock.getWriteLeft) :
    Writes r [] (ensureBlock cap r len) ∧
      (ensureBlock cap r len).blockWriteIterator < (ensureBlock cap r len).dataBlockList.length ∧
      0 < (ensureBlock cap r len).writeBlock.getWriteLeft := by
  unfold ensureBlock
  split_ifs with hw
  · refine ⟨pushBlock_writes h hw hpos, by simp [pushBlock], ?_⟩
    simpa [pushBlock, writeBlock, DataBlock.getWriteLeft, DataBlock.init, DataBlock.size] using hpos
  · exact ⟨h.writes_refl, lt_of_le_of_ne h.write_le hw, hroom hw⟩

/-- The write iterator is at a block, the cursor is not past it, and is at it when nothing is
unread. -/
structure Prepared (r : BufferReader) : Prop where
  wf : Wf r
  write_lt : r.blockWriteIterator < r.dataBlockList.length
  cursor_le : r.blockReadCursor.iterator ≤ r.blockWriteIterator
  cursor_eq : r.unread = [] → r.blockReadCursor.iterator = r.blockWriteIterator

theorem initReadCursor_spec (h : Wf r) (hlt : r.blockWriteIterator < r.dataBlockList.length) :
    Writes r [] (initReadCursor r) ∧ Prepared (initReadCursor r) ∧
      (initReadCursor r).writeBlock = r.writeBlock := by
  have hlast := h.write_last
  unfold initReadCursor
  split_ifs with h0
  · have hunread : r.unread = [] := by
      rw [← List.length_eq_zero_iff, ← h.readLeft_eq, h0]
    have hb := List.getElem?_eq_getElem hlt
    have hat : unreadAt r.dataBlockList ⟨r.blockWriteIterator, r.writeBlock.size⟩ = [] := by
      rw [writeBlock_eq hb, unreadAt_cons (drop_eq_cons_iff.2 ⟨hb, rfl⟩) le_rfl,
        unreadAt_end (by simp only; omega), List.append_nil]
      exact List.drop_eq_nil_of_le le_rfl
    have hwf : Wf { r with blockReadCursor := ⟨r.blockWriteIterator, r.writeBlock.size⟩ } := by
      refine ⟨?_, ⟨hlt.le, fun b hb => ?_, fun b hb hne => absurd hat hne⟩, h.dense, h.write_le,
        h.write_last, h.size_le, h.capacity_pos⟩
      · simp only [unread, hat, h0, List.length_nil]
      · exact (congrArg DataBlock.size (writeBlock_eq (r := r) hb)).le
    refine ⟨⟨hwf, ?_, Extends.refl _⟩, ⟨hwf, hlt, le_rfl, fun _ => rfl⟩, rfl⟩
    rw [hunread]
    exact hat
  · have hne : r.unread ≠ [] := by
      rw [← List.length_pos_iff_ne_nil, ← h.readLeft_eq]
      omega
    have hcur : r.blockReadCursor.iterator ≤ r.blockWriteIterator := by
      by_contra hc
      exact hne (unreadAt_end (by omega))
    exact ⟨h.writes_refl, ⟨h, hlt, hcur, fun hnil => absurd hnil hne⟩, rfl⟩

/-- A block with room is prepared, also for no bytes. -/
theorem prepareWriteBlock_room (h : Wf r) (hpos : 0 < max len cap) :
    Writes r [] (prepareWriteBlock cap r len).2 ∧ Prepared (prepareWriteBlock cap r len).2 ∧
      0 < (prepareWriteBlock cap r len).2.writeBlock.getWriteLeft := by
  obtain ⟨h1, hroom1⟩ := leaveFullBlock_spec h
  obtain ⟨h2, hlt, hroom2⟩ := ensureBlock_spec h1.wf cap len hpos hroom1
  obtain ⟨h3, hprep, hblock⟩ := initReadCursor_spec h2.wf hlt
  rw [← hblock] at hroom2
  exact ⟨(h1.trans h2).trans h3, hprep, hroom2⟩

theorem prepareWriteBlock_spec (h : Wf r) (cap : ℕ) (hlen : 0 < len) :
    Writes r [] (prepareWriteBlock cap r len).2 ∧ Prepared (prepareWriteBlock cap r len).2 ∧
      0 < (prepareWriteBlock cap r len).1 ∧ (prepareWriteBlock cap r len).1 ≤ len ∧
      (prepareWriteBlock cap r len).1 ≤ (prepareWriteBlock cap r len).2.writeBlock.getWriteLeft := by
  obtain ⟨hwrites, hprep, hroom⟩ := prepareWriteBlock_room h (lt_of_lt_of_le hlen (le_max_left _ cap))
  exact ⟨hwrites, hprep, lt_min hlen hroom, min_le_left _ _, min_le_right _ _⟩

theorem Prepared.split (h : Prepared r) : ∃ pre b, r.dataBlockList = pre ++ [b] ∧
    r.blockWriteIterator = pre.length ∧ r.writeBlock = b := by
  have hlt := h.write_lt
  have hlast := h.wf.write_last
  have hb := List.getElem?_eq_getElem hlt
  refine ⟨r.dataBlockList.take r.blockWriteIterator, r.dataBlockList[r.blockWriteIterator], ?_, ?_,
    writeBlock_eq hb⟩
  · conv_lhs => rw [← List.take_append_drop r.blockWriteIterator r.dataBlockList]
    rw [List.drop_eq_getElem_cons hlt, List.drop_eq_nil_of_le hlast]
  · rw [List.length_take]
    omega

theorem modify_append_singleton {α : Type*} (pre : List α) (a : α) (f : α → α) :
    (pre ++ [a]).modify pre.length f = pre ++ [f a] := by
  induction pre with
  | nil => rfl
  | cons x pre ih => exact congrArg (x :: ·) ih

/-- Bytes added to the last block are added to what is unread. -/
theorem unreadAt_occupy {pre : List DataBlock} (hle : cur.iterator ≤ pre.length)
    (hoff : ∀ b', (pre ++ [b])[cur.iterator]? = some b' → cur.offset ≤ b'.size) :
    unreadAt (pre ++ [b.occupy bs]) cur = unreadAt (pre ++ [b]) cur ++ bs := by
  unfold unreadAt
  rw [List.drop_append_of_le_length hle, List.drop_append_of_le_length hle]
  simp only [datas, List.map_append, List.map_cons, List.map_nil, List.flatten_append,
    List.flatten_cons, List.flatten_nil, List.append_nil, DataBlock.occupy]
  rw [← List.append_assoc, List.drop_append_of_le_length]
  rcases Nat.lt_or_ge cur.iterator pre.length with hlt | hge
  · have hb := List.getElem?_eq_getElem hlt
    have hsz := hoff _ ((List.getElem?_append_left hlt).trans hb)
    rw [List.drop_eq_getElem_cons hlt]
    simp only [List.map_cons, List.flatten_cons, List.length_append]
    unfold DataBlock.size at hsz
    omega
  · have hsz := hoff b (by rw [le_antisymm hle hge]; simp)
    rw [List.drop_eq_nil_of_le hge]
    simpa [DataBlock.size] using hsz

theorem occupy_size (b : DataBlock) (bs : Bytes) : (b.occupy bs).size = b.size + bs.length :=
  List.length_append

theorem commitWrite_writes (h : Prepared r) (hbs : bs ≠ [])
    (hroom : bs.length ≤ r.writeBlock.getWriteLeft) : Writes r bs (commitWrite r bs) := by
  obtain ⟨pre, b, hbl, hw, hblock⟩ := h.split
  have hcur := h.cursor_le
  have hpos := List.length_pos_of_ne_nil hbs
  rw [hblock] at hroom
  have hsize := h.wf.size_le b (by rw [hbl]; simp)
  unfold DataBlock.getWriteLeft at hroom
  have hocc := occupy_size b bs
  have hbl' : (commitWrite r bs).dataBlockList = pre ++ [b.occupy bs] := by
    show r.dataBlockList.modify r.blockWriteIterator _ = _
    rw [hbl, hw, modify_append_singleton]
  have hoff := h.wf.cursor.offset_le
  rw [hbl] at hoff
  have hunread : (commitWrite r bs).unread = r.unread ++ bs := by
    unfold unread
    rw [hbl', hbl]
    exact unreadAt_occupy (hw ▸ hcur) hoff
  have hlast : ∀ (i : ℕ) (b' : DataBlock), (pre ++ [b.occupy bs])[i]? = some b' →
      i < pre.length ∧ pre[i]? = some b' ∨ i = pre.length ∧ b' = b.occupy bs := by
    intro i b' hb'
    rcases Nat.lt_or_ge i pre.length with hlt | hge
    · exact .inl ⟨hlt, by rwa [List.getElem?_append_left hlt] at hb'⟩
    · rw [List.getElem?_append_right hge] at hb'
      rcases hi : i - pre.length with _ | k
      · rw [hi] at hb'
        exact .inr ⟨by omega, (Option.some.inj hb').symm⟩
      · rw [hi] at hb'
        cases hb'
  have hpre : ∀ (i : ℕ) (b' : DataBlock), pre[i]? = some b' → r.dataBlockList[i]? = some b' := by
    intro i b' hb'
    rw [hbl, List.getElem?_append_left (List.getElem?_eq_some_iff.1 hb').1]
    exact hb'
  have hmem : ∀ b' ∈ pre, b' ∈ r.dataBlockList := fun b' hb' => by
    rw [hbl]
    exact List.mem_append_left _ hb'
  have hwrite : (commitWrite r bs).blockWriteIterator = pre.length ∨
      (commitWrite r bs).blockWriteIterator = pre.length + 1 := by
    unfold commitWrite
    simp only
    split_ifs <;> omega
  refine ⟨⟨?_, ⟨?_, ?_, ?_⟩, ?_, ?_, ?_, ?_, ?_⟩, hunread, ?_⟩
  · rw [hunread, List.length_append, ← h.wf.readLeft_eq]
    rfl
  · rw [hbl', List.length_append]
    exact (hw ▸ hcur).trans (Nat.le_add_right _ _)
  · intro b' hb'
    rw [hbl'] at hb'
    rcases hlast _ b' hb' with ⟨-, hb'⟩ | ⟨hi, rfl⟩
    · exact h.wf.cursor.offset_le b' (hpre _ b' hb')
    · rw [hocc]
      refine (h.wf.cursor.offset_le b ?_).trans (Nat.le_add_right _ _)
      rw [hbl, show r.blockReadCursor.iterator = pre.length from hi]
      simp
  · intro b' hb' _
    rw [hbl'] at hb'
    rcases hlast _ b' hb' with ⟨hi, hb'⟩ | ⟨hi, rfl⟩
    · refine h.wf.cursor.offset_lt b' (hpre _ b' hb') fun hnil => ?_
      have := h.cursor_eq hnil
      exact hi.ne (this.trans hw)
    · rw [hocc]
      refine lt_of_le_of_lt (h.wf.cursor.offset_le b ?_) (Nat.lt_add_of_pos_right hpos)
      rw [hbl, show r.blockReadCursor.iterator = pre.length from hi]
      simp
  · intro i b' hb' hi hnil
    rw [hbl'] at hb'
    rcases hlast _ b' hb' with ⟨hi', hb'⟩ | ⟨-, rfl⟩
    · exact h.wf.dense i b' (hpre _ b' hb') (hw ▸ hi') hnil
    · exact hbs (List.append_eq_nil_iff.1 hnil).2
  · rw [hbl', List.length_append, List.length_singleton]
    omega
  · rw [hbl', List.length_append, List.length_singleton]
    omega
  · intro b' hb'
    rw [hbl'] at hb'
    rcases List.mem_append.1 hb' with hb' | hb'
    · exact h.wf.size_le b' (hmem b' hb')
    · obtain rfl := List.mem_singleton.1 hb'
      show (b.occupy bs).size ≤ b.capacity
      omega
  · intro b' hb'
    rw [hbl'] at hb'
    rcases List.mem_append.1 hb' with hb' | hb'
    · exact h.wf.capacity_pos b' (hmem b' hb')
    · obtain rfl := List.mem_singleton.1 hb'
      exact h.wf.capacity_pos b (by rw [hbl]; simp)
  · intro i b' hb'
    rw [hbl]  at hb'
    rw [hbl']
    rcases Nat.lt_or_ge i pre.length with hlt | hge
    · rw [List.getElem?_append_left hlt] at hb' ⊢
      exact ⟨b', hb', List.prefix_rfl⟩
    · obtain rfl : i = pre.length := by
        have := (List.getElem?_eq_some_iff.1 hb').1
        rw [List.length_append, List.length_singleton] at this
        omega
      rw [List.getElem?_concat_length] at hb' ⊢
      obtain rfl := Option.some.inj hb'
      exact ⟨_, rfl, List.prefix_append _ _⟩

theorem writeLoop_writes (h : Wf r) (hn : bs.length ≤ n) : Writes r bs (writeLoop cap n r bs) := by
  induction n generalizing r bs with
  | zero =>
    obtain rfl : bs = [] := List.length_eq_zero_iff.1 (Nat.le_zero.1 hn)
    exact h.writes_refl
  | succ n ih =>
    unfold writeLoop
    split_ifs with h0
    · obtain rfl : bs = [] := List.length_eq_zero_iff.1 h0
      exact h.writes_refl
    · obtain ⟨hprep, hok, hpos, hle, hroom⟩ :=
        prepareWriteBlock_spec h cap (Nat.pos_of_ne_zero h0)
      generalize prepareWriteBlock cap r bs.length = p at *
      obtain ⟨k, r₁⟩ := p
      simp only at hprep hok hpos hle hroom ⊢
      have htake : (bs.take k).length = k := by
        rw [List.length_take]
        omega
      have hcommit : Writes r₁ (bs.take k) _ := commitWrite_writes hok
        (List.ne_nil_of_length_pos (by omega)) (by omega)
      have hrest : Writes _ (bs.drop k) _ := ih hcommit.wf (by rw [List.length_drop]; omega)
      have hall := (hprep.trans hcommit).trans hrest
      rwa [List.nil_append, List.take_append_drop] at hall

/-- **A write puts its bytes at the end of what is unread**, and leaves the tokens alone. -/
theorem write_writes (h : Wf r) (cap : ℕ) (bs : Bytes) : Writes r bs (write cap r bs) :=
  writeLoop_writes h le_rfl

theorem wf_default : Wf {} where
  readLeft_eq := rfl
  cursor := ⟨le_rfl, fun _ hb => by simp at hb, fun _ hb => by simp at hb⟩
  dense _ _ hb := by simp at hb
  write_le := le_rfl
  write_last := Nat.zero_le _
  size_le _ hb := by simp at hb
  capacity_pos _ hb := by simp at hb

theorem wf_reset (h : Wf r) : Wf r.reset ∧ r.reset.unread = [] := by
  have hdata : ∀ b ∈ r.reset.dataBlockList, b.data = [] ∧ 0 < b.capacity := by
    intro b hb
    obtain ⟨b', hb', rfl⟩ := List.mem_map.1 hb
    exact ⟨rfl, h.capacity_pos b' (List.mem_of_mem_take hb')⟩
  have hun : r.reset.unread = [] := by
    unfold unread unreadAt datas
    rw [show r.reset.blockReadCursor = ⟨0, 0⟩ from rfl, List.drop_zero, List.drop_zero,
      List.flatten_eq_nil_iff]
    intro l hl
    obtain ⟨b, hb, rfl⟩ := List.mem_map.1 hl
    exact (hdata b hb).1
  refine ⟨⟨by rw [hun]; rfl, ⟨Nat.zero_le _, fun _ _ => Nat.zero_le _, fun _ _ hne => absurd hun hne⟩,
    fun i b _ hi => absurd hi (Nat.not_lt_zero i), Nat.zero_le _, ?_, fun b hb => ?_,
    fun b hb => (hdata b hb).2⟩, hun⟩
  · simp only [reset, List.length_map, List.length_take]
    omega
  · unfold DataBlock.size
    rw [(hdata b hb).1]
    exact Nat.zero_le _

end BufferReader

end Libmc
