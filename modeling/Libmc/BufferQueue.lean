import Libmc.ByteQueue

/-!
# The buffer reader is a byte queue

`BufferReader.unread` forgets the blocks: it is the bytes from the read cursor on. Under the
invariant `BufferReader.Wf`, every read of the block reader does to `unread` what the operation
of the same name does to a byte queue, its token denotes the bytes that the queue returns, and
the contents of the blocks stay as they are (`Reads`).
-/

namespace Libmc

def datas (blocks : List DataBlock) : List Bytes := blocks.map (·.data)

@[simp] theorem datas_length (blocks : List DataBlock) : (datas blocks).length = blocks.length :=
  List.length_map _

def unreadAt (blocks : List DataBlock) (cur : DataCursor) : Bytes :=
  (datas (blocks.drop cur.iterator)).flatten.drop cur.offset

/-- Every slice of the token lies inside its block. -/
def ValidToken (blocks : List DataBlock) (td : TokenData) : Prop :=
  ∀ s ∈ td, ∃ b, blocks[s.iterator]? = some b ∧ s.offset + s.size ≤ b.size

/-- The blocks before the `w`-th are not empty. -/
def Dense (blocks : List DataBlock) (w : ℕ) : Prop :=
  ∀ i b, blocks[i]? = some b → i < w → b.data ≠ []

/-- A cursor in the list: inside its block, and before its end while anything is left to read. -/
structure CursorOk (blocks : List DataBlock) (cur : DataCursor) : Prop where
  le : cur.iterator ≤ blocks.length
  offset_le : ∀ b, blocks[cur.iterator]? = some b → cur.offset ≤ b.size
  offset_lt : ∀ b, blocks[cur.iterator]? = some b → unreadAt blocks cur ≠ [] → cur.offset < b.size

variable {blocks bl bl' : List DataBlock} {cur : DataCursor} {b : DataBlock} {i off n w : ℕ}
  {td td' : TokenData} {p : UInt8 → Bool}

/-! ### Tokens and reference counts -/

theorem sliceBytes_eq (s : DataBlockSlice) :
    sliceBytes blocks s = (((datas blocks)[s.iterator]?.getD []).drop s.offset).take s.size := by
  unfold sliceBytes datas
  rw [List.getElem?_map]

theorem tokenBytes_congr (h : datas bl = datas bl') (td : TokenData) :
    tokenBytes bl td = tokenBytes bl' td := by
  have hslice (blocks : List DataBlock) : sliceBytes blocks =
      fun s => (((datas blocks)[s.iterator]?.getD []).drop s.offset).take s.size :=
    funext fun s => sliceBytes_eq s
  unfold tokenBytes
  rw [hslice bl, hslice bl', h]

theorem unreadAt_congr (h : datas bl = datas bl') (cur : DataCursor) :
    unreadAt bl cur = unreadAt bl' cur := by
  unfold unreadAt
  have : ∀ l : List DataBlock, datas (l.drop cur.iterator) = (datas l).drop cur.iterator :=
    fun l => List.map_drop
  rw [this, this, h]

theorem map_modify_of_eq {α β : Type*} {f : α → β} {g : α → α} (h : ∀ a, f (g a) = f a)
    (l : List α) (i : ℕ) : (l.modify i g).map f = l.map f := by
  apply List.ext_getElem?
  intro j
  rw [List.getElem?_map, List.getElem?_map, List.getElem?_modify]
  rcases l[j]? with _ | a
  · rfl
  · by_cases hij : i = j <;> simp [hij, h]

/-- What does not look at the reference count is not changed by releasing a token. -/
theorem map_freeTokenData {β : Type*} {f : DataBlock → β} (hf : ∀ b n, f (b.release n) = f b)
    (td : TokenData) : (freeTokenData blocks td).map f = blocks.map f := by
  induction td generalizing blocks with
  | nil => rfl
  | cons s td ih => exact ih.trans (map_modify_of_eq (fun b => hf b s.size) _ _)

@[simp] theorem datas_freeTokenData (td : TokenData) :
    datas (freeTokenData blocks td) = datas blocks := map_freeTokenData (fun _ _ => rfl) td

@[simp] theorem freeTokenData_length (td : TokenData) :
    (freeTokenData blocks td).length = blocks.length := by
  rw [← datas_length, datas_freeTokenData, datas_length]

theorem sliceBytes_length {s : DataBlockSlice} (hb : blocks[s.iterator]? = some b)
    (h : s.offset + s.size ≤ b.size) : (sliceBytes blocks s).length = s.size := by
  unfold DataBlock.size at h
  simp only [sliceBytes, hb, Option.map_some, Option.getD_some, List.length_take, List.length_drop]
  omega

theorem tokenSize_eq (h : ValidToken blocks td) : tokenSize td = (tokenBytes blocks td).length := by
  induction td with
  | nil => rfl
  | cons s td ih =>
    obtain ⟨b, hb, hs⟩ := h s List.mem_cons_self
    have := ih fun t ht => h t (List.mem_cons_of_mem s ht)
    have hlen := sliceBytes_length hb hs
    unfold tokenSize tokenBytes at *
    rw [List.map_cons, List.sum_cons, List.flatMap_cons, List.length_append, hlen, this]

theorem ValidToken.append (h : ValidToken blocks td) (h' : ValidToken blocks td') :
    ValidToken blocks (td ++ td') := by
  intro s hs
  rcases List.mem_append.1 hs with hs | hs
  · exact h s hs
  · exact h' s hs

theorem validToken_nil : ValidToken blocks [] := fun _ h => absurd h List.not_mem_nil

theorem ValidToken.congr (h : datas bl = datas bl') (hv : ValidToken bl td) : ValidToken bl' td := by
  intro s hs
  obtain ⟨b, hb, hle⟩ := hv s hs
  have hd := congrArg (·[s.iterator]?) h
  simp only [datas, List.getElem?_map, hb, Option.map_some] at hd
  rcases hb' : bl'[s.iterator]? with _ | b'
  · simp [hb'] at hd
  · rw [hb', Option.map_some, Option.some.injEq] at hd
    refine ⟨b', rfl, ?_⟩
    unfold DataBlock.size at *
    rwa [← hd]

/-! ### The bytes from a cursor on -/

theorem drop_eq_cons_iff :
    blocks.drop i = b :: bl ↔ blocks[i]? = some b ∧ blocks.drop (i + 1) = bl := by
  constructor
  · intro h
    have hi : i < blocks.length := by
      by_contra hc
      rw [List.drop_eq_nil_of_le (by omega)] at h
      cases h
    rw [List.drop_eq_getElem_cons hi, List.cons.injEq] at h
    exact ⟨by rw [List.getElem?_eq_getElem hi, h.1], h.2⟩
  · rintro ⟨hb, rfl⟩
    obtain ⟨hi, rfl⟩ := List.getElem?_eq_some_iff.1 hb
    exact List.drop_eq_getElem_cons hi

theorem lt_of_drop_eq_cons (h : blocks.drop i = b :: bl) : i < blocks.length :=
  (List.getElem?_eq_some_iff.1 (drop_eq_cons_iff.1 h).1).1

theorem unreadAt_cons (h : blocks.drop i = b :: bl) (hoff : off ≤ b.size) :
    unreadAt blocks ⟨i, off⟩ = b.data.drop off ++ unreadAt blocks ⟨i + 1, 0⟩ := by
  unfold unreadAt DataBlock.size at *
  rw [h, (drop_eq_cons_iff.1 h).2]
  simp only [datas, List.map_cons, List.flatten_cons, List.drop_zero]
  exact List.drop_append_of_le_length hoff

theorem unreadAt_end (h : blocks.length ≤ cur.iterator) : unreadAt blocks cur = [] := by
  unfold unreadAt
  rw [List.drop_eq_nil_of_le h]
  simp [datas]

theorem Dense.cursorOk (hd : Dense blocks w) (hw : blocks.length ≤ w + 1) (hi : i ≤ blocks.length) :
    CursorOk blocks ⟨i, 0⟩ where
  le := hi
  offset_le _ _ := Nat.zero_le _
  offset_lt b hb hne := by
    have hdrop := drop_eq_cons_iff.2 ⟨hb, rfl⟩
    rw [unreadAt_cons hdrop (Nat.zero_le _), List.drop_zero] at hne
    apply List.length_pos_of_ne_nil
    by_cases hlast : i + 1 < blocks.length
    · exact hd i b hb (by omega)
    · rwa [unreadAt_end (by simp only; omega), List.append_nil] at hne

theorem Dense.congr (h : datas bl = datas bl') (hd : Dense bl w) : Dense bl' w := by
  intro i b hb hi hnil
  have hdi := congrArg (·[i]?) h
  simp only [datas, List.getElem?_map, hb, Option.map_some] at hdi
  rcases hb' : bl[i]? with _ | b'
  · simp [hb'] at hdi
  · rw [hb', Option.map_some, Option.some.injEq] at hdi
    exact hd i b' hb' hi (hdi.trans hnil)

theorem CursorOk.congr (h : datas bl = datas bl') (hc : CursorOk bl cur) : CursorOk bl' cur := by
  have hlen : bl.length = bl'.length := by rw [← datas_length, h, datas_length]
  have key : ∀ b, bl'[cur.iterator]? = some b → ∃ b', bl[cur.iterator]? = some b' ∧
      b'.size = b.size := by
    intro b hb
    have hdi := congrArg (·[cur.iterator]?) h
    simp only [datas, List.getElem?_map, hb, Option.map_some] at hdi
    rcases hb' : bl[cur.iterator]? with _ | b'
    · simp [hb'] at hdi
    · rw [hb', Option.map_some, Option.some.injEq] at hdi
      exact ⟨b', rfl, congrArg List.length hdi⟩
  refine ⟨hlen ▸ hc.le, fun b hb => ?_, fun b hb hne => ?_⟩
  · obtain ⟨b', hb', hs⟩ := key b hb
    exact hs ▸ hc.offset_le b' hb'
  · obtain ⟨b', hb', hs⟩ := key b hb
    exact hs ▸ hc.offset_lt b' hb' (by rwa [unreadAt_congr h])

/-! ### The loops over the blocks -/

namespace BufferReader

theorem seek_hit (h : b.find p cur.offset ≠ b.size) :
    seek p (b :: bl) cur = ⟨cur.iterator, b.find p cur.offset⟩ := by
  simp only [seek, if_pos h]

theorem seek_miss (h : b.find p cur.offset = b.size) :
    seek p (b :: bl) cur = seek p bl ⟨cur.iterator + 1, 0⟩ := by
  simp only [seek, h, ne_eq, not_true_eq_false, if_false]

theorem seek_iterator_le (p : UInt8 → Bool) (bl : List DataBlock) (cur : DataCursor) :
    cur.iterator ≤ (seek p bl cur).iterator := by
  induction bl generalizing cur with
  | nil => exact le_rfl
  | cons b bl ih =>
    by_cases h : b.find p cur.offset = b.size
    · rw [seek_miss h]
      exact (Nat.le_succ _).trans (ih ⟨cur.iterator + 1, 0⟩)
    · rw [seek_hit h]

theorem tokenBytes_append :
    tokenBytes blocks (td ++ td') = tokenBytes blocks td ++ tokenBytes blocks td' :=
  List.flatMap_append

theorem tokenBytes_pushSlice (hb : blocks[cur.iterator]? = some b) :
    tokenBytes blocks (pushSlice cur n) = (b.data.drop cur.offset).take n := by
  unfold pushSlice
  split_ifs with hn
  · simp [tokenBytes, sliceBytes, hb]
  · rw [show n = 0 by omega]
    rfl

theorem validToken_pushSlice (hb : blocks[cur.iterator]? = some b) (h : cur.offset + n ≤ b.size) :
    ValidToken blocks (pushSlice cur n) := by
  unfold pushSlice
  split_ifs
  · intro s hs
    obtain rfl := List.mem_singleton.1 hs
    exact ⟨b, hb, h⟩
  · exact validToken_nil

theorem slicesTo_same (e : ℕ) :
    slicesTo ⟨cur.iterator, e⟩ (b :: bl) cur = pushSlice cur (e - cur.offset) := by
  unfold slicesTo
  by_cases h : cur = ⟨cur.iterator, e⟩
  · have : cur.offset = e := congrArg DataCursor.offset h
    rw [if_pos h]
    simp [pushSlice, this]
  · rw [if_neg h, if_pos rfl]

theorem slicesTo_later {endCur : DataCursor} (h : cur.iterator < endCur.iterator) :
    slicesTo endCur (b :: bl) cur =
      pushSlice cur (b.size - cur.offset) ++ slicesTo endCur bl ⟨cur.iterator + 1, 0⟩ := by
  conv_lhs => unfold slicesTo
  rw [if_neg fun hc => by rw [hc] at h; omega, if_neg (by omega)]

theorem find_eq_size_iff (hoff : off ≤ b.size) :
    b.find p off = b.size ↔ ∀ x ∈ b.data.drop off, p x = false := by
  unfold DataBlock.find DataBlock.size at *
  rw [← List.findIdx_eq_length, List.length_drop]
  omega

/-- The search runs to `end()` when no unread byte satisfies `p`. -/
theorem seek_end (h : blocks.drop cur.iterator = bl) (hle : cur.iterator ≤ blocks.length)
    (hoff : ∀ b, blocks[cur.iterator]? = some b → cur.offset ≤ b.size)
    (hp : ∀ x ∈ unreadAt blocks cur, p x = false) :
    (seek p bl cur).iterator = blocks.length := by
  induction bl generalizing cur with
  | nil => exact le_antisymm hle (List.drop_eq_nil_iff.1 h)
  | cons b bl ih =>
    obtain ⟨hb, hdrop⟩ := drop_eq_cons_iff.1 h
    rw [unreadAt_cons h (hoff b hb)] at hp
    have hfind : b.find p cur.offset = b.size :=
      (find_eq_size_iff (hoff b hb)).2 fun x hx => hp x (List.mem_append_left _ hx)
    rw [seek_miss hfind]
    exact ih hdrop (lt_of_drop_eq_cons h) (fun _ _ => Nat.zero_le _)
      fun x hx => hp x (List.mem_append_right _ hx)

/-- Where a search from `cur` stopped with a byte found, and what it passed over. -/
structure Found (blocks bl : List DataBlock) (p : UInt8 → Bool) (cur endCur : DataCursor) : Prop where
  inside : ∃ b, blocks[endCur.iterator]? = some b ∧ endCur.offset < b.size
  token : tokenBytes blocks (slicesTo endCur bl cur) =
    (unreadAt blocks cur).takeWhile fun x => !p x
  rest : unreadAt blocks endCur = (unreadAt blocks cur).dropWhile fun x => !p x
  valid : ValidToken blocks (slicesTo endCur bl cur)

theorem found_hit (h : blocks.drop cur.iterator = b :: bl) (hle : cur.offset ≤ b.size)
    (hfind : b.find p cur.offset ≠ b.size) :
    Found blocks (b :: bl) p cur ⟨cur.iterator, b.find p cur.offset⟩ := by
  have hb := (drop_eq_cons_iff.1 h).1
  have hu := unreadAt_cons h hle
  have hsz : (b.data.drop cur.offset).length = b.size - cur.offset := List.length_drop
  have hgap : b.find p cur.offset - cur.offset = (b.data.drop cur.offset).findIdx p := by
    unfold DataBlock.find
    omega
  have hidx : (b.data.drop cur.offset).findIdx p < (b.data.drop cur.offset).length :=
    lt_of_le_of_ne List.findIdx_le_length fun hc =>
      hfind ((find_eq_size_iff hle).2 (List.findIdx_eq_length.1 hc))
  have hlt : b.find p cur.offset < b.size := by
    unfold DataBlock.find
    omega
  have htake : (b.data.drop cur.offset).takeWhile (fun x => !p x) =
      (b.data.drop cur.offset).take ((b.data.drop cur.offset).findIdx p) := by
    simpa using @List.takeWhile_eq_take_findIdx_not _ (b.data.drop cur.offset) fun x => !p x
  have hdrop : (b.data.drop cur.offset).dropWhile (fun x => !p x) =
      (b.data.drop cur.offset).drop ((b.data.drop cur.offset).findIdx p) := by
    simpa using @List.dropWhile_eq_drop_findIdx_not _ (b.data.drop cur.offset) fun x => !p x
  refine ⟨⟨b, hb, hlt⟩, ?_, ?_, ?_⟩
  · rw [slicesTo_same, tokenBytes_pushSlice hb, hgap, hu, List.takeWhile_append, htake, if_neg]
    rw [List.length_take]
    omega
  · rw [hu, List.dropWhile_append, hdrop, if_neg, unreadAt_cons h hlt.le, List.drop_drop]
    · rfl
    · rw [List.isEmpty_iff, List.drop_eq_nil_iff]
      omega
  · rw [slicesTo_same]
    exact validToken_pushSlice hb (by omega)

/-- The byte is in a later block: the rest of this one is passed over whole. -/
theorem found_miss {endCur : DataCursor} (h : blocks.drop cur.iterator = b :: bl)
    (hle : cur.offset ≤ b.size) (hfind : b.find p cur.offset = b.size)
    (hit : cur.iterator < endCur.iterator)
    (hf : Found blocks bl p ⟨cur.iterator + 1, 0⟩ endCur) : Found blocks (b :: bl) p cur endCur := by
  have hb := (drop_eq_cons_iff.1 h).1
  have hu := unreadAt_cons h hle
  have hsz : (b.data.drop cur.offset).length = b.size - cur.offset := List.length_drop
  have htrue : ∀ x ∈ b.data.drop cur.offset, (!p x) = true := fun x hx => by
    simp [(find_eq_size_iff hle).1 hfind x hx]
  refine ⟨hf.inside, ?_, ?_, ?_⟩
  · rw [slicesTo_later hit, tokenBytes_append, tokenBytes_pushSlice hb, hf.token, ← hsz,
      List.take_length, hu, List.takeWhile_append_of_pos htrue]
  · rw [hf.rest, hu, List.dropWhile_append_of_pos htrue]
  · rw [slicesTo_later hit]
    exact (validToken_pushSlice hb (by omega)).append hf.valid

/-- The search finds the first unread byte that satisfies `p`. -/
theorem seek_found (h : blocks.drop cur.iterator = bl)
    (hoff : ∀ b, blocks[cur.iterator]? = some b → cur.offset ≤ b.size)
    (hp : ∃ x ∈ unreadAt blocks cur, p x) : Found blocks bl p cur (seek p bl cur) := by
  induction bl generalizing cur with
  | nil =>
    obtain ⟨x, hx, -⟩ := hp
    rw [unreadAt_end (List.drop_eq_nil_iff.1 h)] at hx
    cases hx
  | cons b bl ih =>
    obtain ⟨hb, hdrop⟩ := drop_eq_cons_iff.1 h
    have hle := hoff b hb
    by_cases hfind : b.find p cur.offset = b.size
    · have hp' : ∃ x ∈ unreadAt blocks ⟨cur.iterator + 1, 0⟩, p x := by
        obtain ⟨x, hx, hpx⟩ := hp
        rw [unreadAt_cons h hle] at hx
        rcases List.mem_append.1 hx with hx | hx
        · rw [(find_eq_size_iff hle).1 hfind x hx] at hpx
          cases hpx
        · exact ⟨x, hx, hpx⟩
      rw [seek_miss hfind]
      exact found_miss h hle hfind (seek_iterator_le p bl ⟨cur.iterator + 1, 0⟩)
        (ih hdrop (fun _ _ => Nat.zero_le _) hp')
    · rw [seek_hit hfind]
      exact found_hit h hle hfind

theorem slicesFor_spec {len : ℕ} (hd : Dense blocks w) (hw : blocks.length ≤ w + 1)
    (h : blocks.drop cur.iterator = bl) (hc : CursorOk blocks cur)
    (hlen : len ≤ (unreadAt blocks cur).length) :
    tokenBytes blocks (slicesFor bl cur len).1 = (unreadAt blocks cur).take len ∧
      unreadAt blocks (slicesFor bl cur len).2 = (unreadAt blocks cur).drop len ∧
      CursorOk blocks (slicesFor bl cur len).2 ∧ ValidToken blocks (slicesFor bl cur len).1 := by
  induction bl generalizing cur len with
  | nil =>
    have hu : unreadAt blocks cur = [] := unreadAt_end (List.drop_eq_nil_iff.1 h)
    rw [hu]
    simp only [slicesFor, List.take_nil, List.drop_nil]
    exact ⟨rfl, hu, hc, validToken_nil⟩
  | cons b bl ih =>
    obtain ⟨hb, hdrop⟩ := drop_eq_cons_iff.1 h
    have hle := hc.offset_le b hb
    have hu := unreadAt_cons h hle
    have hlt := lt_of_drop_eq_cons h
    by_cases h0 : len = 0
    · subst h0
      simp only [slicesFor, if_pos, List.take_zero, List.drop_zero]
      exact ⟨rfl, trivial, hc, validToken_nil⟩
    by_cases hin : len < b.size - cur.offset
    · have heq : slicesFor (b :: bl) cur len =
          ([⟨cur.iterator, cur.offset, len⟩], { cur with offset := cur.offset + len }) := by
        unfold slicesFor
        rw [if_neg h0, if_pos hin]
      have hlen' : len ≤ (b.data.drop cur.offset).length := by
        unfold DataBlock.size at hin
        rw [List.length_drop]
        omega
      rw [heq]
      refine ⟨?_, ?_, ⟨hc.le, fun b' hb' => ?_, fun b' hb' _ => ?_⟩, ?_⟩
      · rw [hu, List.take_append_of_le_length hlen']
        simp [tokenBytes, sliceBytes, hb]
      · rw [hu, List.drop_append_of_le_length hlen', List.drop_drop]
        exact unreadAt_cons h (by omega)
      · obtain rfl : b = b' := Option.some.inj (hb.symm.trans hb')
        simp only
        omega
      · obtain rfl : b = b' := Option.some.inj (hb.symm.trans hb')
        simp only
        omega
      · intro s hs
        obtain rfl := List.mem_singleton.1 hs
        exact ⟨b, hb, by simp only; omega⟩
    · have hsz : (b.data.drop cur.offset).length = b.size - cur.offset := List.length_drop
      have hlen' : len - (b.size - cur.offset) ≤
          (unreadAt blocks ⟨cur.iterator + 1, 0⟩).length := by
        rw [hu, List.length_append, hsz] at hlen
        omega
      obtain ⟨htok, hun, hcur, hval⟩ := ih hdrop (hd.cursorOk hw hlt) hlen'
      have heq : slicesFor (b :: bl) cur len =
          (⟨cur.iterator, cur.offset, b.size - cur.offset⟩ ::
            (slicesFor bl ⟨cur.iterator + 1, 0⟩ (len - (b.size - cur.offset))).1,
            (slicesFor bl ⟨cur.iterator + 1, 0⟩ (len - (b.size - cur.offset))).2) := by
        conv_lhs => unfold slicesFor
        rw [if_neg h0, if_neg hin]
      have hfirst : sliceBytes blocks ⟨cur.iterator, cur.offset, b.size - cur.offset⟩ =
          b.data.drop cur.offset := by
        rw [← hsz]
        simp [sliceBytes, hb]
      rw [heq]
      refine ⟨?_, ?_, hcur, ?_⟩
      · rw [hu, List.take_append, hsz, List.take_of_length_le (by omega), ← htok]
        show sliceBytes blocks _ ++ tokenBytes blocks _ = _
        rw [hfirst]
      · rw [hu, List.drop_append, hsz, List.drop_eq_nil_of_le (by omega), List.nil_append, hun]
      · intro s hs
        rcases List.mem_cons.1 hs with rfl | hs
        · exact ⟨b, hb, by simp only; omega⟩
        · exact hval s hs

theorem peekLoop_spec {k : ℕ} (hd : Dense blocks w) (h : blocks.drop cur.iterator = bl)
    (hc : CursorOk blocks cur) (hw : blocks.length ≤ w + 1)
    (hk : k < (unreadAt blocks cur).length) :
    peekLoop w bl cur k = (.ok, (unreadAt blocks cur)[k]) := by
  induction bl generalizing cur k with
  | nil =>
    rw [unreadAt_end (List.drop_eq_nil_iff.1 h)] at hk
    simp at hk
  | cons b bl ih =>
    obtain ⟨hb, hdrop⟩ := drop_eq_cons_iff.1 h
    have hle := hc.offset_le b hb
    have hu := unreadAt_cons h hle
    have hlt := lt_of_drop_eq_cons h
    have hoff : cur.offset < b.data.length :=
      hc.offset_lt b hb (List.ne_nil_of_length_pos (by omega))
    have hsz : (b.data.drop cur.offset).length = b.size - cur.offset := List.length_drop
    have hval : ∀ x, (unreadAt blocks cur)[k]? = some x → (unreadAt blocks cur)[k] = x := by
      intro x hx
      exact (List.getElem_eq_iff hk).2 hx
    unfold peekLoop
    split_ifs with h0 hin hw'
    · subst h0
      rw [hval (b.data.getD cur.offset 0)]
      rw [hu, List.getElem?_append_left (by rw [List.length_drop]; omega), List.getElem?_drop,
        Nat.add_zero, List.getD_eq_getElem?_getD, List.getElem?_eq_getElem hoff]
      rfl
    · have hko : cur.offset + k < b.data.length := by
        unfold DataBlock.size at hin
        omega
      rw [hval (b.data.getD (cur.offset + k) 0)]
      rw [hu, List.getElem?_append_left (by omega), List.getElem?_drop,
        List.getD_eq_getElem?_getD, List.getElem?_eq_getElem hko]
      rfl
    · have hk' : k - (b.size - cur.offset) < (unreadAt blocks ⟨cur.iterator + 1, 0⟩).length := by
        rw [hu, List.length_append, hsz] at hk
        omega
      rw [ih hdrop (hd.cursorOk hw hlt) hk']
      congr 1
      symm
      apply hval
      rw [hu, List.getElem?_append_right (by omega), hsz, List.getElem?_eq_getElem hk']
    · -- the write iterator is at the last block, past which nothing can be unread
      exfalso
      have hend : unreadAt blocks ⟨cur.iterator + 1, 0⟩ = [] := unreadAt_end (by simp only; omega)
      rw [hu, hend, List.append_nil, hsz] at hk
      omega

/-! ### Reading -/

def unread (r : BufferReader) : Bytes := unreadAt r.dataBlockList r.blockReadCursor

structure Wf (r : BufferReader) : Prop where
  readLeft_eq : r.readLeft = r.unread.length
  cursor : CursorOk r.dataBlockList r.blockReadCursor
  dense : Dense r.dataBlockList r.blockWriteIterator
  write_le : r.blockWriteIterator ≤ r.dataBlockList.length
  write_last : r.dataBlockList.length ≤ r.blockWriteIterator + 1
  size_le : ∀ b ∈ r.dataBlockList, b.size ≤ b.capacity
  capacity_pos : ∀ b ∈ r.dataBlockList, 0 < b.capacity

/-- `r'` comes from `r` by reading: the contents of the blocks are the same. -/
structure Reads (r r' : BufferReader) : Prop where
  wf : Wf r'
  datas_eq : datas r'.dataBlockList = datas r.dataBlockList

variable {r r' : BufferReader}

theorem Wf.reads_refl (h : Wf r) : Reads r r := ⟨h, rfl⟩

theorem Wf.reads (h : Wf r) {bl : List DataBlock} {c : DataCursor} {n : ℕ}
    (hbl : bl.map (fun b => (b.data, b.capacity)) =
      r.dataBlockList.map fun b => (b.data, b.capacity))
    (hc : CursorOk r.dataBlockList c) (hn : n = (unreadAt r.dataBlockList c).length) :
    Reads r { r with dataBlockList := bl, readLeft := n, blockReadCursor := c } := by
  have hd : datas bl = datas r.dataBlockList := by
    simpa [datas, List.map_map, Function.comp_def] using congrArg (List.map Prod.fst) hbl
  have hlen : bl.length = r.dataBlockList.length := by rw [← datas_length, hd, datas_length]
  have hmem : ∀ b ∈ bl, ∃ b' ∈ r.dataBlockList, b'.data = b.data ∧ b'.capacity = b.capacity := by
    intro b hb
    have hb' : (b.data, b.capacity) ∈ bl.map fun b => (b.data, b.capacity) :=
      List.mem_map_of_mem hb
    rw [hbl] at hb'
    obtain ⟨b', hb', heq⟩ := List.mem_map.1 hb'
    exact ⟨b', hb', Prod.mk.inj heq⟩
  refine ⟨⟨?_, hc.congr hd.symm, h.dense.congr hd.symm, ?_, ?_, fun b hb => ?_, fun b hb => ?_⟩, hd⟩
  · exact hn.trans (congrArg List.length (unreadAt_congr hd.symm c))
  · exact hlen ▸ h.write_le
  · exact hlen ▸ h.write_last
  · obtain ⟨b', hb', h1, h2⟩ := hmem b hb
    have := h.size_le b' hb'
    unfold DataBlock.size at *
    rwa [← h1, ← h2]
  · obtain ⟨b', hb', -, h2⟩ := hmem b hb
    exact h2 ▸ h.capacity_pos b' hb'

theorem map_data_capacity_freeTokenData (bl : List DataBlock) (td : TokenData) :
    (freeTokenData bl td).map (fun b => (b.data, b.capacity)) =
      bl.map fun b => (b.data, b.capacity) :=
  map_freeTokenData (fun _ _ => rfl) td

theorem unread_of_reads (hr : Reads r r') (hc : r'.blockReadCursor = cur) :
    r'.unread = unreadAt r.dataBlockList cur := by
  unfold unread
  rw [unreadAt_congr hr.datas_eq, hc]

theorem peek_unread (h : Wf r) (k : ℕ) : r.peek k = ByteQueue.peek r.unread k := by
  unfold peek
  split_ifs with hk
  · rw [ByteQueue.peek_of_le (by rw [← h.readLeft_eq]; exact hk)]
  · have hk' : k < r.unread.length := by
      rw [← h.readLeft_eq]
      omega
    refine (peekLoop_spec h.dense rfl h.cursor h.write_last hk').trans ?_
    unfold ByteQueue.peek
    rw [List.getElem?_eq_getElem hk']
    rfl

theorem Found.cursorOk {endCur : DataCursor} (hf : Found blocks bl p cur endCur) :
    CursorOk blocks endCur := by
  obtain ⟨b, hb, hlt⟩ := hf.inside
  refine ⟨(List.getElem?_eq_some_iff.1 hb).1.le, fun b' hb' => ?_, fun b' hb' _ => ?_⟩
  · obtain rfl : b = b' := Option.some.inj (hb.symm.trans hb')
    exact hlt.le
  · obtain rfl : b = b' := Option.some.inj (hb.symm.trans hb')
    exact hlt

theorem Found.readLeft_sub {endCur : DataCursor} (h : Wf r)
    (hf : Found r.dataBlockList r.blocksLeft p r.blockReadCursor endCur) :
    r.readLeft - tokenSize (slicesTo endCur r.blocksLeft r.blockReadCursor) =
      (unreadAt r.dataBlockList endCur).length := by
  have hsplit := congrArg List.length (List.takeWhile_append_dropWhile (p := fun x => !p x)
    (l := unreadAt r.dataBlockList r.blockReadCursor))
  rw [List.length_append] at hsplit
  rw [tokenSize_eq hf.valid, hf.token, hf.rest, h.readLeft_eq]
  unfold unread
  omega

theorem Wf.seek_end (h : Wf r) (hp : ∀ x ∈ r.unread, p x = false) :
    (seek p r.blocksLeft r.blockReadCursor).iterator = r.dataBlockList.length :=
  BufferReader.seek_end rfl h.cursor.le h.cursor.offset_le hp

theorem Wf.seek_found (h : Wf r) (hp : ∃ x ∈ r.unread, p x) :
    Found r.dataBlockList r.blocksLeft p r.blockReadCursor (seek p r.blocksLeft r.blockReadCursor) :=
  BufferReader.seek_found rfl h.cursor.offset_le hp

theorem Found.iterator_ne {endCur : DataCursor} (hf : Found blocks bl p cur endCur) :
    endCur.iterator ≠ blocks.length := by
  obtain ⟨b, hb, -⟩ := hf.inside
  exact (List.getElem?_eq_some_iff.1 hb).1.ne

theorem not_beq_eq (v : UInt8) : (fun x : UInt8 => !(x == v)) = (· != v) := rfl

theorem readUntil_unread (h : Wf r) (v : UInt8) : ∃ e n td r', r.readUntil v = (e, n, td, r') ∧
    ByteQueue.readUntil r.unread v = (e, n, tokenBytes r.dataBlockList td, r'.unread) ∧
    Reads r r' ∧ ValidToken r.dataBlockList td := by
  unfold readUntil ByteQueue.readUntil
  by_cases hv : v ∈ r.unread
  · have hf := h.seek_found (p := (· == v)) ⟨v, hv, by simp⟩
    have hr := h.reads rfl hf.cursorOk (hf.readLeft_sub h)
    refine ⟨_, _, _, _, if_neg hf.iterator_ne, ?_, hr, hf.valid⟩
    rw [if_pos hv, unread_of_reads hr rfl, hf.rest, tokenSize_eq hf.valid, hf.token, not_beq_eq]
    rfl
  · have hp : ∀ x ∈ r.unread, (x == v) = false := fun x hx => by
      simpa using ne_of_mem_of_not_mem hx hv
    refine ⟨_, _, _, _, if_pos (h.seek_end hp), ?_, h.reads_refl, validToken_nil⟩
    rw [if_neg hv]
    rfl

theorem skipUntil_unread (h : Wf r) (v : UInt8) : ∃ e n r', r.skipUntil v = (e, n, r') ∧
    ByteQueue.skipUntil r.unread v = (e, n, r'.unread) ∧ Reads r r' := by
  unfold skipUntil ByteQueue.skipUntil
  by_cases hv : v ∈ r.unread
  · have hf := h.seek_found (p := (· == v)) ⟨v, hv, by simp⟩
    have hr := h.reads (map_data_capacity_freeTokenData r.dataBlockList
      (slicesTo (seek (· == v) r.blocksLeft r.blockReadCursor) r.blocksLeft r.blockReadCursor))
      hf.cursorOk (hf.readLeft_sub h)
    refine ⟨_, _, _, if_neg hf.iterator_ne, ?_, hr⟩
    rw [if_pos hv, unread_of_reads hr rfl, hf.rest, tokenSize_eq hf.valid, hf.token, not_beq_eq]
    rfl
  · have hp : ∀ x ∈ r.unread, (x == v) = false := fun x hx => by
      simpa using ne_of_mem_of_not_mem hx hv
    refine ⟨_, _, _, if_pos (h.seek_end hp), ?_, h.reads_refl⟩
    rw [if_neg hv]

/-- The search stays where it is exactly when the next byte satisfies `p`. -/
theorem eq_seek_iff (h : blocks.drop cur.iterator = bl) (hc : CursorOk blocks cur)
    (hne : unreadAt blocks cur ≠ []) :
    cur = seek p bl cur ↔ (unreadAt blocks cur).takeWhile (fun x => !p x) = [] := by
  cases bl with
  | nil => exact absurd (unreadAt_end (List.drop_eq_nil_iff.1 h)) hne
  | cons b bl =>
    have hlt : cur.offset < b.data.length := hc.offset_lt b (drop_eq_cons_iff.1 h).1 hne
    have hu := unreadAt_cons h hlt.le
    rw [List.drop_eq_getElem_cons hlt, List.cons_append] at hu
    have hfind : b.find p cur.offset =
        cur.offset + if p b.data[cur.offset] then 0
          else (b.data.drop (cur.offset + 1)).findIdx p + 1 := by
      unfold DataBlock.find
      rw [List.drop_eq_getElem_cons hlt, List.findIdx_cons]
      cases p b.data[cur.offset] <;> rfl
    rw [hu]
    cases hp : p b.data[cur.offset] with
    | true =>
      have hpos : b.find p cur.offset = cur.offset := by simpa [hp] using hfind
      rw [seek_hit (by rw [hpos]; exact hlt.ne), hpos]
      simp [hp]
    | false =>
      have hpos : cur.offset < b.find p cur.offset := by
        rw [hfind, hp]
        simp
      have hcur : cur ≠ seek p (b :: bl) cur := by
        intro heq
        by_cases hsz : b.find p cur.offset = b.size
        · have hit := seek_iterator_le p bl ⟨cur.iterator + 1, 0⟩
          rw [← seek_miss hsz, ← heq] at hit
          exact absurd hit (Nat.not_succ_le_self _)
        · rw [seek_hit hsz] at heq
          exact absurd (congrArg DataCursor.offset heq) hpos.ne
      simp [hcur, hp]

theorem readUnsigned_unread (h : Wf r) : ∃ e n r', r.readUnsigned = (e, n, r') ∧
    ByteQueue.readUnsigned r.unread = (e, n, r'.unread) ∧ Reads r r' := by
  unfold readUnsigned ByteQueue.readUnsigned
  rw [← h.readLeft_eq]
  by_cases h2 : r.readLeft < 2
  · exact ⟨_, _, _, if_pos h2, if_pos h2, h.reads_refl⟩
  rw [if_neg h2, if_neg h2]
  have hne : r.unread ≠ [] := by
    apply List.ne_nil_of_length_pos
    rw [← h.readLeft_eq]
    omega
  have hfun : (fun x => !!isDigit x) = isDigit := by
    funext x
    exact Bool.not_not _
  by_cases hex : ∃ x ∈ r.unread, (!isDigit x) = true
  · have hf := h.seek_found (p := fun c => !isDigit c) hex
    have hiff := eq_seek_iff (p := fun c => !isDigit c) rfl h.cursor hne
    have hdig : r.unread.dropWhile isDigit ≠ [] := by
      rw [Ne, List.dropWhile_eq_nil_iff]
      obtain ⟨x, hx, hd⟩ := hex
      exact fun hall => by simp [hall x hx] at hd
    rw [hfun] at hiff
    by_cases hcur : r.blockReadCursor = seek (fun c => !isDigit c) r.blocksLeft r.blockReadCursor
    · exact ⟨_, _, _, if_pos hcur, if_pos (hiff.1 hcur), h.reads_refl⟩
    · have hr := h.reads (map_data_capacity_freeTokenData r.dataBlockList
        (slicesTo (seek (fun c => !isDigit c) r.blocksLeft r.blockReadCursor) r.blocksLeft
          r.blockReadCursor)) hf.cursorOk (hf.readLeft_sub h)
      have htok := hf.token
      have hrest := hf.rest
      rw [hfun] at htok hrest
      refine ⟨_, _, _, (if_neg hcur).trans (if_neg hf.iterator_ne), ?_, hr⟩
      have htw : r.unread.takeWhile isDigit ≠ [] := fun hc => hcur (hiff.2 hc)
      rw [if_neg htw, if_neg hdig, unread_of_reads hr rfl, hrest, htok]
      rfl
  · have hall : ∀ x ∈ r.unread, isDigit x = true := fun x hx => by
      by_contra hc
      exact hex ⟨x, hx, by simpa using hc⟩
    have hend := h.seek_end (p := fun c => !isDigit c) fun x hx => by simp [hall x hx]
    have hcur : r.blockReadCursor ≠ seek (fun c => !isDigit c) r.blocksLeft r.blockReadCursor := by
      intro hc
      rw [← hc] at hend
      exact hne (unreadAt_end hend.ge)
    refine ⟨_, _, _, (if_neg hcur).trans (if_pos hend), ?_, h.reads_refl⟩
    rw [List.takeWhile_eq_self_iff.2 hall, if_neg hne, if_pos (List.dropWhile_eq_nil_iff.2 hall)]

theorem Wf.slicesFor (h : Wf r) {len : ℕ} (hlen : len ≤ r.readLeft) :
    tokenBytes r.dataBlockList (slicesFor r.blocksLeft r.blockReadCursor len).1 = r.unread.take len ∧
      unreadAt r.dataBlockList (slicesFor r.blocksLeft r.blockReadCursor len).2 = r.unread.drop len ∧
      CursorOk r.dataBlockList (slicesFor r.blocksLeft r.blockReadCursor len).2 ∧
      ValidToken r.dataBlockList (slicesFor r.blocksLeft r.blockReadCursor len).1 :=
  slicesFor_spec h.dense h.write_last rfl h.cursor (by rw [h.readLeft_eq] at hlen; exact hlen)

theorem readBytes_unread (h : Wf r) (len : ℕ) : ∃ e td r', r.readBytes len = (e, td, r') ∧
    ByteQueue.readBytes r.unread len = (e, tokenBytes r.dataBlockList td, r'.unread) ∧
    Reads r r' ∧ ValidToken r.dataBlockList td := by
  unfold readBytes ByteQueue.readBytes
  rw [← h.readLeft_eq]
  by_cases h0 : len = 0
  · exact ⟨_, _, _, if_pos h0, if_pos h0, h.reads_refl, validToken_nil⟩
  rw [if_neg h0, if_neg h0]
  by_cases hlt : len > r.readLeft
  · exact ⟨_, _, _, if_pos hlt, if_pos hlt, h.reads_refl, validToken_nil⟩
  · obtain ⟨htok, hun, hcur, hval⟩ := h.slicesFor (Nat.le_of_not_lt hlt)
    have hr := h.reads rfl hcur (n := r.readLeft - len) (by rw [hun, List.length_drop, h.readLeft_eq])
    refine ⟨_, _, _, if_neg hlt, ?_, hr, hval⟩
    rw [if_neg hlt, htok, unread_of_reads hr rfl, hun]

theorem skipBytes_unread (h : Wf r) (len : ℕ) : ∃ e r', r.skipBytes len = (e, r') ∧
    ByteQueue.skipBytes r.unread len = (e, r'.unread) ∧ Reads r r' := by
  unfold skipBytes ByteQueue.skipBytes
  rw [← h.readLeft_eq]
  by_cases hlt : len > r.readLeft
  · exact ⟨_, _, if_pos hlt, if_pos hlt, h.reads_refl⟩
  · obtain ⟨-, hun, hcur, -⟩ := h.slicesFor (Nat.le_of_not_lt hlt)
    have hr := h.reads (map_data_capacity_freeTokenData r.dataBlockList
      (slicesFor r.blocksLeft r.blockReadCursor len).1) hcur (n := r.readLeft - len)
      (by rw [hun, List.length_drop, h.readLeft_eq])
    refine ⟨_, _, if_neg hlt, ?_, hr⟩
    rw [if_neg hlt, unread_of_reads hr rfl, hun]

end BufferReader

end Libmc
