import Libmc.KeyPrefix

/-!
# What `SetMulti` and `DeleteMulti` report as failed

Both make a slice for the keys that have not been done and fill it in a loop over all keys
(`failedKeys_eq`). `SetMulti` looks for the keys of the items among the keys of the results, which have
the prefix, so with a prefix it reports the right keys only if nothing was stored.
`DeleteMulti` looks for the right keys, but `NOT_FOUND` is a failure for it. Both report nothing after
`RET_OK` (`multi_reports_iff`).
-/

namespace Libmc.Golibmc

variable {types : MessageResultType → Bool} {results : List MessageResult} {keys l : List Bytes}
  {done : Finset Bytes} {f : Bytes → Bytes} {cl : Settings} {key raw : Bytes} {errCode : ErrCode}

/-! ### The loops -/

/-- A raw key is answered by a message of some types. -/
def answered (types : MessageResultType → Bool) (results : List MessageResult) (raw : Bytes) : Bool :=
  results.any fun rst => types rst.type_ && rst.key = some raw

theorem answered_iff : answered types results raw = true ↔
    ∃ rst ∈ results, types rst.type_ = true ∧ rst.key = some raw := by
  unfold answered
  simp

theorem not_answered_eq (h : raw ∈ done ↔ answered types results raw) :
    (!answered types results raw) = decide (raw ∉ done) := by
  rw [Bool.eq_iff_iff]
  simp [h]

theorem answered_or (types types' : MessageResultType → Bool) (results : List MessageResult)
    (raw : Bytes) : answered (fun tp => types tp || types' tp) results raw =
      (answered types results raw || answered types' results raw) := by
  rw [Bool.eq_iff_iff, Bool.or_eq_true, answered_iff, answered_iff, answered_iff]
  simp only [Bool.or_eq_true, or_and_right, and_or_left, exists_or]

theorem keySet_spec (types : MessageResultType → Bool)
    (h : ∀ rst ∈ results, ∃ k, rst.key = some k ∧ k.length < 2 ^ 31) :
    ∃ done, keySet types results = some done ∧ ∀ k, k ∈ done ↔ answered types results k := by
  suffices hfrom : ∀ start : Finset Bytes, ∃ done, results.foldlM (fun keys rst =>
      if types rst.type_ then (goStringN (rst.key.getD [])).map (insert · keys) else some keys)
      start = some done ∧ ∀ k, k ∈ done ↔ k ∈ start ∨ answered types results k by
    obtain ⟨done, hdone, hmem⟩ := hfrom ∅
    exact ⟨done, hdone, fun k => by simpa using hmem k⟩
  induction results with
  | nil => exact fun start => ⟨start, rfl, fun k => by simp [answered]⟩
  | cons rst rest ih =>
    intro start
    obtain ⟨⟨key, hkey, hlt⟩, hrest⟩ := List.forall_mem_cons.1 h
    rw [List.foldlM_cons]
    cases htype : types rst.type_ with
    | false =>
      obtain ⟨done, hdone, hmem⟩ := ih hrest start
      refine ⟨done, hdone, fun k => ?_⟩
      rw [hmem, answered, answered, List.any_cons, htype, Bool.false_and, Bool.false_or]
    | true =>
      obtain ⟨done, hdone, hmem⟩ := ih hrest (insert key start)
      refine ⟨done, ?_, fun k => ?_⟩
      · rw [if_pos rfl, hkey, Option.getD_some, goStringN_of_lt hlt]
        exact hdone
      · have hsame : (some key = some k) ↔ k = key := by rw [Option.some.injEq, eq_comm]
        rw [hmem, answered, answered, List.any_cons, htype, hkey, Finset.mem_insert, Bool.true_and,
          Bool.or_eq_true, decide_eq_true_eq, hsame]
        tauto

/-- The loop that fills the slice behind `pre`, by induction on the keys. -/
theorem fillFailed_eq (pre post : List Bytes) :
    fillFailed f done (pre ++ post) pre.length keys =
      if (keys.filter (· ∉ done)).length ≤ post.length then
        some (pre ++ (keys.filter (· ∉ done)).map f ++ post.drop (keys.filter (· ∉ done)).length)
      else none := by
  induction keys generalizing pre post with
  | nil => simp [fillFailed]
  | cons key keys ih =>
    rw [fillFailed]
    by_cases hkey : key ∈ done
    · rw [if_pos hkey, ih, List.filter_cons_of_neg (by simpa using hkey)]
    · rw [if_neg hkey, List.filter_cons_of_pos (by simpa using hkey), List.length_cons]
      cases post with
      | nil => rw [List.append_nil, if_neg (by omega), if_neg (by simp)]
      | cons x post =>
        have hset : (pre ++ x :: post).set pre.length (f key) = (pre ++ [f key]) ++ post := by simp
        have hlen : pre.length + 1 = (pre ++ [f key]).length := by simp
        rw [if_pos (by simp), hset, hlen, ih, List.length_cons, List.drop_succ_cons]
        refine if_congr (by omega) ?_ rfl
        simp

theorem length_filter_iff (done : Finset Bytes) (hkeys : keys.Nodup) :
    (keys.filter (· ∈ done)).length ≤ done.card ∧
      ((keys.filter (· ∈ done)).length = done.card ↔ ∀ k ∈ done, k ∈ keys) := by
  have hcard := List.toFinset_card_of_nodup (hkeys.filter (· ∈ done))
  have hmem : ∀ k, k ∈ (keys.filter (· ∈ done)).toFinset ↔ k ∈ keys ∧ k ∈ done := by simp
  have hsub : (keys.filter (· ∈ done)).toFinset ⊆ done := fun k hk => ((hmem k).1 hk).2
  rw [← hcard]
  refine ⟨Finset.card_le_card hsub, fun heq k hk => ?_, fun hall => ?_⟩
  · rw [← Finset.eq_of_subset_of_card_le hsub heq.ge] at hk
    exact ((hmem k).1 hk).1
  · rw [Finset.Subset.antisymm hsub fun k hk => (hmem k).2 ⟨hall k hk, hk⟩]

/-- The slice is filled exactly if every key that is done is one of the keys. -/
theorem failedKeys_eq (hkeys : keys.Nodup) [Decidable (∀ k ∈ done, k ∈ keys)] :
    failedKeys f done keys =
      if ∀ k ∈ done, k ∈ keys then some ((keys.filter (· ∉ done)).map f) else none := by
  obtain ⟨hle, hiff⟩ := length_filter_iff done hkeys
  have hsplit : (keys.filter (· ∈ done)).length + (keys.filter (· ∉ done)).length = keys.length := by
    rw [← List.length_append, ← (List.filter_append_perm (fun k => decide (k ∈ done)) keys).length_eq]
    simp
  rw [← if_congr hiff rfl rfl]
  unfold failedKeys
  by_cases hneg : keys.length < done.card
  · rw [if_pos hneg, if_neg (by omega)]
  · have hfill : fillFailed f done ([] ++ List.replicate (keys.length - done.card) [])
        ([] : List Bytes).length keys = _ := fillFailed_eq _ _
    rw [List.nil_append, List.length_nil, List.length_replicate] at hfill
    rw [if_neg hneg, hfill]
    by_cases heq : (keys.filter (· ∈ done)).length = done.card
    · have hnone : (List.replicate (keys.length - done.card) ([] : Bytes)).drop
          (keys.filter (· ∉ done)).length = [] := by
        rw [List.drop_eq_nil_iff, List.length_replicate]
        omega
      rw [if_pos heq, if_pos (by omega), hnone]
      simp
    · rw [if_neg heq, if_neg (by omega)]

/-! ### Lengths -/

def size (l : List Bytes) : ℕ := (l.map List.length).sum

theorem size_of_perm {l l' : List Bytes} (h : l.Perm l') : size l = size l' :=
  (h.map _).sum_eq

theorem size_split (p : Bytes → Bool) (l : List Bytes) :
    size (l.filter p) + size (l.filter (!p ·)) = size l := by
  rw [← size_of_perm (List.filter_append_perm p l)]
  simp [size]

theorem size_map_le (hf : ∀ k ∈ l, (f k).length ≤ k.length) : size (l.map f) ≤ size l := by
  unfold size
  rw [List.map_map]
  exact List.sum_le_sum hf

/-- A function that only shortens keys gives them back only if it changes none. -/
theorem perm_map_iff (hf : ∀ k, (f k).length ≤ k.length) (heq : ∀ k, (f k).length = k.length → f k = k) :
    (l.map f).Perm l ↔ ∀ k ∈ l, f k = k := by
  constructor
  · intro hperm k hk
    by_contra hne
    have hlt : size (l.map f) < size l := by
      unfold size
      rw [List.map_map]
      exact List.sum_lt_sum _ _ (fun k _ => hf k) ⟨k, hk, (hf k).lt_of_ne fun h => hne (heq k h)⟩
    exact hlt.ne (size_of_perm hperm)
  · intro h
    rw [List.map_congr_left h, List.map_id']

theorem length_removeFirst {old s : Bytes} (h : old ≠ []) :
    removeFirst old s = s ∧ ¬ old <:+: s ∨
      (removeFirst old s).length < s.length ∧ old <:+: s := by
  induction s with
  | nil => exact .inl ⟨rfl, fun hinner => h (List.eq_nil_of_infix_nil hinner)⟩
  | cons c s ih =>
    unfold removeFirst
    by_cases hpre : old <+: c :: s
    · rw [if_pos hpre, List.length_drop]
      have hpos := List.length_pos_iff.2 h
      exact .inr ⟨by simp; omega, hpre.isInfix⟩
    · rw [if_neg hpre]
      have hinner : old <:+: c :: s ↔ old <:+: s := by
        rw [List.infix_cons_iff]
        exact or_iff_right hpre
      rw [hinner]
      rcases ih with ⟨heq, hnot⟩ | ⟨hlt, hin⟩
      · exact .inl ⟨by rw [heq], hnot⟩
      · exact .inr ⟨Nat.succ_lt_succ hlt, hin⟩

namespace Settings

/-- A key has the prefix in it, behind its `?`. -/
def Contains (cl : Settings) (key : Bytes) : Prop :=
  cl.keyPrefix <:+: if key.head? = some question then key.tail else key

theorem removePrefix_cases (h : cl.keyPrefix ≠ []) (key : Bytes) :
    cl.removePrefix key = key ∧ ¬ cl.Contains key ∨
      (cl.removePrefix key).length < key.length ∧ cl.Contains key := by
  unfold removePrefix Contains
  rw [if_neg h]
  by_cases hkey : key.head? = some question
  · rw [if_pos hkey, if_pos hkey]
    have hlen : key.length = key.tail.length + 1 := by
      conv_lhs => rw [← question_cons hkey, List.length_cons]
    rcases length_removeFirst (s := key.tail) h with ⟨heq, hnot⟩ | ⟨hlt, hin⟩
    · exact .inl ⟨by rw [heq, question_cons hkey], hnot⟩
    · exact .inr ⟨by rw [List.length_cons, hlen]; omega, hin⟩
  · rw [if_neg hkey, if_neg hkey]
    exact length_removeFirst h

/-- With a prefix the keys come back unchanged only if none contains it. -/
theorem perm_map_removePrefix (h : cl.keyPrefix ≠ []) :
    (l.map cl.removePrefix).Perm l ↔ ∀ k ∈ l, ¬ cl.Contains k := by
  rw [perm_map_iff]
  · refine forall₂_congr fun k _ => ?_
    rcases removePrefix_cases h k with ⟨heq, hnot⟩ | ⟨hlt, hin⟩
    · exact iff_of_true heq hnot
    · refine iff_of_false (fun heq => ?_) (not_not_intro hin)
      rw [heq] at hlt
      exact hlt.false
  · intro k
    rcases removePrefix_cases h k with ⟨heq, -⟩ | ⟨hlt, -⟩
    · exact (congrArg List.length heq).le
    · exact hlt.le
  · intro k hlen
    rcases removePrefix_cases h k with ⟨heq, -⟩ | ⟨hlt, -⟩
    · exact heq
    · exact absurd hlen hlt.ne

theorem rawKeys_eq (cl : Settings) (keys : List Bytes) : cl.rawKeys keys = keys.map cl.addPrefix := by
  unfold rawKeys
  split_ifs with h
  · have hid : ∀ k ∈ keys, cl.addPrefix k = id k := fun k _ => if_pos h
    rw [List.map_congr_left hid, List.map_id]
  · rfl

end Settings

/-! ### What is reported -/

/-- An operation ends without a panic and reports the keys of the caller that are not answered by
messages of some types, each once. -/
def Reports (cl : Settings) (types : MessageResultType → Bool) (keys : List Bytes)
    (results : List MessageResult) (e : Ended (List Bytes)) : Prop :=
  ∃ failed err, e.returned = some (failed, err) ∧
    failed.Perm (keys.filter fun key => !answered types results (cl.addPrefix key))

/-- The results are for keys that have been sent, and so for valid ones. -/
def Sent (cl : Settings) (keys : List Bytes) (results : List MessageResult) : Prop :=
  ∀ rst ∈ results, ∃ key ∈ keys, rst.key = some (cl.addPrefix key) ∧ isValidKey (cl.addPrefix key)

theorem Sent.keySet_spec (h : Sent cl keys results) (types : MessageResultType → Bool) :
    ∃ done, keySet types results = some done ∧ (∀ k, k ∈ done ↔ answered types results k) ∧
      ∀ k ∈ done, ∃ key ∈ keys, cl.addPrefix key = k := by
  have hshort : ∀ rst ∈ results, ∃ k, rst.key = some k ∧ k.length < 2 ^ 31 := fun rst hrst => by
    obtain ⟨key, -, hkey, hvalid⟩ := h rst hrst
    have hlen : (cl.addPrefix key).length ≤ 250 := of_decide_eq_true (Bool.and_eq_true_iff.1 hvalid).1
    exact ⟨_, hkey, hlen.trans_lt (by norm_num)⟩
  obtain ⟨done, hdone, hmem⟩ := Golibmc.keySet_spec types hshort
  refine ⟨done, hdone, hmem, fun k hk => ?_⟩
  obtain ⟨rst, hrst, -, hkey⟩ := answered_iff.1 ((hmem k).1 hk)
  obtain ⟨key, hmemKey, hkey', -⟩ := h rst hrst
  exact ⟨key, hmemKey, Option.some.inj (hkey'.symm.trans hkey)⟩

theorem reports_ok : Reports cl types keys results (.named [] none) ↔
    ∀ key ∈ keys, answered types results (cl.addPrefix key) := by
  have hnil : ([] : List Bytes).Perm (keys.filter fun key => !answered types results (cl.addPrefix key)) ↔
      ∀ key ∈ keys, answered types results (cl.addPrefix key) := by
    rw [List.nil_perm, List.filter_eq_nil_iff]
    simp
  rw [← hnil]
  constructor
  · rintro ⟨failed, err, hret, hperm⟩
    obtain ⟨rfl, -⟩ := Prod.mk.inj (Option.some.inj hret)
    exact hperm
  · exact fun hperm => ⟨[], none, rfl, hperm⟩

theorem reports_reportFailed {keys' : List Bytes} {types' : MessageResultType → Bool}
    (hkeys : keys'.Nodup) (hdone : keySet types results = some done) (err : Error) :
    Reports cl types' keys results (reportFailed f types results keys' err) ↔
      (∀ k ∈ done, k ∈ keys') ∧ ((keys'.filter (· ∉ done)).map f).Perm
        (keys.filter fun key => !answered types' results (cl.addPrefix key)) := by
  unfold reportFailed
  rw [hdone, Option.bind_some, failedKeys_eq hkeys]
  by_cases hall : ∀ k ∈ done, k ∈ keys'
  · rw [if_pos hall, and_iff_right hall]
    constructor
    · rintro ⟨failed, err', hret, hperm⟩
      obtain ⟨rfl, -⟩ := Prod.mk.inj (Option.some.inj hret)
      exact hperm
    · exact fun hperm => ⟨_, _, rfl, hperm⟩
  · rw [if_neg hall]
    refine iff_of_false ?_ fun h => hall h.1
    rintro ⟨failed, err', hret, -⟩
    cases hret

theorem size_map_addPrefix (cl : Settings) (l : List Bytes) :
    size (l.map cl.addPrefix) = size l + l.length * cl.keyPrefix.length := by
  have hlen : ∀ k, (cl.addPrefix k).length = k.length + cl.keyPrefix.length := by
    intro k
    rw [Settings.addPrefix_eq]
    split_ifs with hk
    · rw [List.cons_append, List.length_cons, List.length_append]
      conv_rhs => rw [← question_cons hk, List.length_cons]
      omega
    · rw [List.length_append, Nat.add_comm]
  unfold size
  induction l with
  | nil => simp
  | cons k l ih =>
    rw [List.map_cons, List.map_cons, List.sum_cons, ih, hlen, List.map_cons, List.sum_cons,
      List.length_cons, Nat.succ_mul]
    omega

/-- With a prefix the right keys are not reported if something was stored: if the loop finds what was
stored among the plain keys, it leaves out longer keys than it should. -/
theorem not_perm_of_stored (hpre : cl.keyPrefix ≠ []) (hkeys : keys.Nodup) (hne : done.Nonempty)
    (hraw : ∀ k ∈ done, ∃ key ∈ keys, cl.addPrefix key = k) (hplain : ∀ k ∈ done, k ∈ keys) :
    ¬ ((keys.filter (· ∉ done)).map cl.removePrefix).Perm
      (keys.filter (cl.addPrefix · ∉ done)) := by
  intro hperm
  have hsame : (keys.filter (· ∈ done)).Perm ((keys.filter (cl.addPrefix · ∈ done)).map cl.addPrefix) := by
    rw [List.perm_ext_iff_of_nodup (hkeys.filter _)
      ((hkeys.filter _).map cl.addPrefix_injective)]
    intro k
    simp only [List.mem_filter, List.mem_map, decide_eq_true_eq]
    constructor
    · rintro ⟨-, hk⟩
      obtain ⟨key, hkey, rfl⟩ := hraw k hk
      exact ⟨key, ⟨hkey, hk⟩, rfl⟩
    · rintro ⟨key, ⟨-, hk⟩, rfl⟩
      exact ⟨hplain _ hk, hk⟩
  have hpos : 0 < (keys.filter (cl.addPrefix · ∈ done)).length := by
    obtain ⟨k, hk⟩ := hne
    obtain ⟨key, hkey, rfl⟩ := hraw k hk
    exact List.length_pos_of_mem (List.mem_filter.2 ⟨hkey, by simpa using hk⟩)
  have hmul := Nat.mul_pos hpos (List.length_pos_iff.2 hpre)
  have hlonger := size_of_perm hsame
  rw [size_map_addPrefix] at hlonger
  have hsplit := size_split (· ∈ done) keys
  have hsplit' := size_split (cl.addPrefix · ∈ done) keys
  have hle : size ((keys.filter (· ∉ done)).map cl.removePrefix) ≤ size (keys.filter (· ∉ done)) :=
    size_map_le fun k _ => by
      rcases Settings.removePrefix_cases hpre k with ⟨heq, -⟩ | ⟨hlt, -⟩
      · exact (congrArg List.length heq).le
      · exact hlt.le
  rw [size_of_perm hperm] at hle
  simp only [decide_not] at hle
  omega

namespace Settings

theorem reports_setMulti (hkeys : keys.Nodup) (hsent : Sent cl keys results) (herr : errCode ≠ .ok) :
    Reports cl (· = .stored) keys results (cl.setMulti keys errCode results) ↔
      cl.keyPrefix = [] ∨
        (∀ rst ∈ results, rst.type_ ≠ .stored) ∧ ∀ key ∈ keys, ¬ cl.Contains key := by
  obtain ⟨done, hdone, hmem, hraw⟩ := hsent.keySet_spec (· = .stored)
  have hwanted : (keys.filter fun key => !answered (· = .stored) results (cl.addPrefix key)) =
      keys.filter (cl.addPrefix · ∉ done) := by
    exact List.filter_congr fun key _ => not_answered_eq (hmem _)
  unfold setMulti
  rw [if_neg herr, reports_reportFailed hkeys hdone, hwanted]
  by_cases hpre : cl.keyPrefix = []
  · have hadd : ∀ k, cl.addPrefix k = k := fun k => if_pos hpre
    have hremove : ∀ k ∈ keys.filter (· ∉ done), cl.removePrefix k = id k := fun k _ => if_pos hpre
    refine iff_of_true ⟨fun k hk => ?_, ?_⟩ (.inl hpre)
    · obtain ⟨key, hkey, rfl⟩ := hraw k hk
      rw [hadd]
      exact hkey
    · rw [List.map_congr_left hremove, List.map_id]
      simp [hadd]
  · rw [or_iff_right hpre]
    rcases done.eq_empty_or_nonempty with rfl | hne
    · have hnone : ∀ rst ∈ results, rst.type_ ≠ .stored := fun rst hrst htype => by
        obtain ⟨key, -, hkey, -⟩ := hsent rst hrst
        have := (hmem _).2 (answered_iff.2 ⟨rst, hrst, decide_eq_true htype, hkey⟩)
        simp at this
      rw [and_iff_right hnone, ← perm_map_removePrefix hpre]
      simp
    · refine iff_of_false (fun h => not_perm_of_stored hpre hkeys hne hraw h.1 h.2) fun h => ?_
      obtain ⟨k, hk⟩ := hne
      obtain ⟨rst, hrst, htype, -⟩ := answered_iff.1 ((hmem k).1 hk)
      exact h.1 rst hrst (of_decide_eq_true htype)

/-- Keys come back as some of themselves only if none is left out, and the prefix of each is taken off
again. -/
theorem perm_filter_iff (p : Bytes → Bool) (l : List Bytes) :
    (l.map fun key => cl.removePrefix (cl.addPrefix key)).Perm (l.filter p) ↔
      ∀ key ∈ l, p key = true ∧ cl.Removable key := by
  constructor
  · intro hperm
    have hfilter : l.filter p = l := by
      refine List.filter_sublist.eq_of_length ?_
      rw [← hperm.length_eq, List.length_map]
    rw [hfilter] at hperm
    intro key hkey
    refine ⟨List.filter_eq_self.1 hfilter key hkey, fun hp => ?_⟩
    obtain ⟨key', -, rfl⟩ := List.mem_map.1 (hperm.mem_iff.2 hkey)
    exact head?_removePrefix hp key'
  · intro h
    have hfilter : l.filter p = l := List.filter_eq_self.2 fun key hkey => (h key hkey).1
    have hback : ∀ key ∈ l, cl.removePrefix (cl.addPrefix key) = id key := fun key hkey =>
      removePrefix_of_removable (h key hkey).2
    rw [hfilter, List.map_congr_left hback, List.map_id]

/-- `DeleteMulti` takes a key that is not found for a failure. -/
theorem reports_deleteMulti (hnoreply : cl.noreply = false) (hkeys : keys.Nodup)
    (hsent : Sent cl keys results) (herr : errCode ≠ .ok) :
    Reports cl (fun tp => tp = .deleted || tp = .notFound) keys results
        (cl.deleteMulti keys errCode results) ↔
      ∀ key ∈ keys, answered (· = .deleted) results (cl.addPrefix key) = false →
        answered (· = .notFound) results (cl.addPrefix key) = false ∧ cl.Removable key := by
  obtain ⟨done, hdone, hmem, hraw⟩ := hsent.keySet_spec (· = .deleted)
  have hnodup : (cl.rawKeys keys).Nodup := by
    rw [rawKeys_eq]
    exact hkeys.map cl.addPrefix_injective
  have hall : ∀ k ∈ done, k ∈ cl.rawKeys keys := fun k hk => by
    rw [rawKeys_eq, List.mem_map]
    exact hraw k hk
  -- the keys that are left, as the caller has given them and as they are returned
  have hleft : ((cl.rawKeys keys).filter (· ∉ done)).map cl.removePrefix =
      (keys.filter (cl.addPrefix · ∉ done)).map fun key => cl.removePrefix (cl.addPrefix key) := by
    rw [rawKeys_eq, List.filter_map, List.map_map]
    rfl
  have hwanted : (keys.filter fun key =>
      !answered (fun tp => tp = .deleted || tp = .notFound) results (cl.addPrefix key)) =
      (keys.filter (cl.addPrefix · ∉ done)).filter fun key =>
        !answered (· = .notFound) results (cl.addPrefix key) := by
    rw [List.filter_filter]
    refine List.filter_congr fun key _ => ?_
    rw [answered_or, Bool.not_or, not_answered_eq (hmem _), Bool.and_comm]
  have hmemLeft : ∀ key, key ∈ keys.filter (cl.addPrefix · ∉ done) ↔
      key ∈ keys ∧ answered (· = .deleted) results (cl.addPrefix key) = false := by
    intro key
    rw [List.mem_filter, ← not_answered_eq (hmem _), Bool.not_eq_true']
  unfold deleteMulti
  rw [if_neg herr, if_neg (by simp [hnoreply]), reports_reportFailed hnodup hdone, and_iff_right hall,
    hleft, hwanted]
  rw [perm_filter_iff]
  refine forall_congr' fun key => ?_
  rw [hmemLeft, and_imp, Bool.not_eq_true']

/-- **What is reported as failed.** `SetMulti` reports the keys that are not answered by `STORED`
exactly if, after `RET_OK`, all of them are, and after an error there is no prefix, or nothing is stored
and no key contains the prefix. `DeleteMulti` reports the keys that are answered neither by `DELETED` nor
by `NOT_FOUND` exactly if, after `RET_OK`, there is none, and after an error no key that is not deleted is
answered by `NOT_FOUND` or has a prefix that is not taken off again. -/
theorem multi_reports_iff (hnoreply : cl.noreply = false) (hkeys : keys.Nodup)
    (hsent : Sent cl keys results) (errCode : ErrCode) :
    (Reports cl (· = .stored) keys results (cl.setMulti keys errCode results) ↔
      if errCode = .ok then ∀ key ∈ keys, answered (· = .stored) results (cl.addPrefix key)
      else cl.keyPrefix = [] ∨
        (∀ rst ∈ results, rst.type_ ≠ .stored) ∧ ∀ key ∈ keys, ¬ cl.Contains key) ∧
    (Reports cl (fun tp => tp = .deleted || tp = .notFound) keys results
        (cl.deleteMulti keys errCode results) ↔
      if errCode = .ok then
        ∀ key ∈ keys, answered (fun tp => tp = .deleted || tp = .notFound) results (cl.addPrefix key)
      else ∀ key ∈ keys, answered (· = .deleted) results (cl.addPrefix key) = false →
        answered (· = .notFound) results (cl.addPrefix key) = false ∧ cl.Removable key) := by
  by_cases herr : errCode = .ok
  · have hset : cl.setMulti keys errCode results = .named [] none := if_pos herr
    have hdelete : cl.deleteMulti keys errCode results = .named [] none := if_pos herr
    rw [if_pos herr, if_pos herr, hset, hdelete]
    exact ⟨reports_ok, reports_ok⟩
  · rw [if_neg herr, if_neg herr]
    exact ⟨reports_setMulti hkeys hsent herr, reports_deleteMulti hnoreply hkeys hsent herr⟩

/-- Without a prefix, one of two keys is stored. -/
theorem multi_reports_iff_plain : Reports {} (· = .stored) [ascii "a", ascii "b"]
    [⟨.stored, some (ascii "a")⟩]
    (Settings.setMulti {} [ascii "a", ascii "b"] .recvErr [⟨.stored, some (ascii "a")⟩]) :=
  (multi_reports_iff rfl (by decide)
    (List.forall_mem_singleton.2 ⟨ascii "a", by decide, rfl, by decide⟩) .recvErr).1.2 (.inl rfl)

/-- With a prefix, `SetMulti` makes a slice for one key and fills in two. -/
theorem multi_not_reports : ¬ ∀ (cl : Settings) (keys : List Bytes) (errCode : ErrCode)
    (results : List MessageResult), cl.noreply = false → keys ≠ [] → keys.Nodup →
      Sent cl keys results →
        Reports cl (· = .stored) keys results (cl.setMulti keys errCode results) ∧
        Reports cl (fun tp => tp = .deleted || tp = .notFound) keys results
          (cl.deleteMulti keys errCode results) := by
  intro h
  obtain ⟨⟨failed, err, hret, -⟩, -⟩ := h { keyPrefix := ascii "p:" } [ascii "a", ascii "b"] .recvErr
    [⟨.stored, some (ascii "p:a")⟩] rfl (by decide) (by decide)
    (List.forall_mem_singleton.2 ⟨ascii "a", by decide, rfl, by decide⟩)
  have hpanic : (Settings.setMulti { keyPrefix := ascii "p:" } [ascii "a", ascii "b"] .recvErr
    [⟨.stored, some (ascii "p:a")⟩]).returned = none := by decide
  cases hpanic.symm.trans hret

end Settings

end Libmc.Golibmc
