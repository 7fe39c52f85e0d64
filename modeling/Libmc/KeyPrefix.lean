import Libmc.GoClient
import Libmc.PyClient

/-!
# Prefixes of keys

A prefix is put in front of a key, or behind its `?` if it starts with one. Two keys never become the
same (`prefixed_injective`). golibmc takes the prefix off again where it finds it first, and looks
behind a `?` for it. So a key does not come back if the prefix starts with `?` and the key does not
(`removePrefix_addPrefix_iff`).
-/

namespace Libmc

/-- A word that is shifted by one letter over itself consists of this letter, and so does what
follows. -/
theorem head?_of_shift {α : Type*} {p x y : List α} {a : α} (h : p ++ x = a :: (p ++ y)) :
    x.head? = some a := by
  induction p generalizing a with
  | nil =>
    rw [List.nil_append] at h
    rw [h]
    rfl
  | cons b p ih =>
    obtain ⟨rfl, hrest⟩ := List.cons_eq_cons.1 h
    exact ih hrest

namespace Golibmc

variable {cl : Settings} {key key' : Bytes} {old s : Bytes}

theorem removeFirst_append (h : old ≠ []) (s : Bytes) : removeFirst old (old ++ s) = s := by
  cases old with
  | nil => exact absurd rfl h
  | cons c old =>
    rw [List.cons_append, removeFirst]
    exact (if_pos (List.prefix_append (c :: old) s)).trans List.drop_left

theorem question_cons (h : key.head? = some question) : question :: key.tail = key := by
  cases key with
  | nil => cases h
  | cons c key =>
    obtain rfl := Option.some.inj h
    rfl

namespace Settings

theorem addPrefix_eq (cl : Settings) (key : Bytes) : cl.addPrefix key =
    if key.head? = some question then question :: cl.keyPrefix ++ key.tail
    else cl.keyPrefix ++ key := by
  unfold addPrefix
  by_cases hnone : cl.keyPrefix = []
  · rw [if_pos hnone, hnone]
    split_ifs with hkey
    · exact (question_cons hkey).symm
    · rfl
  · rw [if_neg hnone]

theorem addPrefix_injective (cl : Settings) : Function.Injective cl.addPrefix := by
  intro k₁ k₂ h
  rw [addPrefix_eq, addPrefix_eq] at h
  split_ifs at h with h₁ h₂ h₂
  · have htail : k₁.tail = k₂.tail := by simpa using h
    rw [← question_cons h₁, htail, question_cons h₂]
  · exact absurd (head?_of_shift h.symm) h₂
  · exact absurd (head?_of_shift h) h₁
  · exact List.append_cancel_left h

/-- The prefix does not start with `?`, or the key does. -/
def Removable (cl : Settings) (key : Bytes) : Prop :=
  cl.keyPrefix.head? = some question → key.head? = some question

instance (cl : Settings) (key : Bytes) : Decidable (cl.Removable key) :=
  inferInstanceAs (Decidable (_ → _))

theorem removePrefix_of_removable (h : cl.Removable key) : cl.removePrefix (cl.addPrefix key) = key := by
  unfold removePrefix
  by_cases hnone : cl.keyPrefix = []
  · rw [if_pos hnone]
    exact if_pos hnone
  · rw [if_neg hnone, addPrefix_eq]
    by_cases hkey : key.head? = some question
    · rw [if_pos hkey, List.cons_append, List.head?_cons, if_pos rfl, List.tail_cons,
        removeFirst_append hnone]
      exact question_cons hkey
    · have hhead : (cl.keyPrefix ++ key).head? ≠ some question := by
        rw [List.head?_append_of_ne_nil _ hnone]
        exact fun hp => hkey (h hp)
      rw [if_neg hkey, if_neg hhead, removeFirst_append hnone]

/-- Where the prefix starts with `?` every key starts with one afterwards. -/
theorem head?_removePrefix (h : cl.keyPrefix.head? = some question) (key : Bytes) :
    (cl.removePrefix (cl.addPrefix key)).head? = some question := by
  have hnone : cl.keyPrefix ≠ [] := by
    intro hnone
    rw [hnone] at h
    cases h
  have hhead : (cl.addPrefix key).head? = some question := by
    rw [addPrefix_eq]
    split_ifs with hkey
    · rfl
    · rw [List.head?_append_of_ne_nil _ hnone]
      exact h
  unfold removePrefix
  rw [if_neg hnone, if_pos hhead]
  rfl

theorem removePrefix_eq_iff (cl : Settings) (key : Bytes) :
    cl.removePrefix (cl.addPrefix key) = key ↔ cl.Removable key := by
  refine ⟨fun h hp => ?_, removePrefix_of_removable⟩
  rw [← h]
  exact head?_removePrefix hp key

/-! ### Results under the keys of the caller -/

/-- What has been found for a key is returned under the key that the caller has asked for, and
nothing else is returned. -/
structure UnderAskedKeys (cl : Settings) (keys : List Bytes) (results : List Retrieved)
    (rv : Bytes → Option Item) : Prop where
  found : ∀ key ∈ keys, ∀ r ∈ results, r.key = cl.addPrefix key →
    ∃ r' ∈ results, r'.key = cl.addPrefix key ∧
      ∃ value, goStringN r'.dataBlock = some value ∧ rv key = some ⟨key, value, r'.flags, 0⟩
  asked : ∀ key item, rv key = some item → key ∈ keys

theorem getItem_eq_some {r : Retrieved} {key : Bytes} {item : Item} :
    cl.getItem r = some (key, item) ↔ cl.removePrefix r.key = key ∧
      ∃ value, goStringN r.dataBlock = some value ∧ item = ⟨key, value, r.flags, 0⟩ := by
  unfold getItem
  rw [goStringN_of_lt (r.key_lt.trans (by norm_num)), Option.bind_eq_bind, Option.bind_some,
    Option.bind_eq_some_iff]
  constructor
  · rintro ⟨value, hvalue, hpair⟩
    obtain ⟨rfl, rfl⟩ := Prod.mk.inj (Option.some.inj hpair)
    exact ⟨rfl, value, hvalue, rfl⟩
  · rintro ⟨rfl, value, hvalue, rfl⟩
    exact ⟨value, hvalue, rfl⟩

theorem getItems_cases {results : List Retrieved} {rv : Bytes → Option Item}
    (h : Table.fill cl.getItem (fun _ => none) results = some rv) (key : Bytes) :
    (rv key = none ∧ ∀ r ∈ results, cl.removePrefix r.key ≠ key) ∨
      ∃ r ∈ results, cl.removePrefix r.key = key ∧
        ∃ value, goStringN r.dataBlock = some value ∧ rv key = some ⟨key, value, r.flags, 0⟩ := by
  rcases Table.fill_cases h key with ⟨hsame, hnone⟩ | ⟨r, hr, item, hitem, hrv⟩
  · refine .inl ⟨hsame, fun r hr hkey => ?_⟩
    obtain ⟨⟨key', item⟩, hitem⟩ := Table.exists_of_fill h r hr
    obtain rfl := (getItem_eq_some.1 hitem).1.symm.trans hkey
    exact hnone r hr item hitem
  · obtain ⟨hkey, value, hvalue, rfl⟩ := getItem_eq_some.1 hitem
    exact .inr ⟨r, hr, hkey, value, hvalue, hrv⟩

theorem underAskedKeys_iff {keys : List Bytes} {results : List Retrieved}
    {rv : Bytes → Option Item} (hsent : ∀ r ∈ results, ∃ key ∈ keys, r.key = cl.addPrefix key)
    (h : Table.fill cl.getItem (fun _ => none) results = some rv) :
    cl.UnderAskedKeys keys results rv ↔
      ∀ key ∈ keys, (∃ r ∈ results, r.key = cl.addPrefix key) → cl.Removable key := by
  have hcases := getItems_cases h
  constructor
  · rintro hasked key hkey ⟨r, hr, hraw⟩ hp
    obtain ⟨r', -, -, value, -, hrv⟩ := hasked.found key hkey r hr hraw
    rcases hcases key with ⟨hnone, -⟩ | ⟨r'', hr'', hkey'', -⟩
    · cases hrv.symm.trans hnone
    · obtain ⟨k, -, hk⟩ := hsent r'' hr''
      rw [← hkey'', hk]
      exact head?_removePrefix hp k
  · intro hall
    have hback : ∀ r ∈ results, ∃ key ∈ keys, r.key = cl.addPrefix key ∧
        cl.removePrefix r.key = key := fun r hr => by
      obtain ⟨key, hkey, hraw⟩ := hsent r hr
      rw [hraw]
      exact ⟨key, hkey, rfl, removePrefix_of_removable (hall key hkey ⟨r, hr, hraw⟩)⟩
    refine ⟨fun key hkey r hr hraw => ?_, fun key item hitem => ?_⟩
    · rcases hcases key with ⟨-, hnone⟩ | ⟨r', hr', hkey', hvalue⟩
      · refine absurd ?_ (hnone r hr)
        rw [hraw]
        exact removePrefix_of_removable (hall key hkey ⟨r, hr, hraw⟩)
      · obtain ⟨k, -, hk, hback'⟩ := hback r' hr'
        obtain rfl := hback'.symm.trans hkey'
        exact ⟨r', hr', hk, hvalue⟩
    · rcases hcases key with ⟨hnone, -⟩ | ⟨r, hr, hkey, -⟩
      · cases hitem.symm.trans hnone
      · obtain ⟨k, hk, -, hback'⟩ := hback r hr
        rw [← hkey, hback']
        exact hk

/-- **Taking a prefix off again.** It gives the key back exactly if the prefix does not start with
`?`, or the key does. `GetMulti` returns what it has found under the keys of the caller exactly if this
is so for each key that something has been found for. -/
theorem removePrefix_addPrefix_iff (cl : Settings) :
    (∀ key, cl.removePrefix (cl.addPrefix key) = key ↔ cl.Removable key) ∧
      ∀ keys errCode results rv err, (∀ r ∈ results, ∃ key ∈ keys, r.key = cl.addPrefix key) →
        (cl.getMulti keys errCode results).returned = some (rv, err) →
          (cl.UnderAskedKeys keys results rv ↔
            ∀ key ∈ keys, (∃ r ∈ results, r.key = cl.addPrefix key) → cl.Removable key) := by
  refine ⟨removePrefix_eq_iff cl, fun keys errCode results rv err hsent h => ?_⟩
  refine underAskedKeys_iff hsent ?_
  unfold getMulti at h
  dsimp only at h
  split at h
  · next rv' hitems =>
    obtain ⟨rfl, -⟩ := Prod.mk.inj (Option.some.inj h)
    exact hitems
  · cases h

/-- A key with a prefix, and one whose prefix is behind its `?`. -/
theorem removePrefix_addPrefix_iff_two : ∃ rv err,
    (Settings.getMulti { keyPrefix := ascii "p:" } [ascii "a", ascii "?b"] .ok
      [⟨ascii "?p:b", ascii "1", 0, 0, by decide, by decide⟩]).returned = some (rv, err) ∧
    UnderAskedKeys { keyPrefix := ascii "p:" } [ascii "a", ascii "?b"]
      [⟨ascii "?p:b", ascii "1", 0, 0, by decide, by decide⟩] rv := by
  have h : (Settings.getMulti { keyPrefix := ascii "p:" } [ascii "a", ascii "?b"] .ok
    [⟨ascii "?p:b", ascii "1", 0, 0, by decide, by decide⟩]).returned = some (_, _) := rfl
  refine ⟨_, _, h, ((removePrefix_addPrefix_iff _).2 _ _ _ _ _ ?_ h).2 ?_⟩
  · exact List.forall_mem_singleton.2 ⟨ascii "?b", by decide, by decide⟩
  · exact fun key _ _ hp => absurd hp (by decide)

/-- The prefix `?` of the key `a` is taken for the `?` of a key. -/
theorem removePrefix_addPrefix_question :
    ¬ ∀ (cl : Settings) (key : Bytes), cl.removePrefix (cl.addPrefix key) = key := by
  intro h
  exact absurd (h { keyPrefix := ascii "?" } (ascii "a")) (by decide)

end Settings

end Golibmc

/-- Both clients put a prefix in the same place. -/
theorem PyClient.normalizeKey_eq_addPrefix (cl : PyClient) {key : Bytes} (h : key ≠ []) :
    cl.normalizeKey key =
      Session.ret (Golibmc.Settings.addPrefix { keyPrefix := cl.keyPrefix.getD [] } key) := by
  unfold normalizeKey
  cases cl.keyPrefix with
  | none => exact congrArg Session.ret (if_pos rfl : Golibmc.Settings.addPrefix {} key = key).symm
  | some pre =>
    rw [Golibmc.Settings.addPrefix_eq]
    cases key with
    | nil => exact absurd rfl h
    | cons c key =>
      simp only [List.head?_cons, Option.some.injEq]
      rfl

/-- **Two keys never share a cache entry.** The clients send different keys for different keys; the
empty key has no raw key in the Python client if there is a prefix. -/
theorem prefixed_injective (py : PyClient) (go : Golibmc.Settings) :
    Set.InjOn py.normalizeKey {key | key ≠ []} ∧ Function.Injective go.addPrefix := by
  refine ⟨fun k₁ h₁ k₂ h₂ h => ?_, go.addPrefix_injective⟩
  rw [py.normalizeKey_eq_addPrefix h₁, py.normalizeKey_eq_addPrefix h₂] at h
  exact Golibmc.Settings.addPrefix_injective _ (Session.ret.inj h)

end Libmc
