import Libmc.BufferReader
import Libmc.Support.Decimal

/-!
# What the parser asks of its reader

`ByteReader` lists the operations of the buffer reader that the parser calls. `BufferReader`
carries them out on blocks; a plain byte string carries them out as what they are for
(`ByteQueue`): tokens are then the bytes themselves. The parser is written once, over either.
-/

namespace Libmc

/-- A reader `ρ` with tokens `τ`. -/
class ByteReader (ρ : Type) (τ : outParam Type) where
  readLeft : ρ → ℕ
  peek : ρ → ℕ → ErrCode × UInt8
  readUntil : ρ → UInt8 → ErrCode × ℕ × τ × ρ
  skipUntil : ρ → UInt8 → ErrCode × ℕ × ρ
  readUnsigned : ρ → ErrCode × ℕ × ρ
  readBytes : ρ → ℕ → ErrCode × τ × ρ
  skipBytes : ρ → ℕ → ErrCode × ρ
  setNextPreferedDataBlockSize : ρ → ℕ → ρ
  freeTokenData : ρ → τ → ρ
  /-- The token after `clear()`. -/
  noToken : τ

instance : ByteReader BufferReader TokenData where
  readLeft r := r.readLeft
  peek := BufferReader.peek
  readUntil := BufferReader.readUntil
  skipUntil := BufferReader.skipUntil
  readUnsigned := BufferReader.readUnsigned
  readBytes := BufferReader.readBytes
  skipBytes := BufferReader.skipBytes
  setNextPreferedDataBlockSize := BufferReader.setNextPreferedDataBlockSize
  freeTokenData r td := { r with dataBlockList := freeTokenData r.dataBlockList td }
  noToken := []

/-! ### Numbers -/

theorem isDigit_of_mem_numeral {n : ℕ} {c : UInt8} (h : c ∈ Decimal.numeral n) : isDigit c :=
  decide_eq_true (Decimal.bounds_of_mem_numeral h)

theorem foldDigits_mod (v : ℕ) (ds : Bytes) :
    foldDigits (v % 2 ^ 64) ds = Decimal.valueFrom v ds % 2 ^ 64 := by
  induction ds generalizing v with
  | nil => rfl
  | cons c ds ih =>
    have hstep : (v % 2 ^ 64 * 10 + (c.toNat - 48)) % 2 ^ 64 =
        (v * 10 + (c.toNat - 48)) % 2 ^ 64 := by omega
    show foldDigits ((v % 2 ^ 64 * 10 + (c.toNat - 48)) % 2 ^ 64) ds = _
    rw [hstep]
    exact ih (v * 10 + (c.toNat - 48))

theorem foldDigits_numeral {n : ℕ} (h : n < 2 ^ 64) : foldDigits 0 (Decimal.numeral n) = n := by
  have hfold := foldDigits_mod 0 (Decimal.numeral n)
  rw [show Decimal.valueFrom 0 (Decimal.numeral n) = n from Decimal.value_numeral n,
    Nat.mod_eq_of_lt h] at hfold
  exact hfold

namespace ByteQueue

variable {q u v : Bytes} {c : UInt8} {n : ℕ}

def peek (q : Bytes) (offset : ℕ) : ErrCode × UInt8 :=
  match q[offset]? with
  | none => (.incompleteBufferErr, 0)
  | some c => (.ok, c)

def readUntil (q : Bytes) (value : UInt8) : ErrCode × ℕ × Bytes × Bytes :=
  if value ∈ q then
    (.ok, (q.takeWhile (· != value)).length, q.takeWhile (· != value), q.dropWhile (· != value))
  else (.incompleteBufferErr, 0, [], q)

def skipUntil (q : Bytes) (value : UInt8) : ErrCode × ℕ × Bytes :=
  if value ∈ q then (.ok, (q.takeWhile (· != value)).length, q.dropWhile (· != value))
  else (.incompleteBufferErr, 0, q)

def readUnsigned (q : Bytes) : ErrCode × ℕ × Bytes :=
  if q.length < 2 then (.incompleteBufferErr, 0, q)
  else if q.takeWhile isDigit = [] then (.programmingErr, 0, q)
  else if q.dropWhile isDigit = [] then (.incompleteBufferErr, 0, q)
  else (.ok, foldDigits 0 (q.takeWhile isDigit), q.dropWhile isDigit)

def readBytes (q : Bytes) (len : ℕ) : ErrCode × Bytes × Bytes :=
  if len = 0 then (.ok, [], q)
  else if len > q.length then (.incompleteBufferErr, [], q)
  else (.ok, q.take len, q.drop len)

def skipBytes (q : Bytes) (len : ℕ) : ErrCode × Bytes :=
  if len > q.length then (.incompleteBufferErr, q) else (.ok, q.drop len)

/-! ### Each operation on a queue that starts with what it looks for -/

theorem peek_append (h : n < u.length) : peek (u ++ v) n = peek u n := by
  unfold peek
  rw [List.getElem?_append_left h]

theorem peek_of_le (h : q.length ≤ n) : peek q n = (.incompleteBufferErr, 0) := by
  unfold peek
  rw [List.getElem?_eq_none h]

theorem takeWhile_ne_append (h : c ∉ u) : (u ++ c :: v).takeWhile (· != c) = u := by
  rw [List.takeWhile_append_of_pos fun x hx => by simpa using ne_of_mem_of_not_mem hx h]
  simp

theorem dropWhile_ne_append (h : c ∉ u) : (u ++ c :: v).dropWhile (· != c) = c :: v := by
  rw [List.dropWhile_append_of_pos fun x hx => by simpa using ne_of_mem_of_not_mem hx h]
  simp

theorem readUntil_append (h : c ∉ u) : readUntil (u ++ c :: v) c = (.ok, u.length, u, c :: v) := by
  unfold readUntil
  rw [if_pos (by simp), takeWhile_ne_append h, dropWhile_ne_append h]

theorem readUntil_of_not_mem (h : c ∉ q) : readUntil q c = (.incompleteBufferErr, 0, [], q) :=
  if_neg h

theorem skipUntil_append (h : c ∉ u) : skipUntil (u ++ c :: v) c = (.ok, u.length, c :: v) := by
  unfold skipUntil
  rw [if_pos (by simp), takeWhile_ne_append h, dropWhile_ne_append h]

theorem skipUntil_of_not_mem (h : c ∉ q) : skipUntil q c = (.incompleteBufferErr, 0, q) :=
  if_neg h

theorem takeWhile_isDigit_append (hu : ∀ x ∈ u, isDigit x) (hc : isDigit c = false) :
    (u ++ c :: v).takeWhile isDigit = u := by
  rw [List.takeWhile_append_of_pos hu, List.takeWhile_cons_of_neg (by simp [hc]), List.append_nil]

theorem dropWhile_isDigit_append (hu : ∀ x ∈ u, isDigit x) (hc : isDigit c = false) :
    (u ++ c :: v).dropWhile isDigit = c :: v := by
  rw [List.dropWhile_append_of_pos hu, List.dropWhile_cons_of_neg (by simp [hc])]

theorem readUnsigned_append (hne : u ≠ []) (hu : ∀ x ∈ u, isDigit x) (hc : isDigit c = false) :
    readUnsigned (u ++ c :: v) = (.ok, foldDigits 0 u, c :: v) := by
  have hlen : ¬ (u ++ c :: v).length < 2 := by
    have := List.length_pos_of_ne_nil hne
    simp only [List.length_append, List.length_cons]
    omega
  unfold readUnsigned
  rw [if_neg hlen, takeWhile_isDigit_append hu hc, dropWhile_isDigit_append hu hc, if_neg hne,
    if_neg (by simp)]

/-- A digit string without its terminator is not enough. -/
theorem readUnsigned_of_digits (hu : ∀ x ∈ u, isDigit x) :
    readUnsigned u = (.incompleteBufferErr, 0, u) := by
  unfold readUnsigned
  split_ifs with h1 h2
  · rfl
  · rw [List.takeWhile_eq_self_iff.2 hu] at h2
    subst h2
    simp at h1
  · rfl
  · exact absurd (List.dropWhile_eq_nil_iff.2 hu) ‹_›

theorem readUnsigned_notDigit {t : Bytes} (hc : isDigit c = false) (ht : t ≠ []) :
    readUnsigned (c :: t) = (.programmingErr, 0, c :: t) := by
  have hlen : ¬ (c :: t).length < 2 := by
    have := List.length_pos_of_ne_nil ht
    rw [List.length_cons]
    omega
  unfold readUnsigned
  rw [if_neg hlen, if_pos (List.takeWhile_cons_of_neg (by simp [hc]))]

/-- A number is incomplete, or not there, or all there with its terminator. -/
theorem readUnsigned_cases (q : Bytes) :
    readUnsigned q = (.incompleteBufferErr, 0, q) ∨
      (∃ c t, q = c :: t ∧ isDigit c = false ∧ t ≠ []) ∨
      ∃ u c t, q = u ++ c :: t ∧ u ≠ [] ∧ (∀ x ∈ u, isDigit x) ∧ isDigit c = false := by
  by_cases hall : ∀ x ∈ q, isDigit x
  · exact .inl (readUnsigned_of_digits hall)
  obtain ⟨c, t, hd⟩ : ∃ c t, q.dropWhile isDigit = c :: t :=
    List.exists_cons_of_ne_nil fun hnil => hall (List.dropWhile_eq_nil_iff.1 hnil)
  have hc : isDigit c = false := by
    simpa [hd] using List.head?_dropWhile_not isDigit q
  have hq := List.takeWhile_append_dropWhile (p := isDigit) (l := q)
  rw [hd] at hq
  by_cases hu : q.takeWhile isDigit = []
  · rw [hu, List.nil_append] at hq
    by_cases ht : t = []
    · subst ht
      refine .inl ?_
      rw [← hq]
      rfl
    · exact .inr (.inl ⟨c, t, hq.symm, hc, ht⟩)
  · exact .inr (.inr ⟨_, c, t, hq.symm, hu, fun x hx => List.mem_takeWhile_imp hx, hc⟩)

theorem readBytes_append : readBytes (u ++ v) u.length = (.ok, u, v) := by
  unfold readBytes
  by_cases hu : u.length = 0
  · obtain rfl : u = [] := List.length_eq_zero_iff.1 hu
    rfl
  · rw [if_neg hu, if_neg (by simp), List.take_left, List.drop_left]

theorem readBytes_of_lt (h : q.length < n) : readBytes q n = (.incompleteBufferErr, [], q) := by
  unfold readBytes
  rw [if_neg (by omega), if_pos h]

theorem skipBytes_append (h : u.length = n) : skipBytes (u ++ v) n = (.ok, v) := by
  unfold skipBytes
  rw [if_neg (by simp [h]), ← h, List.drop_left]

theorem skipBytes_of_lt (h : q.length < n) : skipBytes q n = (.incompleteBufferErr, q) := if_pos h

end ByteQueue

instance : ByteReader Bytes Bytes where
  readLeft q := q.length
  peek := ByteQueue.peek
  readUntil := ByteQueue.readUntil
  skipUntil := ByteQueue.skipUntil
  readUnsigned := ByteQueue.readUnsigned
  readBytes := ByteQueue.readBytes
  skipBytes := ByteQueue.skipBytes
  setNextPreferedDataBlockSize q _ := q
  freeTokenData q _ := q
  noToken := []

end Libmc
