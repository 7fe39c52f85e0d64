import Mathlib.Data.List.Infix
import Mathlib.Tactic

/-!
# Streams of framed items

A stream is read from the front, one item at a time, for as long as a whole item is there. When a
reader undoes a writer and does not find an item in a part of one (`Frames`), a stream that was
written is read back item by item (`Frames.readAll_items`), and so is the beginning of one.
-/

namespace Framing

variable {α β : Type} {read : List α → Option (β × List α)} {write : β → List α} {P : β → Prop}
  {s rest : List α} {b : β} {bs : List β} {n : ℕ}

/-- Read at most `n` items; the result is the items and what is left. -/
def readN (read : List α → Option (β × List α)) : ℕ → List α → List β × List α
  | 0, s => ([], s)
  | n + 1, s =>
    match read s with
    | none => ([], s)
    | some (b, rest) => (b :: (readN read n rest).1, (readN read n rest).2)

def readAll (read : List α → Option (β × List α)) (s : List α) : List β × List α :=
  readN read s.length s

/-- The reader undoes the writer on the items of `P`, and finds nothing in a part of one. -/
structure Frames (read : List α → Option (β × List α)) (write : β → List α) (P : β → Prop) : Prop where
  write_ne : ∀ b, P b → write b ≠ []
  read_write : ∀ b rest, P b → read (write b ++ rest) = some (b, rest)
  read_cut : ∀ b s, P b → s <+: write b → s ≠ write b → read s = none

theorem readN_none (h : read s = none) : readN read n s = ([], s) := by
  cases n with
  | zero => rfl
  | succ n => simp only [readN, h]

theorem readN_some (h : read s = some (b, rest)) :
    readN read (n + 1) s = (b :: (readN read n rest).1, (readN read n rest).2) := by
  simp only [readN, h]

/-- A part of an item, or nothing at all. -/
def Cut (write : β → List α) (P : β → Prop) (s : List α) : Prop :=
  s = [] ∨ ∃ b, P b ∧ s <+: write b ∧ s ≠ write b

theorem Frames.flatMap_length (h : Frames read write P) (hbs : ∀ b ∈ bs, P b) :
    bs.length ≤ (bs.flatMap write).length := by
  induction bs with
  | nil => exact le_rfl
  | cons b bs ih =>
    have hb := List.length_pos_of_ne_nil (h.write_ne b (hbs b List.mem_cons_self))
    have hrest := ih fun c hc => hbs c (List.mem_cons_of_mem b hc)
    rw [List.flatMap_cons, List.length_append, List.length_cons]
    omega

theorem Frames.readN_items (h : Frames read write P) (hbs : ∀ b ∈ bs, P b) (hs : Cut write P s)
    (hn : bs.length ≤ n) (hne : s = [] → bs = [] → n = 0) :
    readN read n (bs.flatMap write ++ s) = (bs, s) := by
  induction bs generalizing n with
  | nil =>
    rcases hs with rfl | ⟨b, hb, hpre, hne'⟩
    · obtain rfl := hne rfl rfl
      rfl
    · exact readN_none (h.read_cut b s hb hpre hne')
  | cons b bs ih =>
    obtain ⟨n, rfl⟩ : ∃ k, n = k + 1 := ⟨n - 1, by rw [List.length_cons] at hn; omega⟩
    have hb := hbs b List.mem_cons_self
    have hread : read ((b :: bs).flatMap write ++ s) = some (b, bs.flatMap write ++ s) := by
      rw [List.flatMap_cons, List.append_assoc, h.read_write b _ hb]
    rw [readN_some hread]
    by_cases hnil : s = [] ∧ bs = []
    · -- nothing is found in the empty stream, since it is a part of the last item
      obtain ⟨rfl, rfl⟩ := hnil
      have : read [] = none := h.read_cut b [] hb List.nil_prefix (h.write_ne b hb).symm
      rw [List.flatMap_nil, List.nil_append, readN_none this]
    · rw [ih (fun c hc => hbs c (List.mem_cons_of_mem b hc)) (by rw [List.length_cons] at hn; omega)
        fun h1 h2 => absurd ⟨h1, h2⟩ hnil]

/-- **Items are read back**, and a part of another one is left. -/
theorem Frames.readAll_items (h : Frames read write P) (hbs : ∀ b ∈ bs, P b) (hs : Cut write P s) :
    readAll read (bs.flatMap write ++ s) = (bs, s) := by
  refine h.readN_items hbs hs ?_ fun h1 h2 => ?_
  · rw [List.length_append]
    exact (h.flatMap_length hbs).trans (Nat.le_add_right _ _)
  · rw [h1, h2]
    rfl

/-- A beginning of a stream of items is some of the items and a part of the next one. -/
theorem exists_of_prefix (hbs : ∀ b ∈ bs, P b) (hs : s <+: bs.flatMap write) :
    ∃ (k : ℕ) (t : List α), s = (bs.take k).flatMap write ++ t ∧ Cut write P t ∧
      (k < bs.length ∨ bs.length ≤ k ∧ t = []) := by
  induction bs generalizing s with
  | nil => exact ⟨0, [], by simpa using hs, .inl rfl, .inr ⟨le_rfl, rfl⟩⟩
  | cons b bs ih =>
    rw [List.flatMap_cons] at hs
    rcases List.prefix_or_prefix_of_prefix hs (List.prefix_append (write b) _) with hpre | ⟨s', rfl⟩
    · by_cases heq : s = write b
      · subst heq
        obtain ⟨k, t, ht, hcut, hk⟩ := ih (fun c hc => hbs c (List.mem_cons_of_mem b hc))
          (s := []) List.nil_prefix
        refine ⟨k + 1, t, ?_, hcut, hk.imp Nat.succ_lt_succ fun h => ⟨Nat.succ_le_succ h.1, h.2⟩⟩
        rw [List.take_succ_cons, List.flatMap_cons, List.append_assoc, ← ht, List.append_nil]
      · exact ⟨0, s, rfl, .inr ⟨b, hbs b List.mem_cons_self, hpre, heq⟩,
          .inl (by rw [List.length_cons]; omega)⟩
    · obtain ⟨k, t, ht, hcut, hk⟩ := ih (fun c hc => hbs c (List.mem_cons_of_mem b hc))
        ((List.prefix_append_right_inj _).1 hs)
      refine ⟨k + 1, t, ?_, hcut, hk.imp Nat.succ_lt_succ fun h => ⟨Nat.succ_le_succ h.1, h.2⟩⟩
      rw [List.take_succ_cons, List.flatMap_cons, List.append_assoc, ← ht]

/-- **More of a stream has more items.** -/
theorem Frames.readAll_mono (h : Frames read write P) (hbs : ∀ b ∈ bs, P b) {s' : List α}
    (hs : s <+: s') (hs' : s' <+: bs.flatMap write) : (readAll read s).1 <+: (readAll read s').1 := by
  have htake : ∀ k, ∀ b ∈ bs.take k, P b := fun k b hb => hbs b (List.mem_of_mem_take hb)
  obtain ⟨k, t, rfl, hcut, -⟩ := exists_of_prefix hbs (hs.trans hs')
  obtain ⟨k', t', rfl, hcut', -⟩ := exists_of_prefix hbs hs'
  rw [h.readAll_items (htake k) hcut, h.readAll_items (htake k') hcut']
  show bs.take k <+: bs.take k'
  rcases le_or_gt k k' with hle | hlt
  · exact List.take_prefix_take_left hle
  rcases le_or_gt bs.length k' with hlen | hlen
  · rw [List.take_of_length_le hlen]
    exact List.take_prefix k bs
  -- the next item would be in a part of one
  exfalso
  have hsplit : bs.take k = bs.take k' ++ (bs[k'] :: (bs.take k).drop (k' + 1)) := by
    have hlt' : k' < (bs.take k).length := by
      rw [List.length_take]
      omega
    have hget : (bs.take k)[k'] = bs[k'] := List.getElem_take
    rw [← hget, ← List.drop_eq_getElem_cons hlt']
    conv_lhs => rw [← List.take_append_drop k' (bs.take k)]
    rw [List.take_take, min_eq_left hlt.le]
  rw [hsplit, List.flatMap_append, List.append_assoc, List.prefix_append_right_inj,
    List.flatMap_cons, List.append_assoc] at hs
  have hb := hbs bs[k'] (List.getElem_mem hlen)
  obtain ⟨rest, hrest⟩ := hs
  rw [List.append_assoc] at hrest
  rcases hcut' with rfl | ⟨b, hPb, hpre, hne⟩
  · exact h.write_ne _ hb (List.append_eq_nil_iff.1 hrest).1
  · have hnone := h.read_cut b t' hPb hpre hne
    rw [← hrest, h.read_write _ _ hb] at hnone
    cases hnone

end Framing
