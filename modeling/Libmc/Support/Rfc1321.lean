import Libmc.Support.BlockHash
import Libmc.Support.Sines

/-!
# The MD5 message digest

The digest of RFC 1321, by its own formulas: the constants are integer parts of sines, and a block
is compressed by 64 steps of one form on four words. `digest` writes a given count of bytes behind
the message, and `md5` that of the message.
-/

namespace Rfc1321

/-- The 32-bit word `i` of a block, low-order byte first. -/
def word (block : List UInt8) (i : ℕ) : UInt32 :=
  UInt32.ofNat (Nat.ofDigits 256 (((block.drop (4 * i)).take 4).map UInt8.toNat))

/-- The `k` low-order bytes of a number, low-order byte first. -/
def bytes (k n : ℕ) : List UInt8 := (List.range k).map fun j => UInt8.ofNat (n / 256 ^ j)

@[ext]
structure Words where
  a : UInt32
  b : UInt32
  c : UInt32
  d : UInt32

/-- The function of a round. -/
def aux (round : ℕ) (x y z : UInt32) : UInt32 :=
  match round with
  | 0 => (x &&& y) ||| (~~~x &&& z)
  | 1 => (x &&& z) ||| (y &&& ~~~z)
  | 2 => x ^^^ y ^^^ z
  | _ => y ^^^ (x ||| ~~~z)

/-- The word of the block that step `j` takes in. -/
def index (j : ℕ) : ℕ :=
  match j / 16 with
  | 0 => j % 16
  | 1 => (5 * j + 1) % 16
  | 2 => (3 * j + 5) % 16
  | _ => 7 * j % 16

/-- By how much step `j` rotates. -/
def shift (j : ℕ) : ℕ :=
  match j / 16 with
  | 0 => [7, 12, 17, 22].getD (j % 4) 0
  | 1 => [5, 9, 14, 20].getD (j % 4) 0
  | 2 => [4, 11, 16, 23].getD (j % 4) 0
  | _ => [6, 10, 15, 21].getD (j % 4) 0

/-- The constant of step `j`: the integer part of `4294967296` times `abs (sin (j + 1))`. -/
noncomputable def sine (j : ℕ) : UInt32 :=
  UInt32.ofNat ⌊((2 ^ 32 : ℕ) : ℝ) * |Real.sin (j + 1 : ℕ)|⌋₊

def rotl (x : UInt32) (n : ℕ) : UInt32 := ⟨x.toBitVec.rotateLeft n⟩

/-- Step `j`; the registers move on by one place. -/
noncomputable def step (X : ℕ → UInt32) (w : Words) (j : ℕ) : Words :=
  ⟨w.d, w.b + rotl (w.a + aux (j / 16) w.b w.c w.d + X (index j) + sine j) (shift j), w.b, w.c⟩

noncomputable def compress (w : Words) (block : List UInt8) : Words :=
  let w' := (List.range 64).foldl (step (word block)) w
  ⟨w.a + w'.a, w.b + w'.b, w.c + w'.c, w.d + w'.d⟩

def init : Words := ⟨0x67452301, 0xefcdab89, 0x98badcfe, 0x10325476⟩

/-- A bit, and zeros up to eight bytes before the end of a block. -/
def padding (len : ℕ) : List UInt8 := 0x80 :: List.replicate ((119 - len % 64) % 64) 0

/-- The registers after a message that is padded, with `count` written for its length in bytes. -/
noncomputable def digestWords (count : ℕ) (msg : List UInt8) : Words :=
  (BlockHash.absorb compress 64 init (msg ++ padding msg.length ++ bytes 8 (8 * count))).1

/-- The output for given registers. -/
def output (w : Words) : List UInt8 :=
  bytes 4 w.a.toNat ++ bytes 4 w.b.toNat ++ bytes 4 w.c.toNat ++ bytes 4 w.d.toNat

/-- The digest of a message whose length is written as `count`. -/
noncomputable def digest (count : ℕ) (msg : List UInt8) : List UInt8 := output (digestWords count msg)

noncomputable def md5 (msg : List UInt8) : List UInt8 := digest msg.length msg

/-! ### Bytes of numbers -/

variable {n m k l j t : ℕ}

theorem length_bytes (k n : ℕ) : (bytes k n).length = k := by
  unfold bytes
  rw [List.length_map, List.length_range]

theorem bytes_add (k l n : ℕ) : bytes (k + l) n = bytes k n ++ bytes l (n / 256 ^ k) := by
  unfold bytes
  rw [List.range_add, List.map_append, List.map_map]
  congr 1
  apply List.map_congr_left
  intro j _
  rw [Function.comp_apply, Nat.div_div_eq_div_mul, pow_add]

theorem bytes_congr (h : n % 256 ^ k = m % 256 ^ k) : bytes k n = bytes k m := by
  have hmod : ∀ n, bytes k n = bytes k (n % 256 ^ k) := by
    intro n
    apply List.map_congr_left
    intro j hj
    obtain ⟨i, rfl⟩ : ∃ i, k = j + (i + 1) := ⟨k - j - 1, by have := List.mem_range.1 hj; omega⟩
    rw [pow_add, Nat.mod_mul_right_div_self]
    apply UInt8.toNat_inj.1
    rw [UInt8.toNat_ofNat', UInt8.toNat_ofNat', Nat.mod_mod_of_dvd _ (dvd_pow_self 256 i.succ_ne_zero)]
  rw [hmod n, h, ← hmod m]

/-! ### The steps -/

theorem index_lt (j : ℕ) : index j < 16 := by
  unfold index
  split <;> exact Nat.mod_lt _ (by decide)

theorem shift_bounds (j : ℕ) : 0 < shift j ∧ shift j < 32 := by
  have h4 : j % 4 = 0 ∨ j % 4 = 1 ∨ j % 4 = 2 ∨ j % 4 = 3 := by omega
  unfold shift
  rcases h4 with h | h | h | h <;> rw [h] <;> split <;> decide

theorem sine_eq (h : Sines.Bracket 40 (2 ^ 32) (j + 1) t) : sine j = UInt32.ofNat t := by
  unfold sine
  rw [Sines.floor_mul_abs_sin h]

end Rfc1321
