import Libmc.Common
import Libmc.Support.Crc
import Libmc.Support.Loop

/-!
# Hash functions

`hash_crc_32` and the two FNV hashes that a router may use in place of MD5. The first takes a byte
at a time from a table, and the others multiply by a sum of shifts; each is the hash of its
definition (`hashkit_eq`). The loop of `hash_crc_32` counts the bytes in an `unsigned int`, so it
does not leave on a key of `2 ^ 32` bytes (`hashCrc32_diverges`).
-/

namespace Libmc

namespace Hashkit

/-- `crc32tab`. -/
def crc32tab : List UInt32 := [
  0x00000000, 0x77073096, 0xee0e612c, 0x990951ba, 0x076dc419, 0x706af48f, 0xe963a535, 0x9e6495a3,
  0x0edb8832, 0x79dcb8a4, 0xe0d5e91e, 0x97d2d988, 0x09b64c2b, 0x7eb17cbd, 0xe7b82d07, 0x90bf1d91,
  0x1db71064, 0x6ab020f2, 0xf3b97148, 0x84be41de, 0x1adad47d, 0x6ddde4eb, 0xf4d4b551, 0x83d385c7,
  0x136c9856, 0x646ba8c0, 0xfd62f97a, 0x8a65c9ec, 0x14015c4f, 0x63066cd9, 0xfa0f3d63, 0x8d080df5,
  0x3b6e20c8, 0x4c69105e, 0xd56041e4, 0xa2677172, 0x3c03e4d1, 0x4b04d447, 0xd20d85fd, 0xa50ab56b,
  0x35b5a8fa, 0x42b2986c, 0xdbbbc9d6, 0xacbcf940, 0x32d86ce3, 0x45df5c75, 0xdcd60dcf, 0xabd13d59,
  0x26d930ac, 0x51de003a, 0xc8d75180, 0xbfd06116, 0x21b4f4b5, 0x56b3c423, 0xcfba9599, 0xb8bda50f,
  0x2802b89e, 0x5f058808, 0xc60cd9b2, 0xb10be924, 0x2f6f7c87, 0x58684c11, 0xc1611dab, 0xb6662d3d,
  0x76dc4190, 0x01db7106, 0x98d220bc, 0xefd5102a, 0x71b18589, 0x06b6b51f, 0x9fbfe4a5, 0xe8b8d433,
  0x7807c9a2, 0x0f00f934, 0x9609a88e, 0xe10e9818, 0x7f6a0dbb, 0x086d3d2d, 0x91646c97, 0xe6635c01,
  0x6b6b51f4, 0x1c6c6162, 0x856530d8, 0xf262004e, 0x6c0695ed, 0x1b01a57b, 0x8208f4c1, 0xf50fc457,
  0x65b0d9c6, 0x12b7e950, 0x8bbeb8ea, 0xfcb9887c, 0x62dd1ddf, 0x15da2d49, 0x8cd37cf3, 0xfbd44c65,
  0x4db26158, 0x3ab551ce, 0xa3bc0074, 0xd4bb30e2, 0x4adfa541, 0x3dd895d7, 0xa4d1c46d, 0xd3d6f4fb,
  0x4369e96a, 0x346ed9fc, 0xad678846, 0xda60b8d0, 0x44042d73, 0x33031de5, 0xaa0a4c5f, 0xdd0d7cc9,
  0x5005713c, 0x270241aa, 0xbe0b1010, 0xc90c2086, 0x5768b525, 0x206f85b3, 0xb966d409, 0xce61e49f,
  0x5edef90e, 0x29d9c998, 0xb0d09822, 0xc7d7a8b4, 0x59b33d17, 0x2eb40d81, 0xb7bd5c3b, 0xc0ba6cad,
  0xedb88320, 0x9abfb3b6, 0x03b6e20c, 0x74b1d29a, 0xead54739, 0x9dd277af, 0x04db2615, 0x73dc1683,
  0xe3630b12, 0x94643b84, 0x0d6d6a3e, 0x7a6a5aa8, 0xe40ecf0b, 0x9309ff9d, 0x0a00ae27, 0x7d079eb1,
  0xf00f9344, 0x8708a3d2, 0x1e01f268, 0x6906c2fe, 0xf762575d, 0x806567cb, 0x196c3671, 0x6e6b06e7,
  0xfed41b76, 0x89d32be0, 0x10da7a5a, 0x67dd4acc, 0xf9b9df6f, 0x8ebeeff9, 0x17b7be43, 0x60b08ed5,
  0xd6d6a3e8, 0xa1d1937e, 0x38d8c2c4, 0x4fdff252, 0xd1bb67f1, 0xa6bc5767, 0x3fb506dd, 0x48b2364b,
  0xd80d2bda, 0xaf0a1b4c, 0x36034af6, 0x41047a60, 0xdf60efc3, 0xa867df55, 0x316e8eef, 0x4669be79,
  0xcb61b38c, 0xbc66831a, 0x256fd2a0, 0x5268e236, 0xcc0c7795, 0xbb0b4703, 0x220216b9, 0x5505262f,
  0xc5ba3bbe, 0xb2bd0b28, 0x2bb45a92, 0x5cb36a04, 0xc2d7ffa7, 0xb5d0cf31, 0x2cd99e8b, 0x5bdeae1d,
  0x9b64c2b0, 0xec63f226, 0x756aa39c, 0x026d930a, 0x9c0906a9, 0xeb0e363f, 0x72076785, 0x05005713,
  0x95bf4a82, 0xe2b87a14, 0x7bb12bae, 0x0cb61b38, 0x92d28e9b, 0xe5d5be0d, 0x7cdcefb7, 0x0bdbdf21,
  0x86d3d2d4, 0xf1d4e242, 0x68ddb3f8, 0x1fda836e, 0x81be16cd, 0xf6b9265b, 0x6fb077e1, 0x18b74777,
  0x88085ae6, 0xff0f6a70, 0x66063bca, 0x11010b5c, 0x8f659eff, 0xf862ae69, 0x616bffd3, 0x166ccf45,
  0xa00ae278, 0xd70dd2ee, 0x4e048354, 0x3903b3c2, 0xa7672661, 0xd06016f7, 0x4969474d, 0x3e6e77db,
  0xaed16a4a, 0xd9d65adc, 0x40df0b66, 0x37d83bf0, 0xa9bcae53, 0xdebb9ec5, 0x47b2cf7f, 0x30b5ffe9,
  0xbdbdf21c, 0xcabac28a, 0x53b39330, 0x24b4a3a6, 0xbad03605, 0xcdd70693, 0x54de5729, 0x23d967bf,
  0xb3667a2e, 0xc4614ab8, 0x5d681b02, 0x2a6f2b94, 0xb40bbe37, 0xc30c8ea1, 0x5a05df1b, 0x2d02ef8d]

/-- One round of the loop of `hash_crc_32`, on `i` and `crc`; `i` is an `unsigned int`. -/
def crc32Round (key : Bytes) (s : UInt32 × UInt32) : (UInt32 × UInt32) ⊕ UInt32 :=
  let (i, crc) := s
  if i.toNat < key.length then
    .inl (i + 1, crc >>> 8 ^^^
      crc32tab.getD ((crc ^^^ (key.getD i.toNat 0).toUInt32) &&& 0xff).toNat 0)
  else .inr (~~~crc)

/-- `hash_crc_32` returns `hash`. -/
def HashCrc32 (key : Bytes) (hash : UInt32) : Prop :=
  Loop.Returns (crc32Round key) (0, ~~~0) hash

/-- `FNV_32_INIT`. -/
def fnv32Init : UInt32 := 2166136261

/-- `FNV_32_PRIME`. -/
def fnv32Prime : UInt32 := 16777619

/-- `hash += (hash << 1) + …`, in place of `hash *= FNV_32_PRIME`. -/
def fnvShiftAdd (hash : UInt32) : UInt32 :=
  hash + ((hash <<< 1) + (hash <<< 4) + (hash <<< 7) + (hash <<< 8) + (hash <<< 24))

/-- `hash_fnv1_32`. -/
def hashFnv132 (key : Bytes) : UInt32 :=
  key.foldl (fun hash val => fnvShiftAdd hash ^^^ val.toUInt32) fnv32Init

/-- `hash_fnv1a_32`. -/
def hashFnv1a32 (key : Bytes) : UInt32 :=
  key.foldl (fun hash val => fnvShiftAdd (hash ^^^ val.toUInt32)) fnv32Init

/-! ## The definitions -/

/-- The CRC-32 polynomial, reflected. -/
def crc32Poly : BitVec 32 := 0xedb88320

/-- CRC-32, bit by bit. -/
def crc32 (key : Bytes) : UInt32 :=
  ⟨Crc.checksum crc32Poly 0xffffffff 0xffffffff (key.map UInt8.toBitVec)⟩

/-- FNV-1 on numbers below `2 ^ 32`. -/
def fnv1 (key : Bytes) : ℕ :=
  key.foldl (fun hash val => hash * 16777619 % 2 ^ 32 ^^^ val.toNat) 2166136261

/-- FNV-1a on numbers below `2 ^ 32`. -/
def fnv1a (key : Bytes) : ℕ :=
  key.foldl (fun hash val => (hash ^^^ val.toNat) * 16777619 % 2 ^ 32) 2166136261

/-! ## The table -/

variable {key : Bytes} {i crc hash : UInt32}

/-- The table holds the remainders of the bytes. -/
theorem crc32tab_eq : crc32tab.map UInt32.toBitVec =
    (List.range 256).map fun i => Crc.bits crc32Poly 8 (BitVec.ofNat 32 i) := by
  decide +kernel

theorem crc32tab_getD {i : ℕ} (h : i < 256) :
    (crc32tab.getD i 0).toBitVec = Crc.bits crc32Poly 8 (BitVec.ofNat 32 i) := by
  have hi : crc32tab[i]?.map UInt32.toBitVec =
      some (Crc.bits crc32Poly 8 (BitVec.ofNat 32 i)) := by
    rw [← List.getElem?_map, crc32tab_eq, List.getElem?_map, List.getElem?_range h, Option.map_some]
  obtain ⟨v, hv, he⟩ := Option.map_eq_some_iff.1 hi
  rw [List.getD_eq_getElem?_getD, hv, Option.getD_some, he]

theorem crc32_index (crc : UInt32) (c : UInt8) :
    BitVec.ofNat 32 ((crc ^^^ c.toUInt32) &&& 0xff).toNat =
      Crc.low 8 (crc.toBitVec ^^^ c.toBitVec.setWidth 32) := by
  have hmask : ((crc ^^^ c.toUInt32) &&& 0xff).toBitVec =
      (crc.toBitVec ^^^ c.toBitVec.setWidth 32) &&& 0xff#32 := rfl
  rw [← UInt32.toNat_toBitVec, BitVec.ofNat_toNat, BitVec.setWidth_eq, hmask]
  apply BitVec.eq_of_getLsbD_eq
  intro j hj
  rw [Crc.getLsbD_low, BitVec.getLsbD_and, Bool.and_comm]
  have hff : (0xff#32).getLsbD j = decide (j < 8) := by
    rw [BitVec.getLsbD_ofNat, show 0xff = 2 ^ 8 - 1 from rfl, Nat.testBit_two_pow_sub_one]
    simp only [hj, decide_true, Bool.true_and]
  rw [hff]

theorem crc32_round (crc : UInt32) (c : UInt8) :
    (crc >>> 8 ^^^ crc32tab.getD ((crc ^^^ c.toUInt32) &&& 0xff).toNat 0).toBitVec =
      Crc.word crc32Poly crc.toBitVec c.toBitVec := by
  have hlt : ((crc ^^^ c.toUInt32) &&& 0xff).toNat < 256 := by
    rw [UInt32.toNat_and]
    exact Nat.and_lt_two_pow _ (n := 8) (by decide)
  rw [UInt32.toBitVec_xor, crc32tab_getD hlt, crc32_index, Crc.word_eq]
  rfl

/-! ## The loop of `hash_crc_32` -/

theorem crc32Round_lt (h : i.toNat < key.length) : crc32Round key (i, crc) = .inl (i + 1,
    crc >>> 8 ^^^ crc32tab.getD ((crc ^^^ (key.getD i.toNat 0).toUInt32) &&& 0xff).toNat 0) :=
  if_pos h

theorem crc32Round_ge (h : key.length ≤ i.toNat) : crc32Round key (i, crc) = .inr (~~~crc) :=
  if_neg (by omega)

theorem toNat_succ (hlen : key.length < 2 ^ 32) (h : i.toNat < key.length) :
    (i + 1).toNat = i.toNat + 1 := by
  rw [UInt32.toNat_add]
  exact Nat.mod_eq_of_lt (by simp; omega)

theorem crc32_returns (crc : UInt32) (hlen : key.length < 2 ^ 32) (hi : i.toNat ≤ key.length) :
    Loop.Returns (crc32Round key) (i, crc) ⟨Crc.checksum crc32Poly crc.toBitVec 0xffffffff
      ((key.drop i.toNat).map UInt8.toBitVec)⟩ := by
  induction hrest : key.drop i.toNat generalizing i crc with
  | nil =>
    have hge : key.length ≤ i.toNat := List.drop_eq_nil_iff.1 hrest
    apply Loop.returns_of_inr
    rw [crc32Round_ge hge]
    congr 1
    apply UInt32.toBitVec_inj.1
    show ~~~crc.toBitVec = crc.toBitVec ^^^ BitVec.allOnes 32
    exact BitVec.xor_allOnes.symm
  | cons c rest ih =>
    have hlt : i.toNat < key.length := by
      by_contra hge
      rw [List.drop_eq_nil_of_le (by omega)] at hrest
      cases hrest
    have hc : key.getD i.toNat 0 = c := by
      rw [List.drop_eq_getElem_cons hlt] at hrest
      rw [List.getD_eq_getElem?_getD, List.getElem?_eq_getElem hlt, Option.getD_some]
      exact (List.cons.inj hrest).1
    have hdrop : key.drop (i + 1).toNat = rest := by
      rw [toNat_succ hlen hlt, ← List.drop_drop, hrest]
      rfl
    rw [Loop.returns_of_inl (crc32Round_lt hlt), hc]
    have h := ih (crc >>> 8 ^^^ crc32tab.getD ((crc ^^^ c.toUInt32) &&& 0xff).toNat 0)
      (by rw [toNat_succ hlen hlt]; omega) hdrop
    rw [crc32_round] at h
    exact h

theorem hashCrc32_iff (hlen : key.length < 2 ^ 32) : HashCrc32 key hash ↔ hash = crc32 key := by
  have h : HashCrc32 key (crc32 key) :=
    crc32_returns (i := 0) (~~~0) hlen (Nat.zero_le _)
  constructor
  · intro h'
    exact h'.unique h
  · rintro rfl
    exact h

/-- On a key that the counter cannot pass, the loop goes round for ever. -/
theorem hashCrc32_diverges (hlen : 2 ^ 32 ≤ key.length) : ¬ HashCrc32 key hash := by
  rintro ⟨n, hn⟩
  generalize ((0, ~~~0) : UInt32 × UInt32) = s at hn
  induction n generalizing s with
  | zero => simp [Loop.run] at hn
  | succ n ih =>
    obtain ⟨i, crc⟩ := s
    have hlt : i.toNat < key.length := lt_of_lt_of_le i.toNat_lt hlen
    rw [Loop.run_succ_inl (crc32Round_lt hlt)] at hn
    exact ih _ hn

/-! ## The shifts of FNV -/

theorem fnvShiftAdd_eq (hash : UInt32) : fnvShiftAdd hash = hash * fnv32Prime := by
  apply UInt32.toNat_inj.1
  unfold fnvShiftAdd fnv32Prime
  simp only [UInt32.toNat_add, UInt32.toNat_shiftLeft, UInt32.toNat_mul, UInt32.reduceToNat,
    Nat.shiftLeft_eq, Nat.reduceMod, Nat.reducePow]
  omega

theorem toNat_fnvShiftAdd (hash : UInt32) :
    (fnvShiftAdd hash).toNat = hash.toNat * 16777619 % 2 ^ 32 := by
  rw [fnvShiftAdd_eq, UInt32.toNat_mul]
  rfl

theorem toNat_foldl {f : UInt32 → UInt8 → UInt32} {g : ℕ → UInt8 → ℕ}
    (h : ∀ hash val, (f hash val).toNat = g hash.toNat val) (key : Bytes) (hash : UInt32) :
    (key.foldl f hash).toNat = key.foldl g hash.toNat := by
  induction key generalizing hash with
  | nil => rfl
  | cons val key ih =>
    rw [List.foldl_cons, List.foldl_cons, ih, h]

theorem toNat_hashFnv132 (key : Bytes) : (hashFnv132 key).toNat = fnv1 key := by
  apply toNat_foldl
  intro hash val
  rw [UInt32.toNat_xor, toNat_fnvShiftAdd]
  rfl

theorem toNat_hashFnv1a32 (key : Bytes) : (hashFnv1a32 key).toNat = fnv1a key := by
  apply toNat_foldl
  intro hash val
  rw [toNat_fnvShiftAdd, UInt32.toNat_xor]
  rfl

/-- **The hashes are those of their definitions.** -/
theorem hashkit_eq (key : Bytes) (hlen : key.length < 2 ^ 32) :
    (∀ hash, HashCrc32 key hash ↔ hash = crc32 key) ∧
      (hashFnv132 key).toNat = fnv1 key ∧ (hashFnv1a32 key).toNat = fnv1a key :=
  ⟨fun _ => hashCrc32_iff hlen, toNat_hashFnv132 key, toNat_hashFnv1a32 key⟩

/-- The hashes of the text `123456`. -/
theorem hashkit_eq_digits :
    (HashCrc32 (ascii "123456") 0x972d361 ∧ hashFnv132 (ascii "123456") = 0xeb008bb8) ∧
      hashFnv1a32 (ascii "123456") = 0x9995b6aa := by
  have h := hashkit_eq (ascii "123456") (by decide)
  have hfnv : (hashFnv132 (ascii "123456")).toNat = 0xeb008bb8 := by
    rw [h.2.1]
    decide
  have hfnva : (hashFnv1a32 (ascii "123456")).toNat = 0x9995b6aa := by
    rw [h.2.2]
    decide
  refine ⟨⟨(h.1 _).2 (by decide +kernel), ?_⟩, ?_⟩
  · exact UInt32.toNat_inj.1 hfnv
  · exact UInt32.toNat_inj.1 hfnva

end Hashkit

end Libmc
