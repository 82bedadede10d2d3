import Mathlib.Data.BitVec
import Mathlib.Data.Nat.Log

/-!
# Tags, sets and block addresses

The address arithmetic of a cache array whose block size and set count are powers of two. A tag
and a set determine a block address and are determined by it.
-/

namespace Octopus

/-- The geometry of a cache array; the sizes are 32-bit numbers in the source. -/
structure Geometry where
  m_block_size : Nat
  m_sets_count : Nat
  m_ways_count : Nat
  blockBits : Nat
  setBits : Nat
  block_size_eq : m_block_size = 2 ^ blockBits
  sets_count_eq : m_sets_count = 2 ^ setBits
  bits_le : blockBits + setBits ≤ 31
  ways_pos : 0 < m_ways_count

namespace Geometry

variable (g : Geometry)

/-- `calculate_tag`. -/
def calculate_tag (address : BitVec 64) : BitVec 64 :=
  address >>> (Nat.log2 g.m_block_size + Nat.log2 g.m_sets_count)

/-- `calculate_set`. -/
def calculate_set (address : BitVec 64) : BitVec 64 :=
  (address >>> Nat.log2 g.m_block_size) &&& (BitVec.ofNat 64 g.m_sets_count - 1)

/-- `calculate_address`. -/
def calculate_address (tag set : BitVec 64) : BitVec 64 :=
  (tag <<< (Nat.log2 g.m_block_size + Nat.log2 g.m_sets_count)) ||| (set <<< Nat.log2 g.m_block_size)

/-- `mask_offset`: the address of the block. -/
def mask_offset (address : BitVec 64) : BitVec 64 := address &&& ~~~(BitVec.ofNat 64 g.m_block_size - 1)

/-- The bits of a low mask. -/
theorem getLsbD_lowMask {b : Nat} (hb : b ≤ 31) (i : Nat) :
    (BitVec.ofNat 64 (2 ^ b) - 1).getLsbD i = decide (i < b) := by
  have hpow : 2 ^ b ≤ 2 ^ 31 := Nat.pow_le_pow_right (by decide) hb
  have hpos : 0 < 2 ^ b := Nat.two_pow_pos b
  have hval : (BitVec.ofNat 64 (2 ^ b) - 1).toNat = 2 ^ b - 1 := by
    have hone : (1 : BitVec 64).toNat = 1 := rfl
    rw [BitVec.toNat_sub, BitVec.toNat_ofNat, hone]
    omega
  rw [BitVec.getLsbD, hval, Nat.testBit_two_pow_sub_one]

/-- The bits of a tag. -/
theorem getLsbD_calculate_tag (address : BitVec 64) (i : Nat) :
    (g.calculate_tag address).getLsbD i = address.getLsbD (g.blockBits + g.setBits + i) := by
  simp [calculate_tag, g.block_size_eq, g.sets_count_eq, Nat.log2_two_pow]

/-- The bits of a set number. -/
theorem getLsbD_calculate_set (address : BitVec 64) (i : Nat) :
    (g.calculate_set address).getLsbD i =
      (address.getLsbD (g.blockBits + i) && decide (i < g.setBits)) := by
  have hbits := g.bits_le
  rw [calculate_set, BitVec.getLsbD_and, g.sets_count_eq, getLsbD_lowMask (by omega)]
  simp [g.block_size_eq, Nat.log2_two_pow]

/-- The bits of a block address. -/
theorem getLsbD_mask_offset (address : BitVec 64) (i : Nat) :
    (g.mask_offset address).getLsbD i = (address.getLsbD i && decide (g.blockBits ≤ i)) := by
  have hbits := g.bits_le
  rw [mask_offset, BitVec.getLsbD_and, BitVec.getLsbD_not, g.block_size_eq, getLsbD_lowMask (by omega)]
  by_cases hi : i < 64
  · by_cases hb : i < g.blockBits
    · simp [hi, hb]
    · simp [hi, hb, Nat.not_lt.1 hb]
  · simp [BitVec.getLsbD_of_ge address i (by omega)]

/-- A tag and a set number give the block address back. -/
theorem calculate_address_eq (address : BitVec 64) :
    g.calculate_address (g.calculate_tag address) (g.calculate_set address) = g.mask_offset address := by
  have hbits := g.bits_le
  refine BitVec.eq_of_getLsbD_eq fun i hi => ?_
  rw [getLsbD_mask_offset, calculate_address, BitVec.getLsbD_or, BitVec.getLsbD_shiftLeft,
    BitVec.getLsbD_shiftLeft, getLsbD_calculate_tag, getLsbD_calculate_set]
  simp only [g.block_size_eq, g.sets_count_eq, Nat.log2_two_pow, hi, decide_true, Bool.true_and]
  by_cases hb : i < g.blockBits
  · have hbs : i < g.blockBits + g.setBits := by omega
    simp [hb, hbs, Nat.not_le.2 hb]
  · have hb' : g.blockBits ≤ i := by omega
    by_cases hbs : i < g.blockBits + g.setBits
    · have hset : i - g.blockBits < g.setBits := by omega
      simp [hb, hb', hbs, hset, Nat.add_sub_cancel' hb']
    · have hbs' : g.blockBits + g.setBits ≤ i := by omega
      have hset : ¬ i - g.blockBits < g.setBits := by omega
      simp [hb, hb', hbs, hset, Nat.add_sub_cancel' hbs']

/-- A block address has the tag of its bytes. -/
@[simp] theorem calculate_tag_mask_offset (address : BitVec 64) :
    g.calculate_tag (g.mask_offset address) = g.calculate_tag address := by
  refine BitVec.eq_of_getLsbD_eq fun i _ => ?_
  rw [getLsbD_calculate_tag, getLsbD_calculate_tag, getLsbD_mask_offset, decide_eq_true (by omega),
    Bool.and_true]

/-- A block address has the set number of its bytes. -/
@[simp] theorem calculate_set_mask_offset (address : BitVec 64) :
    g.calculate_set (g.mask_offset address) = g.calculate_set address := by
  refine BitVec.eq_of_getLsbD_eq fun i _ => ?_
  rw [getLsbD_calculate_set, getLsbD_calculate_set, getLsbD_mask_offset, decide_eq_true (by omega),
    Bool.and_true]

/-- A block address is its own block address. -/
@[simp] theorem mask_offset_mask_offset (address : BitVec 64) :
    g.mask_offset (g.mask_offset address) = g.mask_offset address := by
  rw [← calculate_address_eq, calculate_tag_mask_offset, calculate_set_mask_offset, calculate_address_eq]

/-- Addresses with one tag and one set number lie in one block. -/
theorem mask_offset_eq_of_tag_set {a b : BitVec 64} (htag : g.calculate_tag a = g.calculate_tag b)
    (hset : g.calculate_set a = g.calculate_set b) : g.mask_offset a = g.mask_offset b := by
  rw [← calculate_address_eq, ← calculate_address_eq, htag, hset]

end Geometry

end Octopus
