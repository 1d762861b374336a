import DataReceiveRelay.Blocks

/-!
# Bits packed in octets

A memory of octets seen as a memory of bits, the low end of each octet first.
The view loses nothing, so that blocks of bits are the blocks of this second
memory.
-/

namespace DataReceiveRelay.PackedBits

open Blocks

/-- Bit `j` of the memory. -/
def bitAt (memory : Nat → BitVec 8) (j : Nat) : Bool := (memory (j / 8)).getLsbD (j % 8)

/-- The memory with these bits. -/
def ofBits (bits : Nat → Bool) : Nat → BitVec 8 := fun k => BitVec.ofFnLE fun i : Fin 8 => bits (8 * k + i)

theorem getLsbD_ofBits (bits : Nat → Bool) (k i : Nat) (h : i < 8) : (ofBits bits k).getLsbD i = bits (8 * k + i) := by
  rw [ofBits, BitVec.getLsbD_ofFnLE, dif_pos h]

theorem bitAt_ofBits (bits : Nat → Bool) : bitAt (ofBits bits) = bits := by
  funext j
  rw [bitAt, getLsbD_ofBits bits _ _ (Nat.mod_lt j (by decide)), Nat.div_add_mod]

theorem bitAt_cell (memory : Nat → BitVec 8) (k i : Nat) (h : i < 8) :
    bitAt memory (8 * k + i) = (memory k).getLsbD i := by
  have hcell : (8 * k + i) / 8 = k := by omega
  have hbit : (8 * k + i) % 8 = i := by omega
  rw [bitAt, hcell, hbit]

theorem ofBits_bitAt (memory : Nat → BitVec 8) : ofBits (bitAt memory) = memory := by
  funext k
  apply BitVec.eq_of_getLsbD_eq
  intro i hi
  rw [getLsbD_ofBits _ _ _ hi, bitAt_cell memory k i hi]

/-- Memories with the same bits are the same. -/
theorem ext_bits (memory memory' : Nat → BitVec 8) (h : bitAt memory = bitAt memory') : memory = memory' := by
  rw [← ofBits_bitAt memory, h, ofBits_bitAt]

/-- The octets that hold `n` bits. -/
def octets (n : Nat) : Nat := (n + 7) / 8

/-- Bits in octets; zeros fill the last one. -/
def pack (bits : List Bool) : List (BitVec 8) :=
  block (ofBits fun j => bits.getD j false) 0 (octets bits.length)

theorem pack_length (bits : List Bool) : (pack bits).length = octets bits.length := by
  rw [pack, block_length]

/-- Octets that lie in the memory give their bits, and zeros behind them to the end of the last one. -/
theorem bitAt_of_pack (memory : Nat → BitVec 8) (p : Nat) (bits : List Bool)
    (h : block memory p (octets bits.length) = pack bits) (j : Nat) (hj : j < 8 * octets bits.length) :
    bitAt memory (8 * p + j) = bits.getD j false := by
  have hk : j / 8 < octets bits.length := by omega
  have hcell : memory (p + j / 8) = ofBits (fun j => bits.getD j false) (0 + j / 8) := by
    have hboth := congrArg (·[j / 8]?) h
    rw [pack, getElem?_block _ _ _ _ hk, getElem?_block _ _ _ _ hk] at hboth
    exact Option.some.inj hboth
  have hsplit : 8 * p + j = 8 * (p + j / 8) + j % 8 := by omega
  rw [hsplit, bitAt_cell _ _ _ (Nat.mod_lt j (by decide)), hcell, getLsbD_ofBits _ _ _ (Nat.mod_lt j (by decide)),
    Nat.zero_add, Nat.div_add_mod]

end DataReceiveRelay.PackedBits
