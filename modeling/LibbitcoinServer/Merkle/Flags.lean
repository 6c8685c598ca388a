import Mathlib.Algebra.Order.Floor.Div
import Mathlib.Tactic

/-! # Flag bits of a partial merkle tree

The flags travel as bytes, least significant bit first.  Packing pads the last
byte with clear bits, so unpacking returns the packed bits and that padding.
-/

namespace LibbitcoinServer.Merkle

/-- A `data_chunk` element. -/
abbrev Byte := BitVec 8

/-- `get_right`: the bit at `offset` from the least significant one. -/
def getRight (byte : Byte) (offset : Nat) : Bool := byte.getLsbD offset

/-- `set_right_into`: the bit at `offset` from the least significant one, replaced. -/
def setRightInto (byte : Byte) (offset : Nat) (value : Bool) : Byte :=
  if value then byte ||| (1#8 <<< offset) else byte &&& ~~~(1#8 <<< offset)

/-- `to_ceilinged_bytes`: the bytes needed to hold the bits. -/
def toCeilingedBytes (bits : Nat) : Nat := bits ⌈/⌉ 8

/-- `bytes_to_bits`. -/
def bytesToBits (bytes : List Byte) : List Bool :=
  (List.range (bytes.length * 8)).map fun bit => getRight (bytes.getD (bit / 8) 0) (bit % 8)

/-- The body of the packing loop: one bit set into its own byte. -/
def packBit (bits : List Bool) (bytes : List Byte) (bit : Nat) : List Byte :=
  bytes.modify (bit / 8) (setRightInto · (bit % 8) (bits.getD bit false))

/-- `bits_to_bytes`. -/
def bitsToBytes (bits : List Bool) : List Byte :=
  (List.range bits.length).foldl (packBit bits)
    (List.replicate (toCeilingedBytes bits.length) 0)

theorem getRight_setRightInto (byte : Byte) (offset : Nat) (inside : offset < 8) (value : Bool)
    (index : Nat) :
    getRight (setRightInto byte offset value) index =
      if index = offset then value else getRight byte index := by
  unfold getRight setRightInto
  by_cases same : index = offset
  · subst same
    cases value <;> simp [inside]
  · have apart : (1#8 <<< offset).getLsbD index = false := by
      by_cases lower : index < offset
      · simp [lower]
      · have : index - offset ≠ 0 := by omega
        simp [BitVec.getLsbD_one, this]
    cases value with
    | true => simp only [if_true, BitVec.getLsbD_or, apart, Bool.or_false, same, if_false]
    | false =>
        by_cases high : index < 8
        · simp only [Bool.false_eq_true, if_false, BitVec.getLsbD_and, BitVec.getLsbD_not, apart,
            high, decide_true, Bool.not_false, Bool.and_true, same]
        · simp [same, BitVec.getLsbD_of_ge, Nat.not_lt.mp high]

@[simp] theorem length_bytesToBits (bytes : List Byte) :
    (bytesToBits bytes).length = bytes.length * 8 := by
  simp [bytesToBits]

@[simp] theorem length_packBit (bits : List Bool) (bytes : List Byte) (bit : Nat) :
    (packBit bits bytes bit).length = bytes.length := by
  simp [packBit]

private theorem length_packed (bits : List Bool) (bytes : List Byte) (count : Nat) :
    ((List.range count).foldl (packBit bits) bytes).length = bytes.length := by
  induction count with
  | zero => rfl
  | succ count ih => simp [List.range_succ, ih]

@[simp] theorem length_bitsToBytes (bits : List Bool) :
    (bitsToBytes bits).length = toCeilingedBytes bits.length := by
  simp [bitsToBytes, length_packed]

/-- Setting one bit in place leaves every other bit of every byte as it was. -/
private theorem getRight_packBit (bits : List Bool) (bytes : List Byte) (target bit : Nat)
    (inside : bit / 8 < bytes.length) :
    getRight ((packBit bits bytes target).getD (bit / 8) 0) (bit % 8) =
      if bit = target then bits.getD target false
      else getRight (bytes.getD (bit / 8) 0) (bit % 8) := by
  simp only [packBit, List.getD_eq_getElem?_getD, List.getElem?_modify,
    List.getElem?_eq_getElem inside, Option.map_eq_map, Option.map_some, Option.getD_some]
  by_cases same : target / 8 = bit / 8
  · rw [if_pos same, getRight_setRightInto _ _ (Nat.mod_lt _ (by decide))]
    have iff : bit % 8 = target % 8 ↔ bit = target := by omega
    simp only [iff]
  · have apart : bit ≠ target := by rintro rfl; exact same rfl
    simp only [if_neg same, if_neg apart]

/-- What the packing loop has written once it has set the first `count` bits. -/
private theorem getRight_packed (bits : List Bool) (bytes : List Byte) (count bit : Nat)
    (clear : getRight (bytes.getD (bit / 8) 0) (bit % 8) = false)
    (inside : bit / 8 < bytes.length) :
    getRight (((List.range count).foldl (packBit bits) bytes).getD (bit / 8) 0) (bit % 8) =
      (decide (bit < count) && bits.getD bit false) := by
  induction count with
  | zero => simpa using clear
  | succ count ih =>
      rw [List.range_succ, List.foldl_append, List.foldl_cons, List.foldl_nil,
        getRight_packBit _ _ _ _ (by rwa [length_packed]), ih]
      by_cases same : bit = count
      · subst same
        simp
      · have iff : bit < count + 1 ↔ bit < count := by omega
        simp [same, iff]

theorem le_toCeilingedBytes (bits : Nat) : bits ≤ toCeilingedBytes bits * 8 := by
  have covered := le_smul_ceilDiv (a := 8) (b := bits) (by decide)
  simpa [toCeilingedBytes, Nat.mul_comm] using covered

/-- Packed bits read back as themselves, followed by the clear padding. -/
theorem bytesToBits_bitsToBytes (bits : List Bool) :
    bytesToBits (bitsToBytes bits) =
      bits ++ List.replicate (toCeilingedBytes bits.length * 8 - bits.length) false := by
  have fits := le_toCeilingedBytes bits.length
  apply List.ext_getElem
  · simp only [length_bytesToBits, length_bitsToBytes, List.length_append, List.length_replicate]
    omega
  · intro bit here there
    simp only [length_bytesToBits, length_bitsToBytes] at here
    simp only [bytesToBits, List.getElem_map, List.getElem_range, bitsToBytes]
    rw [getRight_packed]
    · by_cases packed : bit < bits.length
      · simp [packed]
      · simp [List.getElem_append, packed]
    · simp only [List.getD_eq_getElem?_getD, List.getElem?_replicate]
      split <;> simp [getRight]
    · rw [List.length_replicate]
      omega

end LibbitcoinServer.Merkle
