import Mathlib.Tactic

/-! # Reading bytes from a buffer

A reader is a place in a buffer that it does not hold: what it reads is what the buffer
holds at that time.  A read that the buffer is too short for leaves the reader invalid for
good, and yields a number that nothing is known of.
-/

namespace Bytes

/-! ## Numbers as bytes -/

def littleEndian : Nat → Nat → List UInt8
  | 0, _ => []
  | size + 1, value => UInt8.ofNat value :: littleEndian size (value / 256)

def number : List UInt8 → Nat
  | [] => 0
  | byte :: rest => byte.toNat + 256 * number rest

@[simp] theorem length_littleEndian (size value : Nat) :
    (littleEndian size value).length = size := by
  induction size generalizing value with
  | zero => rfl
  | succ size ih => simp [littleEndian, ih]

theorem number_littleEndian {size value : Nat} (bound : value < 256 ^ size) :
    number (littleEndian size value) = value := by
  induction size generalizing value with
  | zero =>
      rw [pow_zero] at bound
      simp only [littleEndian, number]
      omega
  | succ size ih =>
      have smaller : value / 256 < 256 ^ size := by
        rw [pow_succ] at bound
        omega
      simp only [littleEndian, number, ih smaller, UInt8.toNat_ofNat']
      omega

theorem littleEndian_eq_map (size value : Nat) :
    littleEndian size value =
      (List.range size).map fun place => UInt8.ofNat (value / 256 ^ place) := by
  induction size generalizing value with
  | zero => rfl
  | succ size ih =>
      have shifted : ∀ place, value / 256 / 256 ^ place = value / 256 ^ (place + 1) := by
        intro place
        rw [Nat.div_div_eq_div_mul, pow_succ, Nat.mul_comm]
      rw [littleEndian, ih, List.range_succ_eq_map, List.map_cons, List.map_map, pow_zero,
        Nat.div_one]
      congr 1
      exact List.map_congr_left fun place _ => congrArg UInt8.ofNat (shifted place)

/-! ## The reader -/

structure Reader where
  position : Nat
  valid : Bool
  deriving DecidableEq

namespace Reader

/-- Whether the buffer has as many bytes at the reader. -/
def Holds (reader : Reader) (data : List UInt8) (size : Nat) : Prop :=
  reader.valid = true ∧ reader.position + size ≤ data.length

instance (reader : Reader) (data : List UInt8) (size : Nat) : Decidable (reader.Holds data size) :=
  inferInstanceAs (Decidable (_ ∧ _))

def skip (reader : Reader) (data : List UInt8) (size : Nat) : Reader :=
  if reader.Holds data size then ⟨reader.position + size, true⟩
  else ⟨reader.position, false⟩

/-- A little endian number of a given size.  Nothing is known of one that is torn. -/
def read (torn : List UInt8 → Nat) (reader : Reader) (data : List UInt8) (size : Nat) :
    Nat × Reader :=
  let value :=
    if reader.Holds data size then number ((data.drop reader.position).take size)
    else torn (data.drop reader.position)
  (value, reader.skip data size)

variable {torn : List UInt8 → Nat} {reader : Reader} {data : List UInt8} {size : Nat}

theorem skip_valid : (reader.skip data size).valid = true ↔ reader.Holds data size := by
  unfold skip
  split_ifs with holds
  · simp [holds]
  · simp [holds]

theorem skip_of_holds (holds : reader.Holds data size) :
    reader.skip data size = ⟨reader.position + size, true⟩ := if_pos holds

theorem skip_invalid (invalid : reader.valid = false) : (reader.skip data size).valid = false := by
  rw [Bool.eq_false_iff, ne_eq, skip_valid]
  intro holds
  rw [holds.1] at invalid
  cases invalid

/-- What was written at the reader is read back. -/
theorem read_littleEndian (torn : List UInt8 → Nat) (before after : List UInt8) {value : Nat}
    (bound : value < 256 ^ size) :
    (⟨before.length, true⟩ : Reader).read torn (before ++ (littleEndian size value ++ after)) size =
      (value, ⟨before.length + size, true⟩) := by
  have holds : (⟨before.length, true⟩ : Reader).Holds
      (before ++ (littleEndian size value ++ after)) size := by
    refine ⟨rfl, ?_⟩
    simp only [List.length_append, length_littleEndian]
    omega
  have value_eq : ((before ++ (littleEndian size value ++ after)).drop before.length).take size =
      littleEndian size value := by
    rw [List.drop_left]
    exact List.take_left' (length_littleEndian size value)
  unfold read
  rw [if_pos holds, skip_of_holds holds, value_eq, number_littleEndian bound]

end Reader

end Bytes
