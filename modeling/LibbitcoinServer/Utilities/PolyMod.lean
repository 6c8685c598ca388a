import LibbitcoinServer.Lib.Register
import Mathlib.Tactic

/-! # The checksum generator of descriptors

The generator is a register of eight symbols of five bits.  A step shifts the first symbol
out and feeds it back through five generators, which is linear in the bits.  The low bits
of the generators are independent, so that a step loses nothing of the state before it.
-/

namespace LibbitcoinServer.Utilities

/-! ## The register -/

/-- The bip380 checksum generator, as bech32's. -/
def polyMod (check value : BitVec 64) : BitVec 64 :=
  let out := (check &&& 0x00000007ffffffff#64) <<< 5 ^^^ value
  let out := if check.getLsbD 35 then out ^^^ 0xf5dee51989#64 else out
  let out := if check.getLsbD 36 then out ^^^ 0xa9fdca3312#64 else out
  let out := if check.getLsbD 37 then out ^^^ 0x1bab10e32d#64 else out
  let out := if check.getLsbD 38 then out ^^^ 0x3706b1677a#64 else out
  if check.getLsbD 39 then out ^^^ 0x644d626ffd#64 else out

/-- A generator, where its bit is set. -/
def selected (bit : Bool) (generator : BitVec 64) : BitVec 64 :=
  if bit then generator else 0

/-- What the five bits shifted out are fed back as. -/
def feedback (check : BitVec 64) : BitVec 64 :=
  selected (check.getLsbD 35) 0xf5dee51989#64 ^^^ selected (check.getLsbD 36) 0xa9fdca3312#64 ^^^
    selected (check.getLsbD 37) 0x1bab10e32d#64 ^^^ selected (check.getLsbD 38) 0x3706b1677a#64 ^^^
    selected (check.getLsbD 39) 0x644d626ffd#64

theorem xor_selected (value generator : BitVec 64) (bit : Bool) :
    (if bit then value ^^^ generator else value) = value ^^^ selected bit generator := by
  cases bit <;> simp [selected]

theorem polyMod_eq (check value : BitVec 64) :
    polyMod check value = (check &&& 0x00000007ffffffff#64) <<< 5 ^^^ value ^^^ feedback check := by
  unfold polyMod feedback
  simp only [xor_selected]
  ac_rfl

theorem selected_xor (one two : Bool) (generator : BitVec 64) :
    selected (one ^^ two) generator = selected one generator ^^^ selected two generator := by
  cases one <;> cases two <;> simp [selected]

theorem feedback_xor (one two : BitVec 64) :
    feedback (one ^^^ two) = feedback one ^^^ feedback two := by
  unfold feedback
  simp only [BitVec.getLsbD_xor, selected_xor]
  ac_rfl

theorem shifted_xor (one two mask : BitVec 64) :
    ((one ^^^ two) &&& mask) <<< 5 = (one &&& mask) <<< 5 ^^^ (two &&& mask) <<< 5 := by
  rw [← BitVec.shiftLeft_xor_distrib]
  congr 1
  ext index bound
  simp [Bool.and_xor_distrib_right]

/-- A step is linear over the bits of the state and of the symbol. -/
theorem polyMod_xor (one two first second : BitVec 64) :
    polyMod (one ^^^ two) (first ^^^ second) = polyMod one first ^^^ polyMod two second := by
  simp only [polyMod_eq, feedback_xor, shifted_xor]
  ac_rfl

/-! ## The forty bits of the state -/

/-- The states of the register. -/
def Held (check : BitVec 64) : Prop := check.toNat < 2 ^ 40

/-- The symbols it takes in. -/
def Sent (value : BitVec 64) : Prop := value.toNat < 2 ^ 5

theorem Held.xor {one two : BitVec 64} (first : Held one) (second : Held two) :
    Held (one ^^^ two) := by
  unfold Held
  rw [BitVec.toNat_xor]
  exact Nat.xor_lt_two_pow first second

theorem Sent.xor {one two : BitVec 64} (first : Sent one) (second : Sent two) :
    Sent (one ^^^ two) := by
  unfold Sent
  rw [BitVec.toNat_xor]
  exact Nat.xor_lt_two_pow first second

theorem Sent.held {value : BitVec 64} (sent : Sent value) : Held value :=
  Nat.lt_trans sent (by decide)

theorem held_selected {generator : BitVec 64} (held : Held generator) (bit : Bool) :
    Held (selected bit generator) := by
  cases bit with
  | false => exact Nat.two_pow_pos 40
  | true => exact held

theorem held_feedback (check : BitVec 64) : Held (feedback check) := by
  unfold feedback
  repeat' apply Held.xor
  all_goals
    apply held_selected
    unfold Held
    decide

theorem toNat_shifted (check : BitVec 64) :
    ((check &&& 0x00000007ffffffff#64) <<< 5).toNat = check.toNat % 2 ^ 35 * 32 := by
  rw [BitVec.toNat_shiftLeft, BitVec.toNat_and]
  have mask : (0x00000007ffffffff#64).toNat = 2 ^ 35 - 1 := rfl
  rw [mask, Nat.and_two_pow_sub_one_eq_mod, Nat.shiftLeft_eq]
  omega

theorem held_polyMod (check value : BitVec 64) (_ : Held check) (sent : Sent value) :
    Held (polyMod check value) := by
  have shifted : Held ((check &&& 0x00000007ffffffff#64) <<< 5) := by
    unfold Held
    rw [toNat_shifted]
    omega
  rw [polyMod_eq]
  exact (shifted.xor sent.held).xor (held_feedback check)

/-- Below 35 bits nothing is shifted out, and a symbol is appended as a digit. -/
theorem toNat_polyMod {check value : BitVec 64} (low : check.toNat < 2 ^ 35) (sent : Sent value) :
    (polyMod check value).toNat = check.toNat * 32 + value.toNat := by
  have clear : ∀ index, 35 ≤ index → check.getLsbD index = false := by
    intro index above
    rw [BitVec.getLsbD, Nat.testBit_lt_two_pow]
    exact low.trans_le (Nat.pow_le_pow_right (by decide) above)
  have quiet : feedback check = 0#64 := by
    unfold feedback
    simp only [clear, Nat.le_refl, Nat.reduceLeDiff, selected, Bool.false_eq_true, if_false]
    rfl
  rw [polyMod_eq, quiet, BitVec.xor_zero, BitVec.toNat_xor, toNat_shifted, Nat.mod_eq_of_lt low]
  apply Nat.eq_of_testBit_eq
  intro index
  have appended := Nat.testBit_two_pow_mul_add check.toNat sent index
  have scaled := Nat.testBit_two_pow_mul_add check.toNat (Nat.two_pow_pos 5) index
  rw [Nat.testBit_xor, Nat.mul_comm, appended]
  rw [Nat.add_zero] at scaled
  rw [scaled]
  split_ifs with below
  · simp
  · have above := Nat.testBit_lt_two_pow (sent.trans_le (Nat.pow_le_pow_right (by decide)
      (Nat.not_lt.mp below)))
    simp [above]

/-! ## No step forgets the state before it -/

/-- The low bits of the generators are independent: no bit is fed back as nothing. -/
theorem selected_independent : ∀ one two three four five : Bool,
    (selected one 0xf5dee51989#64 ^^^ selected two 0xa9fdca3312#64 ^^^
      selected three 0x1bab10e32d#64 ^^^ selected four 0x3706b1677a#64 ^^^
      selected five 0x644d626ffd#64).toNat % 32 = 0 →
    one = false ∧ two = false ∧ three = false ∧ four = false ∧ five = false := by
  decide

theorem eq_zero_of_polyMod {check : BitVec 64} (held : Held check)
    (zero : polyMod check 0#64 = 0#64) : check = 0#64 := by
  have fed : (check &&& 0x00000007ffffffff#64) <<< 5 = feedback check := by
    rw [polyMod_eq, BitVec.xor_zero, BitVec.xor_eq_zero_iff] at zero
    exact zero
  have low : (feedback check).toNat = check.toNat % 2 ^ 35 * 32 := by rw [← fed, toNat_shifted]
  obtain ⟨one, two, three, four, five⟩ :=
    selected_independent _ _ _ _ _ (show (feedback check).toNat % 32 = 0 by omega)
  have quiet : (feedback check).toNat = 0 := by
    unfold feedback
    rw [one, two, three, four, five]
    rfl
  have none : check.toNat % 2 ^ 35 = 0 := by omega
  -- The 35 bits kept are zero, the five shifted out are too, and there are no others.
  apply BitVec.eq_of_getLsbD_eq
  intro index bound
  rw [BitVec.getLsbD_zero]
  by_cases kept : index < 35
  · have bit := Nat.testBit_mod_two_pow check.toNat 35 index
    rw [none] at bit
    simpa [kept, BitVec.getLsbD] using bit.symm
  · by_cases out : index < 40
    · interval_cases index <;> assumption
    · exact Nat.testBit_lt_two_pow (held.trans_le (Nat.pow_le_pow_right (by decide)
        (Nat.not_lt.mp out)))

theorem polyMod_injective (one two value : BitVec 64) (first : Held one) (second : Held two)
    (_ : Sent value) (same : polyMod one value = polyMod two value) : one = two := by
  have difference := polyMod_xor one two value value
  rw [same, BitVec.xor_self, BitVec.xor_self] at difference
  exact BitVec.xor_eq_zero_iff.mp (eq_zero_of_polyMod (first.xor second) difference)

/-! ## Eight symbols fill the register -/

theorem foldl_low {symbols : List (BitVec 64)} (short : symbols.length ≤ 8)
    (all : ∀ symbol ∈ symbols, Sent symbol) :
    (symbols.foldl polyMod 0#64).toNat < 2 ^ (5 * symbols.length) := by
  induction symbols using List.reverseRecOn with
  | nil => simp
  | append_singleton symbols symbol ih =>
      rw [List.length_append, List.length_singleton] at short ⊢
      rw [List.forall_mem_append] at all
      have before := ih (by omega) all.1
      have sent : symbol.toNat < 2 ^ 5 := all.2 symbol (List.mem_singleton_self symbol)
      have low := before.trans_le (Nat.pow_le_pow_right (by decide)
        (show 5 * symbols.length ≤ 35 by omega))
      rw [List.foldl_append, List.foldl_cons, List.foldl_nil, toNat_polyMod low sent, mul_add,
        Nat.pow_add]
      omega

/-- Eight symbols bring the register from zero to zero only as zeroes. -/
theorem zero_of_foldl {symbols : List (BitVec 64)} (short : symbols.length ≤ 8)
    (all : ∀ symbol ∈ symbols, Sent symbol) (zero : symbols.foldl polyMod 0#64 = 0#64) :
    ∀ symbol ∈ symbols, symbol = 0#64 := by
  induction symbols using List.reverseRecOn with
  | nil => simp
  | append_singleton symbols symbol ih =>
      rw [List.length_append, List.length_singleton] at short
      rw [List.forall_mem_append] at all
      have sent := all.2 symbol (List.mem_singleton_self symbol)
      have low := (foldl_low (by omega) all.1).trans_le (Nat.pow_le_pow_right (by decide)
        (show 5 * symbols.length ≤ 35 by omega))
      have number := congrArg BitVec.toNat zero
      rw [List.foldl_append, List.foldl_cons, List.foldl_nil, toNat_polyMod low sent,
        BitVec.toNat_zero] at number
      rw [List.forall_mem_append]
      constructor
      · apply ih (by omega) all.1
        exact BitVec.eq_of_toNat_eq (by rw [BitVec.toNat_zero]; omega)
      · intro last member
        rw [List.mem_singleton.mp member]
        exact BitVec.eq_of_toNat_eq (by rw [BitVec.toNat_zero]; omega)

/-- A state is the eight symbols it is shifted out as. -/
def digits (check : BitVec 64) : List (BitVec 64) :=
  (List.range 8).map fun index => check >>> (5 * (7 - index)) &&& 31#64

theorem toNat_and_31 (value : BitVec 64) : (value &&& 31#64).toNat = value.toNat % 2 ^ 5 := by
  rw [BitVec.toNat_and]
  exact Nat.and_two_pow_sub_one_eq_mod value.toNat 5

theorem sent_and_31 (value : BitVec 64) : Sent (value &&& 31#64) := by
  unfold Sent
  rw [toNat_and_31]
  exact Nat.mod_lt _ (Nat.two_pow_pos 5)

theorem sent_digits (check : BitVec 64) : ∀ symbol ∈ digits check, Sent symbol := by
  intro symbol member
  obtain ⟨index, -, rfl⟩ := List.mem_map.mp member
  exact sent_and_31 _

theorem foldl_digits {check : BitVec 64} (held : Held check) :
    (digits check).foldl polyMod 0#64 = check := by
  have partway : ∀ count ≤ 8, (((List.range count).map fun index =>
      check >>> (5 * (7 - index)) &&& 31#64).foldl polyMod 0#64).toNat =
        check.toNat / 2 ^ (5 * (8 - count)) := by
    intro count
    induction count with
    | zero =>
        intro _
        exact (Nat.div_eq_of_lt held).symm
    | succ count ih =>
        intro bound
        have before := ih (by omega)
        have low : check.toNat / 2 ^ (5 * (8 - count)) < 2 ^ 35 := by
          rw [Nat.div_lt_iff_lt_mul (Nat.two_pow_pos _), ← Nat.pow_add]
          exact held.trans_le (Nat.pow_le_pow_right (by decide) (by omega))
        rw [List.range_succ, List.map_append, List.foldl_append, List.map_singleton,
          List.foldl_cons, List.foldl_nil, toNat_polyMod (before ▸ low) (sent_and_31 _), before,
          toNat_and_31, BitVec.toNat_ushiftRight, Nat.shiftRight_eq_div_pow]
        have shifted : 5 * (8 - count) = 5 * (7 - count) + 5 := by omega
        rw [shifted, Nat.pow_add, ← Nat.div_div_eq_div_mul,
          show 8 - (count + 1) = 7 - count by omega]
        omega
  apply BitVec.eq_of_toNat_eq
  simpa [digits] using partway 8 (Nat.le_refl 8)

end LibbitcoinServer.Utilities
