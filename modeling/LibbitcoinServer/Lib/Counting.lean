import Mathlib.Tactic

/-! # Counting loops over machine words

A loop counts a word from its first value through an inclusive last one, and its body may
exit.  The word wraps, so a loop through the greatest word ends only where the body exits.
-/

namespace Counting

variable {width : Nat} {State Exit : Type*} (body : BitVec width → State → Except Exit State)

/-- The loop from an index on, and nothing where it has not ended within the turns. -/
def loop (last : BitVec width) : Nat → BitVec width → State → Option (Except Exit State)
  | 0, index, state => if index ≤ last then none else some (.ok state)
  | turns + 1, index, state =>
      if index ≤ last then
        match body index state with
        | .error exit => some (.error exit)
        | .ok next => loop last turns (index + 1) next
      else some (.ok state)

/-- The words from one on. -/
def indices (first count : Nat) : List (BitVec width) :=
  (List.range' first count).map (BitVec.ofNat width)

/-- The body at each of some words in turn. -/
def visit (words : List (BitVec width)) (state : State) : Except Exit State :=
  words.foldlM (fun state index => body index state) state

theorem mem_indices {first last : Nat} (ordered : first ≤ last) (bound : last < 2 ^ width)
    {index : BitVec width} : index ∈ indices first (last - first + 1) ↔
      first ≤ index.toNat ∧ index.toNat ≤ last := by
  rw [indices, List.mem_map]
  constructor
  · intro ⟨place, member, same⟩
    rw [List.mem_range'_1] at member
    rw [← same, BitVec.toNat_ofNat, Nat.mod_eq_of_lt (by omega)]
    omega
  · intro within
    have same : BitVec.ofNat width index.toNat = index := by
      apply BitVec.eq_of_toNat_eq
      rw [BitVec.toNat_ofNat, Nat.mod_eq_of_lt index.isLt]
    refine ⟨index.toNat, ?_, same⟩
    rw [List.mem_range'_1]
    omega

variable {body} {last : BitVec width} {turns : Nat}

/-- The turns through indices that are not past the last. -/
theorem loop_visit {first count : Nat} {state : State} (bound : first + count ≤ last.toNat + 1) :
    loop body last (count + turns) (BitVec.ofNat width first) state =
      match visit body (indices first count) state with
      | .error exit => some (.error exit)
      | .ok next => loop body last turns (BitVec.ofNat width (first + count)) next := by
  induction count generalizing first state with
  | zero =>
      rw [Nat.zero_add]
      rfl
  | succ count ih =>
      have small : first < 2 ^ width := by
        have limit := last.isLt
        omega
      have within : BitVec.ofNat width first ≤ last := by
        rw [BitVec.le_def, BitVec.toNat_ofNat, Nat.mod_eq_of_lt small]
        omega
      have next : BitVec.ofNat width first + 1 = BitVec.ofNat width (first + 1) :=
        (BitVec.ofNat_add first 1).symm
      have shape : first + (count + 1) = first + 1 + count := by omega
      rw [Nat.add_right_comm, loop, if_pos within, next, shape]
      rw [indices, List.range'_succ, List.map_cons, visit, List.foldlM_cons]
      cases turn : body (BitVec.ofNat width first) state with
      | error exit => rfl
      | ok after =>
          dsimp only
          rw [ih (by omega)]
          rfl

/-- A loop has as many turns as there are words, unless the body exits before or the last
    word is the greatest. -/
theorem loop_inclusive {first : Nat} {state : State} (ordered : first ≤ last.toNat) :
    loop body last (last.toNat - first + 1) (BitVec.ofNat width first) state =
      match visit body (indices first (last.toNat - first + 1)) state with
      | .error exit => some (.error exit)
      | .ok next => if last = BitVec.allOnes width then none else some (.ok next) := by
  have bound : first + (last.toNat - first + 1) ≤ last.toNat + 1 := by omega
  have turned := @loop_visit _ _ _ body last 0 _ _ state bound
  rw [Nat.add_zero] at turned
  rw [turned]
  have past : first + (last.toNat - first + 1) = last.toNat + 1 := by omega
  rw [past]
  cases visit body (indices first (last.toNat - first + 1)) state with
  | error exit => rfl
  | ok next =>
      dsimp only
      rw [loop]
      by_cases greatest : last = BitVec.allOnes width
      · have wrapped : BitVec.ofNat width (last.toNat + 1) ≤ last := by
          rw [greatest, BitVec.toNat_allOnes, BitVec.le_def, BitVec.toNat_ofNat,
            Nat.sub_add_cancel Nat.one_le_two_pow, Nat.mod_self]
          exact Nat.zero_le _
        rw [if_pos wrapped, if_pos greatest]
      · have room : last.toNat + 1 < 2 ^ width := by
          by_contra full
          apply greatest
          apply BitVec.eq_of_toNat_eq
          rw [BitVec.toNat_allOnes]
          have limit := last.isLt
          omega
        have beyond : ¬BitVec.ofNat width (last.toNat + 1) ≤ last := by
          rw [BitVec.le_def, BitVec.toNat_ofNat, Nat.mod_eq_of_lt room]
          omega
        rw [if_neg beyond, if_neg greatest]

/-- A loop through the greatest word never ends where the body never exits. -/
theorem loop_endless (continues : ∀ index state, ∃ next, body index state = .ok next)
    (turns : Nat) (index : BitVec width) (state : State) :
    loop body (BitVec.allOnes width) turns index state = none := by
  have within : ∀ index : BitVec width, index ≤ BitVec.allOnes width := by
    intro index
    rw [BitVec.le_def, BitVec.toNat_allOnes]
    have limit := index.isLt
    omega
  induction turns generalizing index state with
  | zero => rw [loop, if_pos (within index)]
  | succ turns ih =>
      obtain ⟨next, turn⟩ := continues index state
      rw [loop, if_pos (within index), turn]
      exact ih (index + 1) next

end Counting
