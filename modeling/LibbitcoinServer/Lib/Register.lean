import Mathlib.Tactic

/-! # Linear registers

A register takes in one symbol after another.  Where a step is additive, the sum of two
streams runs to the sum of their states.  Where in addition no step forgets the state
before it, an error is seen at the end of a stream exactly as it would be seen alone, by
a register that starts at zero.
-/

namespace Register

variable {State Symbol : Type*} {step : State → Symbol → State}

section Kept

variable {valid : State → Prop} {sent : Symbol → Prop}
  (keeps : ∀ state symbol, valid state → sent symbol → valid (step state symbol))
include keeps

theorem foldl_valid {state : State} {symbols : List Symbol} (start : valid state)
    (all : ∀ symbol ∈ symbols, sent symbol) : valid (symbols.foldl step state) := by
  induction symbols generalizing state with
  | nil => exact start
  | cons symbol symbols ih =>
      rw [List.forall_mem_cons] at all
      exact ih (keeps state symbol start all.1) all.2

/-- A stream tells the states it starts from apart, where each of its symbols does. -/
theorem foldl_injective
    (apart : ∀ one two symbol, valid one → valid two → sent symbol →
      step one symbol = step two symbol → one = two)
    {one two : State} {symbols : List Symbol} (first : valid one) (second : valid two)
    (all : ∀ symbol ∈ symbols, sent symbol)
    (same : symbols.foldl step one = symbols.foldl step two) : one = two := by
  induction symbols generalizing one two with
  | nil => exact same
  | cons symbol symbols ih =>
      rw [List.forall_mem_cons] at all
      have stepped := ih (keeps one symbol first all.1) (keeps two symbol second all.1) all.2 same
      exact apart one two symbol first second all.1 stepped

end Kept

section Superposed

variable {plus : State → State → State} {add : Symbol → Symbol → Symbol}
  (additive : ∀ one two first second,
    step (plus one two) (add first second) = plus (step one first) (step two second))
include additive

theorem foldl_superposed (one two : State) {first second : List Symbol}
    (same : first.length = second.length) :
    (List.zipWith add first second).foldl step (plus one two) =
      plus (first.foldl step one) (second.foldl step two) := by
  induction first generalizing one two second with
  | nil =>
      cases List.length_eq_zero_iff.mp same.symm
      rfl
  | cons symbol first ih =>
      cases second with
      | nil => cases same
      | cons other second =>
          simp only [List.zipWith_cons_cons, List.foldl_cons, additive]
          exact ih _ _ (Nat.succ.inj same)

variable {valid : State → Prop} {sent : Symbol → Prop} {zero : State}

/-- Two streams that differ in a window alone end in one state only where their difference
    within the window takes the register from zero to zero. -/
theorem window_of_same
    (keeps : ∀ state symbol, valid state → sent symbol → valid (step state symbol))
    (apart : ∀ one two symbol, valid one → valid two → sent symbol →
      step one symbol = step two symbol → one = two)
    (cancel : ∀ state, plus state state = zero)
    {state : State} {before first second after : List Symbol} (start : valid state)
    (length : first.length = second.length)
    (left : ∀ symbol ∈ before ++ first ++ after, sent symbol)
    (right : ∀ symbol ∈ before ++ second ++ after, sent symbol)
    (same : (before ++ first ++ after).foldl step state =
      (before ++ second ++ after).foldl step state) :
    (List.zipWith add first second).foldl step zero = zero := by
  simp only [List.forall_mem_append] at left right
  simp only [List.foldl_append] at same
  have entered := foldl_valid keeps start left.1.1
  have met := foldl_injective keeps apart (foldl_valid keeps entered left.1.2)
    (foldl_valid keeps entered right.1.2) left.2 same
  have run := foldl_superposed additive (before.foldl step state) (before.foldl step state) length
  rw [cancel, met, cancel] at run
  exact run

end Superposed

end Register
