import LibbitcoinServer.Lib.Run

/-! # Reads of a moving state

A program takes reads of a state that others change between them.  Its outcome depends on
the states that its reads see, in order.  What holds of the outcome whatever the later
reads see is found from the end of the program, read by read.
-/

inductive Reads (State Out : Type) where
  | done (out : Out)
  | read (next : State → Reads State Out)

namespace Reads

variable {State Label Out Next Seen : Type}

def bind : Reads State Out → (Out → Reads State Next) → Reads State Next
  | .done out, next => next out
  | .read first, next => .read fun state => (first state).bind next

instance : Monad (Reads State) where
  pure := .done
  bind := bind

/-- One read. -/
def get (observe : State → Seen) : Reads State Seen := .read fun state => .done (observe state)

/-- The outcome, where the reads see the states in order. -/
def run : Reads State Out → (Nat → State) → Out
  | .done out, _ => out
  | .read next, seen => (next (seen 0)).run fun later => seen (later + 1)

/-- How many reads are taken, where they see the states in order. -/
def taken : Reads State Out → (Nat → State) → Nat
  | .done _, _ => 0
  | .read next, seen => (next (seen 0)).taken (fun later => seen (later + 1)) + 1

/-- The states that reads see when the labels scheduled before each of them have been
    taken. -/
def interleaved (step : State → Label → State) (start : State) (schedule : Nat → List Label) :
    Nat → State
  | 0 => Run.final step start (schedule 0)
  | later + 1 => Run.final step (interleaved step start schedule later) (schedule (later + 1))

/-- The outcome meets the condition whatever the reads see. -/
def Always (holds : Out → Prop) : Reads State Out → Prop
  | .done out => holds out
  | .read next => ∀ state, (next state).Always holds

/-- The outcome meets the condition whatever the reads see of the states that they can. -/
def Whenever (sees : State → Prop) (holds : Out → Prop) : Reads State Out → Prop
  | .done out => holds out
  | .read next => ∀ state, sees state → (next state).Whenever sees holds

/-! ## Rules -/

@[simp] theorem run_pure (out : Out) (seen : Nat → State) :
    (pure out : Reads State Out).run seen = out := rfl

@[simp] theorem run_get_bind (observe : State → Seen) (next : Seen → Reads State Out)
    (seen : Nat → State) :
    (get observe >>= next).run seen =
      (next (observe (seen 0))).run fun later => seen (later + 1) := rfl

@[simp] theorem taken_get_bind (observe : State → Seen) (next : Seen → Reads State Out)
    (seen : Nat → State) :
    (get observe >>= next).taken seen =
      (next (observe (seen 0))).taken (fun later => seen (later + 1)) + 1 := rfl

/-- What is made of the outcome at the end. -/
theorem run_bind_pure (program : Reads State Out) (make : Out → Next) (seen : Nat → State) :
    (program >>= fun out => pure (make out)).run seen = make (program.run seen) := by
  induction program generalizing seen with
  | done out => rfl
  | read next ih => exact ih (seen 0) _

/-- A program followed by another, which sees the states that are left. -/
theorem run_bind (program : Reads State Out) (next : Out → Reads State Next)
    (seen : Nat → State) :
    (program >>= next).run seen =
      (next (program.run seen)).run fun later => seen (later + program.taken seen) := by
  induction program generalizing seen with
  | done out => rfl
  | read first ih => exact ih (seen 0) fun later => seen (later + 1)

theorem taken_bind (program : Reads State Out) (next : Out → Reads State Next)
    (seen : Nat → State) :
    (program >>= next).taken seen = program.taken seen +
      (next (program.run seen)).taken fun later => seen (later + program.taken seen) := by
  induction program generalizing seen with
  | done out => exact (Nat.zero_add _).symm
  | read first ih =>
      have rest := ih (seen 0) fun later => seen (later + 1)
      exact (congrArg (· + 1) rest).trans (Nat.add_right_comm _ _ _)

variable {holds : Out → Prop}

@[simp] theorem always_pure {out : Out} : (pure out : Reads State Out).Always holds ↔ holds out :=
  Iff.rfl

@[simp] theorem always_get_bind {observe : State → Seen} {next : Seen → Reads State Out} :
    (get observe >>= next).Always holds ↔ ∀ state, (next (observe state)).Always holds :=
  Iff.rfl

theorem always_ite {condition : Prop} [Decidable condition] {one other : Reads State Out}
    (met : condition → one.Always holds) (unmet : ¬condition → other.Always holds) :
    (if condition then one else other).Always holds := by
  by_cases decided : condition
  · rw [if_pos decided]
    exact met decided
  · rw [if_neg decided]
    exact unmet decided

/-- A program followed by another always ends well where the first always leads to an end of
    the second that does. -/
theorem always_bind {program : Reads State Out} {next : Out → Reads State Next}
    {after : Next → Prop} :
    (program >>= next).Always after ↔ program.Always fun out => (next out).Always after := by
  induction program with
  | done out => exact Iff.rfl
  | read first ih => exact forall_congr' ih

theorem always_of_forall (program : Reads State Out) (every : ∀ out, holds out) :
    program.Always holds := by
  induction program with
  | done out => exact every out
  | read next ih => exact ih

theorem Always.imp {program : Reads State Out} {weaker : Out → Prop}
    (always : program.Always holds) (every : ∀ out, holds out → weaker out) :
    program.Always weaker := by
  induction program with
  | done out => exact every out always
  | read next ih =>
      intro state
      exact ih state (always state)

theorem run_of_always {program : Reads State Out} (always : program.Always holds)
    (seen : Nat → State) : holds (program.run seen) := by
  induction program generalizing seen with
  | done out => exact always
  | read next ih => exact ih (seen 0) (always (seen 0)) _

/-! ## Rules for what reads can see -/

variable {sees : State → Prop}

@[simp] theorem whenever_pure {out : Out} :
    (pure out : Reads State Out).Whenever sees holds ↔ holds out :=
  Iff.rfl

@[simp] theorem whenever_get_bind {observe : State → Seen} {next : Seen → Reads State Out} :
    (get observe >>= next).Whenever sees holds ↔
      ∀ state, sees state → (next (observe state)).Whenever sees holds :=
  Iff.rfl

theorem whenever_bind {program : Reads State Out} {next : Out → Reads State Next}
    {after : Next → Prop} : (program >>= next).Whenever sees after ↔
      program.Whenever sees fun out => (next out).Whenever sees after := by
  induction program with
  | done out => exact Iff.rfl
  | read first ih => exact forall_congr' fun state => imp_congr_right fun _ => ih state

theorem whenever_of_forall (program : Reads State Out) (every : ∀ out, holds out) :
    program.Whenever sees holds := by
  induction program with
  | done out => exact every out
  | read next ih => exact fun state _ => ih state

theorem Whenever.imp {program : Reads State Out} {weaker : Out → Prop}
    (always : program.Whenever sees holds) (every : ∀ out, holds out → weaker out) :
    program.Whenever sees weaker := by
  induction program with
  | done out => exact every out always
  | read next ih =>
      intro state seen
      exact ih state (always state seen)

theorem run_of_whenever {program : Reads State Out} (always : program.Whenever sees holds)
    {seen : Nat → State} (all : ∀ index, sees (seen index)) : holds (program.run seen) := by
  induction program generalizing seen with
  | done out => exact always
  | read next ih => exact ih (seen 0) (always (seen 0) (all 0)) fun index => all (index + 1)

/-- What relates each state to the next relates what a read sees to what a later one does. -/
theorem interleaved_related {step : State → Label → State} {related : State → State → Prop}
    {allowed : Label → Prop} (refl : ∀ state, related state state)
    (trans : ∀ {first second third}, related first second → related second third →
      related first third)
    (keeps : ∀ state label, allowed label → related state (step state label)) (start : State)
    {schedule : Nat → List Label} (all : ∀ index, ∀ label ∈ schedule index, allowed label)
    {early late : Nat} (order : early ≤ late) :
    related (interleaved step start schedule early) (interleaved step start schedule late) := by
  have final (labels : List Label) (meets : ∀ label ∈ labels, allowed label) (state : State) :
      related state (Run.final step state labels) := by
    induction labels generalizing state with
    | nil => exact refl state
    | cons label labels ih =>
        have both := List.forall_mem_cons.mp meets
        exact trans (keeps state label both.1) (ih both.2 _)
  induction order with
  | refl => exact refl _
  | step _ ih => exact trans ih (final _ (all _) _)

end Reads
