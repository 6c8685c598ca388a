import Mathlib.Tactic

/-! # Runs of a labelled machine

A run is the list of its steps, each with the state it starts from.  What a step
keeps under a condition, a run keeps whose steps all meet the condition.
-/

namespace Run

variable {State Label : Type*} (step : State → Label → State)

/-- The steps of a run: each label with the state before it. -/
def steps : State → List Label → List (State × Label)
  | _, [] => []
  | state, label :: labels => (state, label) :: steps (step state label) labels

/-- The state a run ends in. -/
def final (state : State) (labels : List Label) : State := labels.foldl step state

theorem label_mem {step : State → Label → State} {state : State} {labels : List Label}
    {visit : State × Label} (member : visit ∈ steps step state labels) : visit.2 ∈ labels := by
  induction labels generalizing state with
  | nil => cases member
  | cons label labels ih =>
      rcases List.mem_cons.mp member with rfl | later
      · exact List.mem_cons_self
      · exact List.mem_cons_of_mem _ (ih later)

variable {step} (invariant : State → Prop) (meets : State → Label → Prop)

/-- The invariant of a run whose steps all meet the condition. -/
theorem invariant_steps
    (keeps : ∀ state label, invariant state → meets state label → invariant (step state label))
    {state : State} {labels : List Label} (start : invariant state)
    (all : ∀ visit ∈ steps step state labels, meets visit.1 visit.2) :
    ∀ visit ∈ steps step state labels, invariant visit.1 := by
  induction labels generalizing state with
  | nil => simp [steps]
  | cons label labels ih =>
      intro visit member
      have first := all (state, label) List.mem_cons_self
      rcases List.mem_cons.mp member with rfl | later
      · exact start
      · exact ih (keeps state label start first)
          (fun visit member => all visit (List.mem_cons_of_mem _ member)) visit later

theorem invariant_final
    (keeps : ∀ state label, invariant state → meets state label → invariant (step state label))
    {state : State} {labels : List Label} (start : invariant state)
    (all : ∀ visit ∈ steps step state labels, meets visit.1 visit.2) :
    invariant (final step state labels) := by
  induction labels generalizing state with
  | nil => exact start
  | cons label labels ih =>
      exact ih (keeps state label start (all (state, label) List.mem_cons_self))
        fun visit member => all visit (List.mem_cons_of_mem _ member)

section Unconditional

variable {invariant} (keeps : ∀ state label, invariant state → invariant (step state label))
include keeps

/-- An invariant that every step keeps holds before each step of every run. -/
theorem always_steps {state : State} {labels : List Label} (start : invariant state) :
    ∀ visit ∈ steps step state labels, invariant visit.1 := by
  apply invariant_steps invariant (fun _ _ => True) _ start
  · intro visit member
    trivial
  · intro state label inside _
    exact keeps state label inside

theorem always_final {state : State} {labels : List Label} (start : invariant state) :
    invariant (final step state labels) := by
  apply invariant_final invariant (fun _ _ => True) _ start
  · intro visit member
    trivial
  · intro state label inside _
    exact keeps state label inside

end Unconditional

/-- Under what is given of its steps, two conditions agree over a run when they
    agree wherever the invariant holds and either of them keeps it. -/
theorem steps_congr (given other : State → Label → Prop)
    (keeps : ∀ state label, invariant state → given state label → meets state label →
      invariant (step state label))
    (same : ∀ state label, invariant state → given state label →
      (meets state label ↔ other state label))
    {state : State} {labels : List Label} (start : invariant state)
    (all : ∀ visit ∈ steps step state labels, given visit.1 visit.2) :
    (∀ visit ∈ steps step state labels, meets visit.1 visit.2) ↔
      ∀ visit ∈ steps step state labels, other visit.1 visit.2 := by
  constructor
  · intro met visit member
    have inside := invariant_steps invariant (fun state label => given state label ∧
      meets state label) (fun state label inside both => keeps state label inside both.1 both.2)
      start (fun visit member => ⟨all visit member, met visit member⟩) visit member
    exact (same _ _ inside (all visit member)).mp (met visit member)
  · intro met visit member
    have inside := invariant_steps invariant (fun state label => given state label ∧
      other state label) (fun state label inside both => keeps state label inside both.1
        ((same _ _ inside both.1).mpr both.2))
      start (fun visit member => ⟨all visit member, met visit member⟩) visit member
    exact (same _ _ inside (all visit member)).mpr (met visit member)

theorem final_related {related : State → State → Prop}
    (respects : ∀ one two label, related one two → related (step one label) (step two label))
    {labels : List Label} {one two : State} (start : related one two) :
    related (final step one labels) (final step two labels) := by
  induction labels generalizing one two with
  | nil => exact start
  | cons label labels ih => exact ih (respects one two label start)

/-- Where labels commute up to an equivalence that every step respects, the order of a run
    makes no difference up to the equivalence. -/
theorem final_perm {related : State → State → Prop} (equivalence : Equivalence related)
    (respects : ∀ one two label, related one two → related (step one label) (step two label))
    (commutes : ∀ state first second,
      related (step (step state first) second) (step (step state second) first))
    {labels others : List Label} (perm : labels.Perm others) {one two : State}
    (start : related one two) : related (final step one labels) (final step two others) := by
  induction perm generalizing one two with
  | nil => exact start
  | cons label _ ih => exact ih (respects one two label start)
  | swap first second labels =>
      have swapped := equivalence.trans (commutes one second first)
        (respects _ _ second (respects one two first start))
      exact final_related respects swapped
  | trans _ _ first second => exact equivalence.trans (first start) (second (equivalence.refl two))

end Run
