import Mathlib.Tactic

/-! # Searches and optional results

The first element that a test accepts stands before the others that it accepts.  A list is
mapped by a function that may fail, and fails where the function does.
-/

namespace Traverse

/-- What relates each element to the later ones relates the first found to every other that
    is accepted. -/
theorem related_of_find? {Element : Type*} {related : Element → Element → Prop}
    {accepts : Element → Bool} {elements : List Element} {first other : Element}
    (sorted : elements.Pairwise related) (found : elements.find? accepts = some first)
    (member : other ∈ elements) (accepted : accepts other = true) :
    other = first ∨ related first other := by
  obtain ⟨-, before, after, rfl, passed⟩ := List.find?_eq_some_iff_append.mp found
  cases List.mem_append.mp member with
  | inl earlier =>
      have refused := passed other earlier
      rw [accepted] at refused
      cases refused
  | inr rest =>
      cases List.mem_cons.mp rest with
      | inl same => exact .inl same
      | inr later =>
          exact .inr ((List.pairwise_cons.mp (List.pairwise_append.mp sorted).2.1).1 other later)

variable {Input Output : Type*} {make : Input → Option Output}

/-- Each result is that of the input at its place. -/
theorem forall₂_of_mapM {inputs : List Input} {outputs : List Output}
    (made : inputs.mapM make = some outputs) :
    List.Forall₂ (fun input output => make input = some output) inputs outputs := by
  induction inputs generalizing outputs with
  | nil =>
      cases made
      exact .nil
  | cons input inputs ih =>
      rw [List.mapM_cons] at made
      cases first : make input with
      | none => simp [first] at made
      | some output =>
          cases later : inputs.mapM make with
          | none => simp [first, later] at made
          | some rest =>
              obtain rfl : output :: rest = outputs := by simpa [first, later] using made
              exact .cons first (ih later)

/-- Where each input has a result that is related to it, so has the list. -/
theorem exists_mapM {related : Input → Output → Prop} {inputs : List Input}
    (every : ∀ input ∈ inputs, ∃ output, make input = some output ∧ related input output) :
    ∃ outputs, inputs.mapM make = some outputs ∧ List.Forall₂ related inputs outputs := by
  induction inputs with
  | nil => exact ⟨[], rfl, .nil⟩
  | cons input inputs ih =>
      rw [List.forall_mem_cons] at every
      obtain ⟨output, first, relates⟩ := every.1
      obtain ⟨outputs, later, all⟩ := ih every.2
      refine ⟨output :: outputs, ?_, .cons relates all⟩
      rw [List.mapM_cons, first, later]
      rfl

theorem getElem?_of_forall₂ {inputs : List Input} {outputs : List Output}
    (found : List.Forall₂ (fun input output => make input = some output) inputs outputs)
    {place : Nat} {input : Input} (here : inputs[place]? = some input) :
    outputs[place]? = make input := by
  induction found generalizing place with
  | nil => cases here
  | cons first later ih =>
      cases place with
      | zero =>
          obtain rfl := Option.some.inj here
          exact first.symm
      | succ place => exact ih here

theorem exists_of_forall₂ {inputs : List Input} {outputs : List Output}
    (found : List.Forall₂ (fun input output => make input = some output) inputs outputs)
    {input : Input} (member : input ∈ inputs) :
    ∃ output ∈ outputs, make input = some output := by
  induction found with
  | nil => cases member
  | cons first later ih =>
      cases List.mem_cons.mp member with
      | inl same => exact ⟨_, List.mem_cons_self, same ▸ first⟩
      | inr rest =>
          obtain ⟨output, inside, made⟩ := ih rest
          exact ⟨output, List.mem_cons_of_mem _ inside, made⟩

/-- Each result is made of some input. -/
theorem exists_of_mem_mapM {inputs : List Input} {outputs : List Output}
    (made : inputs.mapM make = some outputs) {output : Output} (member : output ∈ outputs) :
    ∃ input ∈ inputs, make input = some output := by
  have found := forall₂_of_mapM made
  clear made
  induction found with
  | nil => cases member
  | cons first later ih =>
      cases List.mem_cons.mp member with
      | inl same => exact ⟨_, List.mem_cons_self, same ▸ first⟩
      | inr rest =>
          obtain ⟨input, inside, made⟩ := ih rest
          exact ⟨input, List.mem_cons_of_mem _ inside, made⟩

theorem filterMap_of_forall₂ {inputs : List Input} {outputs : List Output}
    (found : List.Forall₂ (fun input output => make input = some output) inputs outputs) :
    inputs.filterMap make = outputs := by
  induction found with
  | nil => rfl
  | cons first later ih => rw [List.filterMap_cons_some first, ih]

/-- What holds of each result holds of all. -/
theorem forall_of_mapM_ok {Fault : Type*} {make : Input → Except Fault Output}
    {holds : Output → Prop} (each : ∀ input output, make input = .ok output → holds output)
    {inputs : List Input} {outputs : List Output} (made : inputs.mapM make = .ok outputs) :
    ∀ output ∈ outputs, holds output := by
  induction inputs generalizing outputs with
  | nil =>
      cases made
      exact nofun
  | cons input inputs ih =>
      rw [List.mapM_cons] at made
      cases first : make input with
      | error fault =>
          rw [first] at made
          cases made
      | ok output =>
      cases later : inputs.mapM make with
      | error fault =>
          rw [first, later] at made
          cases made
      | ok rest =>
          rw [first, later] at made
          cases made
          exact List.forall_mem_cons.mpr ⟨each input output first, ih later⟩

end Traverse
