import Mathlib.Data.List.Nodup
import Mathlib.Tactic

/-! # Holdings told by events

A holding has values at keys.  Turns create values at new keys and spend values that are held,
and a reader who is told of them by events comes to the same holding, and so does one who is
told only of those that are kept.
-/

namespace Ledger

variable {Key Value Other Weight : Type}

/-- What a reader is told of a holding. -/
inductive Event (Key Value : Type) where
  | receive (key : Key) (value : Value)
  | spend (key : Key) (value : Value)
  deriving DecidableEq

namespace Event

section Replay

variable [DecidableEq Key] [DecidableEq Value]

/-- A reader receives only what it does not hold, and spends only what it holds. -/
def apply (held : List (Key × Value)) : Event Key Value → Option (List (Key × Value))
  | receive key value => if key ∈ held.map Prod.fst then none else some (held ++ [(key, value)])
  | spend key value =>
      if (key, value) ∈ held then some (held.filter fun entry => entry.1 ≠ key) else none

def replay (held : List (Key × Value)) (events : List (Event Key Value)) :
    Option (List (Key × Value)) :=
  events.foldlM apply held

theorem apply_receive {held after : List (Key × Value)} {key : Key} {value : Value} :
    apply held (receive key value) = some after ↔
      key ∉ held.map Prod.fst ∧ held ++ [(key, value)] = after := by
  by_cases known : key ∈ held.map Prod.fst
  · simp only [apply, known, if_true, reduceCtorEq, not_true_eq_false, false_and]
  · simp only [apply, known, if_false, Option.some.injEq, not_false_eq_true, true_and]

theorem apply_spend {held after : List (Key × Value)} {key : Key} {value : Value} :
    apply held (spend key value) = some after ↔
      (key, value) ∈ held ∧ held.filter (fun entry => entry.1 ≠ key) = after := by
  by_cases inside : (key, value) ∈ held
  · simp only [apply, inside, if_true, Option.some.injEq, true_and]
  · simp only [apply, inside, if_false, reduceCtorEq, false_and]

theorem replay_cons {held after : List (Key × Value)} {event : Event Key Value}
    {events : List (Event Key Value)} :
    replay held (event :: events) = some after ↔
      ∃ middle, apply held event = some middle ∧ replay middle events = some after :=
  Option.bind_eq_some_iff

theorem replay_append {held middle : List (Key × Value)} {first : List (Event Key Value)}
    (leads : replay held first = some middle) (second : List (Event Key Value)) :
    replay held (first ++ second) = replay middle second := by
  unfold replay at leads ⊢
  rw [List.foldlM_append, leads]
  rfl

end Replay

/-- What an event adds to the weight of a holding, and what it takes from it. -/
def received [Zero Weight] (weigh : Value → Weight) : Event Key Value → Weight
  | receive _ value => weigh value
  | spend _ _ => 0

def spent [Zero Weight] (weigh : Value → Weight) : Event Key Value → Weight
  | receive _ _ => 0
  | spend _ value => weigh value

def map (view : Value → Other) : Event Key Value → Event Key Other
  | receive key value => receive key (view value)
  | spend key value => spend key (view value)

end Event

open Event

/-! ## Weights -/

section Weights

variable [DecidableEq Key] [DecidableEq Value] [AddCommMonoid Weight]

omit [DecidableEq Value] in
theorem sum_without {held : List (Key × Value)} (distinct : (held.map Prod.fst).Nodup)
    (weigh : Value → Weight) {key : Key} {value : Value} (inside : (key, value) ∈ held) :
    let others := held.filter fun entry => entry.1 ≠ key
    (held.map fun entry => weigh entry.2).sum =
      weigh value + (others.map fun entry => weigh entry.2).sum := by
  intro others
  unfold others
  induction held with
  | nil => cases inside
  | cons entry held ih =>
      obtain ⟨fresh, distinct⟩ := List.nodup_cons.mp distinct
      cases List.mem_cons.mp inside with
      | inl here =>
          cases here
          have others : held.filter (fun entry => entry.1 ≠ key) = held := by
            apply List.filter_eq_self.mpr
            intro other member
            have : other.1 ≠ key := by
              intro same
              exact fresh (List.mem_map.mpr ⟨other, member, same⟩)
            simpa using this
          rw [List.filter_cons_of_neg (by simp), others, List.map_cons, List.sum_cons]
      | inr later =>
          have other : entry.1 ≠ key := by
            intro same
            exact fresh (List.mem_map.mpr ⟨_, later, same.symm⟩)
          rw [List.filter_cons_of_pos (by simpa using other), List.map_cons, List.map_cons,
            List.sum_cons, List.sum_cons, ih distinct later, add_left_comm]

/-- What is held at first and what is received weigh what is spent and what is held at last. -/
theorem replay_conserves {held after : List (Key × Value)} {events : List (Event Key Value)}
    (distinct : (held.map Prod.fst).Nodup) (weigh : Value → Weight)
    (leads : replay held events = some after) :
    (held.map fun entry => weigh entry.2).sum + (events.map (received weigh)).sum =
      (after.map fun entry => weigh entry.2).sum + (events.map (spent weigh)).sum := by
  induction events generalizing held with
  | nil =>
      cases leads
      rfl
  | cons event events ih =>
      obtain ⟨middle, applied, leads⟩ := replay_cons.mp leads
      cases event with
      | receive key value =>
          obtain ⟨known, rfl⟩ := apply_receive.mp applied
          have still : ((held ++ [(key, value)]).map Prod.fst).Nodup := by
            rw [List.map_append]
            exact List.Nodup.append distinct (List.nodup_singleton _)
              (List.disjoint_singleton.mpr known)
          have rest := ih still leads
          simp only [List.map_append, List.sum_append, List.map_cons, List.map_nil,
            List.sum_singleton] at rest
          simp only [List.map_cons, List.sum_cons, received, spent, zero_add, ← rest, add_assoc]
      | spend key value =>
          obtain ⟨inside, rfl⟩ := apply_spend.mp applied
          have still : ((held.filter fun entry => entry.1 ≠ key).map Prod.fst).Nodup :=
            distinct.sublist (List.filter_sublist.map Prod.fst)
          have rest := ih still leads
          simp only [List.map_cons, List.sum_cons, received, spent, zero_add,
            sum_without distinct weigh inside]
          rw [add_assoc, rest, add_left_comm]

end Weights

/-! ## Turns -/

structure Turn (Key Value : Type) where
  creates : List (Key × Value)
  spends : List (Key × Value)

namespace Turn

variable [DecidableEq Key] [DecidableEq Value] {turn : Turn Key Value}
  {held : List (Key × Value)} {keep : Key × Value → Bool}

def after (held : List (Key × Value)) (turn : Turn Key Value) : List (Key × Value) :=
  (held ++ turn.creates).filter fun entry => entry.1 ∉ turn.spends.map Prod.fst

/-- What is told of a turn, of the values that are kept. -/
def events (keep : Key × Value → Bool) (turn : Turn Key Value) : List (Event Key Value) :=
  (turn.creates.filter keep).map (fun entry => receive entry.1 entry.2) ++
    (turn.spends.filter keep).map fun entry => spend entry.1 entry.2

/-- A turn creates at distinct new keys, and spends distinct values that were held before. -/
structure Applies (held : List (Key × Value)) (turn : Turn Key Value) : Prop where
  created : ((held ++ turn.creates).map Prod.fst).Nodup
  distinct : (turn.spends.map Prod.fst).Nodup
  holds : ∀ entry ∈ turn.spends, entry ∈ held

omit [DecidableEq Value] in
theorem Applies.nodup_after (applies : Applies held turn) :
    ((after held turn).map Prod.fst).Nodup :=
  applies.created.sublist (List.filter_sublist.map Prod.fst)

theorem replay_receives {creates : List (Key × Value)}
    (fresh : ((held ++ creates).map Prod.fst).Nodup) :
    replay held (creates.map fun entry => receive entry.1 entry.2) = some (held ++ creates) := by
  induction creates generalizing held with
  | nil => simp [replay]
  | cons entry creates ih =>
      have split : held ++ entry :: creates = (held ++ [entry]) ++ creates := by simp
      have new : entry.1 ∉ held.map Prod.fst := by
        rw [List.map_append] at fresh
        exact fun known => List.disjoint_of_nodup_append fresh known List.mem_cons_self
      rw [split] at fresh ⊢
      exact replay_cons.mpr ⟨_, apply_receive.mpr ⟨new, rfl⟩, ih fresh⟩

theorem replay_spends {spends : List (Key × Value)} (distinct : (spends.map Prod.fst).Nodup)
    (holds : ∀ entry ∈ spends, entry ∈ held) :
    replay held (spends.map fun entry => spend entry.1 entry.2) =
      some (held.filter fun entry => entry.1 ∉ spends.map Prod.fst) := by
  induction spends generalizing held with
  | nil => simp [replay]
  | cons entry spends ih =>
      obtain ⟨apart, distinct⟩ := List.nodup_cons.mp distinct
      obtain ⟨here, later⟩ := List.forall_mem_cons.mp holds
      have still : ∀ other ∈ spends, other ∈ held.filter fun other => other.1 ≠ entry.1 := by
        intro other member
        have different : other.1 ≠ entry.1 := fun same =>
          apart (same ▸ List.mem_map_of_mem member)
        exact List.mem_filter.mpr ⟨later other member, by simpa using different⟩
      have rest := ih distinct still
      rw [List.filter_filter] at rest
      have all : (fun other => decide (other.1 ∉ (entry :: spends).map Prod.fst)) =
          fun (other : Key × Value) =>
            decide (other.1 ∉ spends.map Prod.fst) && decide (other.1 ≠ entry.1) := by
        funext other
        have either : other.1 ∈ (entry :: spends).map Prod.fst ↔
            other.1 ∈ spends.map Prod.fst ∨ other.1 = entry.1 := by
          rw [List.map_cons, List.mem_cons, or_comm]
        simp only [either, not_or, Bool.decide_and]
      rw [all]
      exact replay_cons.mpr ⟨_, apply_spend.mpr ⟨here, rfl⟩, rest⟩

omit [DecidableEq Key] [DecidableEq Value] in
/-- A value that is spent is kept where a value that is held at its key is. -/
theorem Applies.keep_spent (applies : Applies held turn) {entry : Key × Value}
    (inside : entry ∈ held ++ turn.creates) (kept : keep entry = true) :
    entry.1 ∈ (turn.spends.filter keep).map Prod.fst ↔ entry.1 ∈ turn.spends.map Prod.fst := by
  constructor
  · exact fun listed => (List.filter_sublist.map Prod.fst).subset listed
  · intro listed
    obtain ⟨other, member, same⟩ := List.mem_map.mp listed
    have held := List.mem_append_left turn.creates (applies.holds other member)
    cases List.inj_on_of_nodup_map applies.created held inside same
    exact List.mem_map.mpr ⟨_, List.mem_filter.mpr ⟨member, kept⟩, rfl⟩

theorem Applies.replay_events (applies : Applies held turn) (keep : Key × Value → Bool) :
    replay (held.filter keep) (turn.events keep) = some ((after held turn).filter keep) := by
  have fresh : ((held.filter keep ++ turn.creates.filter keep).map Prod.fst).Nodup := by
    rw [← List.filter_append]
    exact applies.created.sublist (List.filter_sublist.map Prod.fst)
  have distinct : ((turn.spends.filter keep).map Prod.fst).Nodup :=
    applies.distinct.sublist (List.filter_sublist.map Prod.fst)
  have holds : ∀ entry ∈ turn.spends.filter keep,
      entry ∈ held.filter keep ++ turn.creates.filter keep := by
    intro entry member
    obtain ⟨member, kept⟩ := List.mem_filter.mp member
    exact List.mem_append_left _ (List.mem_filter.mpr ⟨applies.holds entry member, kept⟩)
  unfold events
  rw [replay_append (replay_receives fresh), replay_spends distinct holds, ← List.filter_append,
    after]
  refine congrArg some ((List.filter_congr ?_).trans (List.filter_comm _ _ _))
  intro entry member
  obtain ⟨inside, kept⟩ := List.mem_filter.mp member
  simp only [applies.keep_spent inside kept]

/-- Turns that apply one after another. -/
def Run (held : List (Key × Value)) : List (Turn Key Value) → Prop
  | [] => True
  | turn :: turns => Applies held turn ∧ Run (after held turn) turns

theorem Run.replay_events {turns : List (Turn Key Value)} (run : Run held turns)
    (keep : Key × Value → Bool) :
    replay (held.filter keep) (turns.flatMap (events keep)) =
      some ((turns.foldl after held).filter keep) := by
  induction turns generalizing held with
  | nil => rfl
  | cons turn turns ih =>
      rw [List.flatMap_cons, replay_append (run.1.replay_events keep)]
      exact ih run.2

omit [DecidableEq Value] in
theorem Run.append {first second : List (Turn Key Value)} :
    Run held (first ++ second) ↔ Run held first ∧ Run (first.foldl after held) second := by
  induction first generalizing held with
  | nil => exact (true_and _).symm.to_iff
  | cons turn first ih =>
      rw [List.cons_append, Run, Run, ih, and_assoc]
      rfl

omit [DecidableEq Value] in
theorem Run.nodup {turns : List (Turn Key Value)} (run : Run held turns)
    (distinct : (held.map Prod.fst).Nodup) : ((turns.foldl after held).map Prod.fst).Nodup := by
  induction turns generalizing held with
  | nil => exact distinct
  | cons turn turns ih => exact ih run.2 run.1.nodup_after

end Turn

/-! ## Views -/

section Views

variable [DecidableEq Key] [DecidableEq Value] [DecidableEq Other]

/-- A reader who is told a view of each value comes to the view of the holding. -/
theorem replay_map (view : Value → Other) {held after : List (Key × Value)}
    {events : List (Event Key Value)} (leads : replay held events = some after) :
    replay (held.map (Prod.map id view)) (events.map (Event.map view)) =
      some (after.map (Prod.map id view)) := by
  induction events generalizing held with
  | nil =>
      cases leads
      rfl
  | cons event events ih =>
      obtain ⟨middle, applied, leads⟩ := replay_cons.mp leads
      refine replay_cons.mpr ⟨middle.map (Prod.map id view), ?_, ih leads⟩
      cases event with
      | receive key value =>
          obtain ⟨known, rfl⟩ := apply_receive.mp applied
          refine apply_receive.mpr ⟨?_, ?_⟩
          · simpa [List.map_map, Function.comp_def] using known
          · simp
      | spend key value =>
          obtain ⟨inside, rfl⟩ := apply_spend.mp applied
          refine apply_spend.mpr ⟨List.mem_map.mpr ⟨_, inside, rfl⟩, ?_⟩
          rw [List.filter_map]
          rfl

end Views

end Ledger
