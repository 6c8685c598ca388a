import LibbitcoinServer.Lib.Run

/-! # Loops that wait

A loop calls out for one item at a time, and goes on when the answer has come and its handler
has its turn.  Others take turns in between, and the loop may be stopped at any of them.  What
it does is what a plain loop over the items and their answers does.
-/

/-- The items of a loop, what an answer makes of its state, or how it ends the loop early, and
    what is sent at its end. -/
structure Waiting (Item Answer State Out : Type) where
  items : List Item
  take : State → Item → Answer → Except Out State
  finish : State → Out

namespace Waiting

variable {Item Answer State Out : Type} (loop : Waiting Item Answer State Out)

inductive Phase (State : Type) where
  | starting (state : State)
  | asked (index : Nat) (state : State)
  | answered (index : Nat) (state : State)
  | ended

/-- Where a loop is, with the items it has called out for and what it has sent. -/
structure Progress (Item State Out : Type) where
  phase : Phase State
  stopped : Bool := false
  calls : List Item := []
  sent : List Out := []

inductive Action where
  | answer
  | turn
  | stop

def begin (state : State) : Progress Item State Out := { phase := .starting state }

/-- Calls out for an item, or ends where there is none. -/
def next (index : Nat) (state : State) (progress : Progress Item State Out) :
    Progress Item State Out :=
  match loop.items[index]? with
  | none => { progress with phase := .ended, sent := progress.sent ++ [loop.finish state] }
  | some item =>
      { progress with phase := .asked index state, calls := progress.calls ++ [item] }

def handle (answer : Answer) (index : Nat) (state : State) (progress : Progress Item State Out) :
    Progress Item State Out :=
  match loop.items[index]? with
  | none => { progress with phase := .ended }
  | some item =>
      match loop.take state item answer with
      | .error out => { progress with phase := .ended, sent := progress.sent ++ [out] }
      | .ok state => loop.next (index + 1) state progress

/-- The call for the item of an index is answered by the answer of the index. -/
def step (answers : Nat → Answer) (progress : Progress Item State Out) :
    Action → Progress Item State Out
  | .answer =>
      match progress.phase with
      | .asked index state => { progress with phase := .answered index state }
      | _ => progress
  | .turn =>
      match progress.phase with
      | .starting state =>
          if progress.stopped then { progress with phase := .ended } else loop.next 0 state progress
      | .answered index state =>
          if progress.stopped then { progress with phase := .ended }
          else loop.handle (answers index) index state progress
      | _ => progress
  | .stop => { progress with stopped := true }

/-! ## The plain loop -/

/-- What a plain loop over the items from an index sends. -/
def resultFrom (answers : Nat → Answer) : Nat → State → List Item → Out
  | _, state, [] => loop.finish state
  | index, state, item :: items =>
      match loop.take state item (answers index) with
      | .error out => out
      | .ok state => resultFrom answers (index + 1) state items

/-- The items that a plain loop over the items from an index gets to. -/
def callsFrom (answers : Nat → Answer) : Nat → State → List Item → List Item
  | _, _, [] => []
  | index, state, item :: items =>
      item ::
        match loop.take state item (answers index) with
        | .error _ => []
        | .ok state => callsFrom answers (index + 1) state items

def result (answers : Nat → Answer) (state : State) : Out :=
  loop.resultFrom answers 0 state loop.items

def allCalls (answers : Nat → Answer) (state : State) : List Item :=
  loop.callsFrom answers 0 state loop.items

variable {loop} in
theorem callsFrom_prefix (answers : Nat → Answer) (items : List Item) (index : Nat)
    (state : State) : loop.callsFrom answers index state items <+: items := by
  induction items generalizing index state with
  | nil => exact List.nil_prefix
  | cons item items ih =>
      unfold callsFrom
      cases loop.take state item (answers index) with
      | error out => exact ⟨items, rfl⟩
      | ok state => exact List.cons_prefix_cons.mpr ⟨rfl, ih (index + 1) state⟩

/-- What is left to do at an index, with the calls made before it. -/
structure Left (answers : Nat → Answer) (start : State) (index : Nat) (state : State)
    (calls : List Item) : Prop where
  result : loop.result answers start = loop.resultFrom answers index state (loop.items.drop index)
  calls : loop.allCalls answers start =
    calls ++ loop.callsFrom answers index state (loop.items.drop index)

/-- A loop that is not over has sent nothing, and one that is over has done what the plain loop
    does, or was stopped before its end. -/
def Sound (answers : Nat → Answer) (start : State) (progress : Progress Item State Out) : Prop :=
  match progress.phase with
  | .starting state => state = start ∧ progress.calls = [] ∧ progress.sent = []
  | .asked index state | .answered index state =>
      progress.sent = [] ∧ ∃ item before, loop.items[index]? = some item ∧
        progress.calls = before ++ [item] ∧ loop.Left answers start index state before
  | .ended =>
      progress.calls <+: loop.allCalls answers start ∧
        ((progress.stopped = true ∧ progress.sent = []) ∨
          (progress.sent = [loop.result answers start] ∧
            progress.calls = loop.allCalls answers start))

variable {loop} {answers : Nat → Answer} {start state : State} {index : Nat}
  {progress : Progress Item State Out}

theorem drop_of_getElem? {items : List Item} {item : Item} (here : items[index]? = some item) :
    items.drop index = item :: items.drop (index + 1) := by
  obtain ⟨inside, rfl⟩ := List.getElem?_eq_some_iff.mp here
  exact List.drop_eq_getElem_cons inside

theorem drop_of_none {items : List Item} (past : items[index]? = none) : items.drop index = [] :=
  List.drop_eq_nil_of_le (List.getElem?_eq_none_iff.mp past)

/-- The next call, or the end, where what is left begins. -/
theorem Left.next (left : loop.Left answers start index state progress.calls)
    (unsent : progress.sent = []) : loop.Sound answers start (loop.next index state progress) := by
  unfold Waiting.next
  cases found : loop.items[index]? with
  | none =>
      obtain ⟨result, calls⟩ := left
      rw [drop_of_none found] at result calls
      have all : loop.allCalls answers start = progress.calls := by simpa [callsFrom] using calls
      refine ⟨?_, .inr ⟨?_, all.symm⟩⟩
      · exact all ▸ List.prefix_refl _
      · simp [unsent, result, resultFrom]
  | some item => exact ⟨unsent, item, progress.calls, found, rfl, left⟩

/-- The handler of an answer. -/
theorem Left.handle {item : Item} {before : List Item} (found : loop.items[index]? = some item)
    (called : progress.calls = before ++ [item]) (left : loop.Left answers start index state before)
    (unsent : progress.sent = []) :
    loop.Sound answers start (loop.handle (answers index) index state progress) := by
  obtain ⟨result, calls⟩ := left
  rw [drop_of_getElem? found] at result calls
  simp only [Waiting.handle, found]
  cases taken : loop.take state item (answers index) with
  | error out =>
      simp only [resultFrom, callsFrom, taken] at result calls
      refine ⟨?_, .inr ⟨?_, ?_⟩⟩
      · rw [calls, ← called]
      · simp [unsent, result]
      · rw [calls, ← called]
  | ok next =>
      simp only [resultFrom, callsFrom, taken] at result calls
      have later : loop.Left answers start (index + 1) next progress.calls := by
        refine ⟨result, ?_⟩
        rw [calls, called, List.append_assoc]
        rfl
      exact later.next unsent

theorem Left.calls_prefix {item : Item} {before : List Item}
    (found : loop.items[index]? = some item) (called : progress.calls = before ++ [item])
    (left : loop.Left answers start index state before) :
    progress.calls <+: loop.allCalls answers start := by
  rw [left.calls, called, drop_of_getElem? found, callsFrom]
  exact ⟨_, List.append_assoc _ _ _⟩

theorem Sound.step (sound : loop.Sound answers start progress) (action : Action) :
    loop.Sound answers start (loop.step answers progress action) := by
  obtain ⟨phase, stopped, calls, sent⟩ := progress
  cases action with
  | answer =>
      cases phase with
      | starting state | answered index state | ended => exact sound
      | asked index state => exact sound
  | stop =>
      cases phase with
      | starting state | asked index state | answered index state => exact sound
      | ended =>
          refine ⟨sound.1, ?_⟩
          cases sound.2 with
          | inl halted => exact .inl ⟨rfl, halted.2⟩
          | inr done => exact .inr done
  | turn =>
      cases phase with
      | asked index state | ended => exact sound
      | starting state =>
          obtain ⟨rfl, called, unsent⟩ := sound
          dsimp only at called unsent
          cases called
          cases stopped with
          | true => exact ⟨List.nil_prefix, .inl ⟨rfl, unsent⟩⟩
          | false => exact Left.next ⟨rfl, rfl⟩ unsent
      | answered index state =>
          obtain ⟨unsent, item, before, found, called, left⟩ := sound
          cases stopped with
          | true => exact ⟨Left.calls_prefix found called left, .inl ⟨rfl, unsent⟩⟩
          | false => exact Left.handle found called left unsent

theorem Sound.calls_prefix (sound : loop.Sound answers start progress) :
    progress.calls <+: loop.allCalls answers start := by
  obtain ⟨phase, stopped, calls, sent⟩ := progress
  cases phase with
  | starting state =>
      obtain ⟨-, called, -⟩ := sound
      dsimp only at called
      rw [called]
      exact List.nil_prefix
  | asked index state | answered index state =>
      obtain ⟨-, item, before, found, called, left⟩ := sound
      exact Left.calls_prefix found called left
  | ended => exact sound.1

/-- In every run a loop sends at most what the plain loop sends, once, and only after it has
    called out for all that the plain loop gets to; till then it has called out for a part of
    that, in order. -/
theorem run_sound (loop : Waiting Item Answer State Out) (answers : Nat → Answer) (start : State)
    (actions : List Action) :
    let after := Run.final (loop.step answers) (begin start) actions
    after.calls <+: loop.allCalls answers start ∧
      (after.sent = [] ∨
        after.sent = [loop.result answers start] ∧ after.calls = loop.allCalls answers start) := by
  intro after
  have sound : loop.Sound answers start after :=
    Run.always_final (fun _ action sound => sound.step action) ⟨rfl, rfl, rfl⟩
  refine ⟨sound.calls_prefix, ?_⟩
  generalize after = progress at sound
  obtain ⟨phase, stopped, calls, sent⟩ := progress
  cases phase with
  | starting state => exact .inl sound.2.2
  | asked index state | answered index state => exact .inl sound.1
  | ended =>
      cases sound.2 with
      | inl halted => exact .inl halted.2
      | inr done => exact .inr done

/-! ## Loops that are not stopped -/

variable (loop) in
/-- How many answers a loop may have to wait for, with the turn that it starts at. -/
def waits (progress : Progress Item State Out) : Nat :=
  match progress.phase with
  | .starting _ => loop.items.length + 1
  | .asked index _ | .answered index _ => loop.items.length - index
  | .ended => 0

def rounds (count : Nat) : List Action := (List.replicate count [Action.answer, .turn]).flatten

theorem next_live (live : progress.stopped = false) :
    (loop.next index state progress).stopped = false ∧
      loop.waits (loop.next index state progress) ≤ loop.items.length - index := by
  unfold Waiting.next
  cases loop.items[index]? with
  | none => exact ⟨live, Nat.zero_le _⟩
  | some item => exact ⟨live, Nat.le_refl _⟩

theorem handle_live (live : progress.stopped = false) (answer : Answer) :
    (loop.handle answer index state progress).stopped = false ∧
      loop.waits (loop.handle answer index state progress) ≤ loop.items.length - (index + 1) := by
  unfold Waiting.handle
  cases loop.items[index]? with
  | none => exact ⟨live, Nat.zero_le _⟩
  | some item =>
      dsimp only
      cases loop.take state item answer with
      | error out => exact ⟨live, Nat.zero_le _⟩
      | ok next => exact next_live live

/-- A round leaves one answer less to wait for. -/
theorem round_live (live : progress.stopped = false) :
    let after := loop.step answers (loop.step answers progress .answer) .turn
    after.stopped = false ∧ loop.waits after ≤ loop.waits progress - 1 := by
  obtain ⟨phase, stopped, calls, sent⟩ := progress
  cases live
  cases phase with
  | starting state => exact next_live rfl
  | asked index state | answered index state =>
      have handled := @handle_live _ _ _ _ loop state index
        ⟨.answered index state, false, calls, sent⟩ rfl (answers index)
      exact ⟨handled.1, handled.2.trans (Nat.le_of_eq (Nat.sub_sub _ _ _).symm)⟩
  | ended => exact ⟨rfl, Nat.zero_le _⟩

theorem ended_of_waits (sound : loop.Sound answers start progress)
    (none_left : loop.waits progress = 0) : progress.phase = .ended := by
  obtain ⟨phase, stopped, calls, sent⟩ := progress
  cases phase with
  | starting state => cases none_left
  | asked index state | answered index state =>
      obtain ⟨-, item, before, found, -⟩ := sound
      exact absurd none_left (Nat.sub_ne_zero_of_lt (List.getElem?_eq_some_iff.mp found).1)
  | ended => rfl

theorem rounds_live (live : progress.stopped = false) {count : Nat}
    (enough : loop.waits progress ≤ count) :
    let after := Run.final (loop.step answers) progress (rounds count)
    after.stopped = false ∧ loop.waits after = 0 := by
  induction count generalizing progress with
  | zero => exact ⟨live, Nat.le_zero.mp enough⟩
  | succ count ih =>
      have round := @round_live _ _ _ _ loop answers progress live
      exact ih round.1 (round.2.trans (Nat.sub_le_of_le_add enough))

theorem step_live (live : progress.stopped = false) {action : Action} (goes : action ≠ .stop) :
    (loop.step answers progress action).stopped = false := by
  obtain ⟨phase, stopped, calls, sent⟩ := progress
  cases live
  cases action with
  | answer => cases phase <;> rfl
  | stop => exact absurd rfl goes
  | turn =>
      cases phase with
      | starting state => exact (next_live rfl).1
      | answered index state => exact (handle_live rfl _).1
      | asked index state | ended => rfl

theorem run_live (live : progress.stopped = false) {actions : List Action}
    (goes : ∀ action ∈ actions, action ≠ .stop) :
    (Run.final (loop.step answers) progress actions).stopped = false := by
  induction actions generalizing progress with
  | nil => exact live
  | cons action actions ih =>
      have both := List.forall_mem_cons.mp goes
      exact ih (step_live live both.1) both.2

/-- A loop that is not stopped sends what the plain loop sends, once each of its calls is
    answered. -/
theorem run_complete (loop : Waiting Item Answer State Out) (answers : Nat → Answer)
    (start : State) {actions : List Action} (goes : ∀ action ∈ actions, action ≠ .stop) :
    let after := Run.final (loop.step answers) (begin start)
      (actions ++ rounds (loop.items.length + 1))
    after.sent = [loop.result answers start] ∧ after.calls = loop.allCalls answers start := by
  intro after
  have sound : loop.Sound answers start after :=
    Run.always_final (fun _ action sound => sound.step action) ⟨rfl, rfl, rfl⟩
  have live : (Run.final (loop.step answers) (begin start) actions).stopped = false :=
    run_live rfl goes
  have few : loop.waits (Run.final (loop.step answers) (begin start) actions) ≤
      loop.items.length + 1 := by
    unfold waits
    split
    case h_1 => exact Nat.le_refl _
    case h_2 => exact (Nat.sub_le _ _).trans (Nat.le_succ _)
    case h_3 => exact (Nat.sub_le _ _).trans (Nat.le_succ _)
    case h_4 => exact Nat.zero_le _
  have joined : after = Run.final (loop.step answers)
      (Run.final (loop.step answers) (begin start) actions) (rounds (loop.items.length + 1)) :=
    List.foldl_append
  have done : after.stopped = false ∧ loop.waits after = 0 := by
    rw [joined]
    exact rounds_live live few
  have ended := ended_of_waits sound done.2
  unfold Waiting.Sound at sound
  rw [ended] at sound
  cases sound.2 with
  | inl halted => exact absurd halted.1 (Bool.eq_false_iff.mp done.1)
  | inr complete => exact complete

end Waiting
