import LibbitcoinServer.Lib.Run

/-! # The admin log and event filters

A filter is one atomic word: a mask of the levels (or events) to send, with the
leftmost bit as sentinel of a registered handler.  The channel strand replaces
the mask, the log thread reads it and unregisters once the mask is empty.  Only
the single operations on the word are atomic, so a registration's load and its
compare-exchange are steps of their own, with any update between them.
-/

namespace LibbitcoinServer.Admin

abbrev Word := BitVec 64

/-- `set_left`: the bit at `offset` from the most significant one, replaced. -/
def setLeft (word : Word) (offset : Nat) (value : Bool) : Word :=
  let mask := BitVec.twoPow 64 (63 - offset)
  if value then word ||| mask else word &&& ~~~mask

/-- `get_left`: the bit at `offset` from the most significant one. -/
def getLeft (word : Word) (offset : Nat) : Bool := word.getMsbD offset

/-- `get_right`: the bit at `offset` from the least significant one. -/
def getRight (word : Word) (offset : Nat) : Bool := word.getLsbD offset

/-- `maximum_filter`: numbers above it are not exact in the client's json. -/
def maximumFilter : Nat := 2 ^ 53 - 1

/-- A filter parameter, as `admin_query` admits it. -/
structure Filter where
  value : Word
  bounded : value.toNat ≤ maximumFilter

/-- A registration of `handle_log` (or `handle_event`) with the logger: between
    two calls of `get_filter`, or within one that is to compare-exchange `next`
    for the loaded `state`. -/
inductive Registration where
  | idle
  | exchanging (bit : Nat) (state next : Word)
  deriving DecidableEq, Repr

/-- What a completed call of `get_filter` returns: `none` unsubscribes. -/
abbrev Filtered := Option Bool

/-- The atomic operation of `update_filter`: the state it returns and the word it leaves. -/
def exchangeUpdate (value word : Word) : Word × Word :=
  let next := setLeft value 0 true
  if value = 0#64 then (word, word &&& next) else (word, next)

/-- `update_filter` on the state its atomic operation returned: subscribe, and `prior`. -/
def updateFilter (value state : Word) : Bool × Word :=
  (value ≠ 0#64 && !getLeft state 0, setLeft state 0 false)

/-- `get_filter` up to its load: the mask of the bit, or a compare-exchange to follow. -/
def loadFilter (bit : Nat) (word : Word) : Filtered ⊕ Registration :=
  let next := setLeft word 0 false
  if next = 0#64 then .inr (.exchanging bit word next) else .inl (some (getRight word bit))

/-- The compare-exchange of `get_filter`: what the call returns and the word it leaves. -/
def compareExchange (bit : Nat) (state next word : Word) : Filtered × Word :=
  if word = state then (none, next) else (some (getRight word bit), word)

/-- The word with the live registrations, and what was passed to `update_filter`
    and reported by it as previous, both in order. -/
structure State where
  word : Word := 0#64
  registrations : List Registration := []
  passed : List Word := []
  reported : List Word := []
  deriving DecidableEq, Repr

inductive Event where
  | update (filter : Filter)
  | load (index bit : Nat)
  | compareExchange (index : Nat)

namespace State

/-- `handle_get_log_subscribe` and `handle_get_event_subscribe` up to their response. -/
def update (state : State) (filter : Filter) : State :=
  let exchanged := exchangeUpdate filter.value state.word
  let updated := updateFilter filter.value exchanged.1
  { word := exchanged.2
    registrations := if updated.1 then state.registrations ++ [.idle] else state.registrations
    passed := state.passed ++ [filter.value]
    reported := state.reported ++ [updated.2] }

/-- A registration calls `get_filter`, unless it is within a call. -/
def load (state : State) (index bit : Nat) : State :=
  match state.registrations[index]? with
  | some .idle =>
      match loadFilter bit state.word with
      | .inl _ => state
      | .inr call => { state with registrations := state.registrations.set index call }
  | _ => state

/-- A registration completes its call of `get_filter`. -/
def exchange (state : State) (index : Nat) : State :=
  match state.registrations[index]? with
  | some (.exchanging bit expected next) =>
      match Admin.compareExchange bit expected next state.word with
      | (none, word) =>
          { state with word, registrations := state.registrations.eraseIdx index }
      | (some _, word) =>
          { state with word, registrations := state.registrations.set index .idle }
  | _ => state

def step (state : State) : Event → State
  | .update filter => state.update filter
  | .load index bit => state.load index bit
  | .compareExchange index => state.exchange index

end State

/-! ## The sentinel bit -/

theorem getLsbD_setLeft (word : Word) (value : Bool) (index : Nat) :
    (setLeft word 0 value).getLsbD index = if index = 63 then value else word.getLsbD index := by
  unfold setLeft
  by_cases leftmost : index = 63
  · subst leftmost
    cases value <;> simp
  · have apart : ¬63 = index := fun same => leftmost same.symm
    cases value with
    | true => simp [BitVec.getLsbD_twoPow, leftmost, apart]
    | false =>
        by_cases inside : index < 64
        · simp [leftmost, inside]
        · simp [leftmost, BitVec.getLsbD_of_ge, Nat.not_lt.mp inside]

theorem getLeft_zero (word : Word) : getLeft word 0 = word.getLsbD 63 := by
  simp [getLeft, BitVec.getMsbD_eq_getLsbD]

@[simp] theorem getLeft_setLeft (word : Word) (value : Bool) :
    getLeft (setLeft word 0 value) 0 = value := by
  rw [getLeft_zero, getLsbD_setLeft, if_pos rfl]

@[simp] theorem setLeft_setLeft (word : Word) (first last : Bool) :
    setLeft (setLeft word 0 first) 0 last = setLeft word 0 last := by
  apply BitVec.eq_of_getLsbD_eq
  intro index inside
  simp only [getLsbD_setLeft]
  split_ifs <;> rfl

theorem setLeft_getLeft (word : Word) : setLeft word 0 (getLeft word 0) = word := by
  apply BitVec.eq_of_getLsbD_eq
  intro index inside
  rw [getLsbD_setLeft, getLeft_zero]
  split_ifs with leftmost
  · rw [leftmost]
  · rfl

@[simp] theorem setLeft_zero : setLeft 0#64 0 false = 0#64 := by decide

theorem and_setLeft_zero (word : Word) :
    word &&& setLeft 0#64 0 true = setLeft 0#64 0 (getLeft word 0) := by
  apply BitVec.eq_of_getLsbD_eq
  intro index inside
  simp only [BitVec.getLsbD_and, getLsbD_setLeft, getLeft_zero]
  split_ifs with leftmost
  · simp [leftmost]
  · simp

theorem Filter.getLeft_value (filter : Filter) : getLeft filter.value 0 = false := by
  have bounded := filter.bounded
  rw [getLeft_zero, BitVec.getLsbD]
  apply Nat.testBit_lt_two_pow
  simp only [maximumFilter] at bounded
  omega

theorem Filter.setLeft_value (filter : Filter) : setLeft filter.value 0 false = filter.value := by
  have same := setLeft_getLeft filter.value
  rwa [filter.getLeft_value] at same

/-! ## What one step keeps -/

/-- A set sentinel is a live registration, a clear one an empty mask, and a call that
    is to compare-exchange expects the sentinel alone.  The mask is the last value
    passed, so the masks reported are the values passed before. -/
structure State.Sentinel (state : State) : Prop where
  live : state.registrations.length = if getLeft state.word 0 then 1 else 0
  clear : getLeft state.word 0 = false → state.word = 0#64
  expects : ∀ bit expected next, .exchanging bit expected next ∈ state.registrations →
    expected = setLeft 0#64 0 true ∧ next = 0#64
  told : state.reported ++ [setLeft state.word 0 false] = 0#64 :: state.passed

namespace State.Sentinel

variable {state : State}

theorem start : State.Sentinel {} where
  live := by decide
  clear := by decide
  expects := by simp
  told := by decide

theorem exchanged_left (filter : Filter) (word : Word) :
    getLeft (exchangeUpdate filter.value word).2 0 =
      (getLeft word 0 || decide (filter.value ≠ 0#64)) := by
  unfold exchangeUpdate
  by_cases empty : filter.value = 0#64
  · simp [empty, and_setLeft_zero]
  · simp [empty]

theorem exchanged_mask (filter : Filter) (word : Word) :
    setLeft (exchangeUpdate filter.value word).2 0 false = filter.value := by
  unfold exchangeUpdate
  by_cases empty : filter.value = 0#64
  · simp [empty, and_setLeft_zero]
  · simp [empty, filter.setLeft_value]

theorem exchanged_state (value word : Word) : (exchangeUpdate value word).1 = word := by
  unfold exchangeUpdate
  dsimp only
  split <;> rfl

theorem eq_zero_of_left {word : Word} (left : getLeft word 0 = false)
    (mask : setLeft word 0 false = 0#64) : word = 0#64 := by
  have same := setLeft_getLeft word
  rw [left, mask] at same
  exact same.symm

theorem update (inside : state.Sentinel) (filter : Filter) : (state.update filter).Sentinel where
  live := by
    have live := inside.live
    simp only [State.update, exchanged_left, exchanged_state, updateFilter]
    cases left : getLeft state.word 0 <;> by_cases empty : filter.value = 0#64 <;>
      simp [left, empty] at live ⊢ <;> exact live
  clear := by
    intro left
    simp only [State.update] at left ⊢
    apply eq_zero_of_left left
    rw [exchanged_left] at left
    rw [exchanged_mask]
    simpa using (Bool.or_eq_false_iff.mp left).2
  expects := by
    intro bit expected next member
    apply inside.expects bit expected next
    simp only [State.update] at member
    split at member
    · simpa using member
    · exact member
  told := by
    simp only [State.update, exchanged_mask, exchanged_state, updateFilter]
    rw [inside.told]
    rfl

/-- A live registration under an empty mask leaves the sentinel alone in the word. -/
theorem word_of_member (inside : state.Sentinel) {registration : Registration}
    (member : registration ∈ state.registrations)
    (mask : setLeft state.word 0 false = 0#64) : state.word = setLeft 0#64 0 true := by
  have left : getLeft state.word 0 = true := by
    by_contra clear
    have live := inside.live
    rw [if_neg clear] at live
    rw [List.length_eq_zero_iff.mp live] at member
    cases member
  have same := setLeft_setLeft state.word false true
  rw [mask] at same
  rw [same, ← left, setLeft_getLeft]

theorem load (inside : state.Sentinel) (index bit : Nat) : (state.load index bit).Sentinel := by
  unfold State.load
  split
  · next found =>
      unfold loadFilter
      dsimp only
      by_cases mask : setLeft state.word 0 false = 0#64
      · have word := inside.word_of_member (List.mem_of_getElem? found) mask
        rw [if_pos mask]
        refine ⟨?_, inside.clear, ?_, inside.told⟩
        · simpa using inside.live
        · intro other expected next member
          rcases List.mem_or_eq_of_mem_set member with before | here
          · exact inside.expects other expected next before
          · cases here
            exact ⟨word, mask⟩
      · rw [if_neg mask]
        exact inside
  · exact inside

theorem exchange (inside : state.Sentinel) (index : Nat) : (state.exchange index).Sentinel := by
  unfold State.exchange
  split
  · next bit expected next found =>
      have member := List.mem_of_getElem? found
      have ⟨expected_eq, next_eq⟩ := inside.expects bit expected next member
      unfold Admin.compareExchange
      by_cases same : state.word = expected
      · rw [if_pos same]
        have left : getLeft state.word 0 = true := by
          rw [same, expected_eq, getLeft_setLeft]
        have mask : setLeft state.word 0 false = 0#64 := by
          rw [same, expected_eq, setLeft_setLeft, setLeft_zero]
        have live := inside.live
        have told := inside.told
        rw [if_pos left] at live
        rw [mask] at told
        subst next_eq
        have index_lt := (List.getElem?_eq_some_iff.mp found).1
        have none : state.registrations.eraseIdx index = [] := by
          apply List.length_eq_zero_iff.mp
          rw [List.length_eraseIdx_of_lt index_lt, live]
        refine ⟨?_, fun _ => rfl, ?_, ?_⟩
        · simp [none, getLeft_zero]
        · simp [none]
        · simpa using told
      · rw [if_neg same]
        refine ⟨?_, inside.clear, ?_, inside.told⟩
        · simpa using inside.live
        · intro other expected next later
          rcases List.mem_or_eq_of_mem_set later with before | here
          · exact inside.expects other expected next before
          · cases here
  · exact inside

theorem step (inside : state.Sentinel) (event : Event) : (state.step event).Sentinel := by
  cases event with
  | update filter => exact inside.update filter
  | load index bit => exact inside.load index bit
  | compareExchange index => exact inside.exchange index

end State.Sentinel

/-- The value that an update passes. -/
def Event.value? : Event → Option Word
  | .update filter => some filter.value
  | .load _ _ | .compareExchange _ => none

theorem passed_load (state : State) (index bit : Nat) :
    (state.load index bit).passed = state.passed := by
  unfold State.load
  split
  · split <;> rfl
  · rfl

theorem passed_exchange (state : State) (index : Nat) :
    (state.exchange index).passed = state.passed := by
  unfold State.exchange
  split
  · split <;> rfl
  · rfl

theorem passed_final (state : State) (events : List Event) :
    (Run.final State.step state events).passed = state.passed ++ events.filterMap Event.value? := by
  induction events generalizing state with
  | nil => exact (List.append_nil _).symm
  | cons event events ih =>
      rw [Run.final, List.foldl_cons, ← Run.final, ih]
      cases event with
      | update filter => exact List.append_assoc _ _ _
      | load index bit => exact congrArg (· ++ _) (passed_load state index bit)
      | compareExchange index => exact congrArg (· ++ _) (passed_exchange state index)

/-- After any steps of the strand and the registered handlers, one registration is
    live exactly under the sentinel, a mask is never set without one, and each
    update was told the value of the update before it. -/
theorem registered_once (events : List Event) :
    let state := Run.final State.step {} events
    state.registrations.length = (if getLeft state.word 0 then 1 else 0) ∧
      (setLeft state.word 0 false ≠ 0#64 → state.registrations ≠ []) ∧
      state.passed = events.filterMap Event.value? ∧
      state.reported = (0#64 :: events.filterMap Event.value?).dropLast := by
  intro state
  have inside : state.Sentinel := by
    apply Run.always_final _ State.Sentinel.start
    intro state event inside
    exact inside.step event
  have passed : state.passed = events.filterMap Event.value? := passed_final {} events
  refine ⟨inside.live, ?_, passed, ?_⟩
  · intro mask none
    have live := inside.live
    rw [none] at live
    cases left : getLeft state.word 0 with
    | true => simp [left] at live
    | false => exact mask (by rw [inside.clear left, setLeft_zero])
  · rw [← passed, ← inside.told, List.dropLast_concat]

/-- A mask set and cleared between a load and its compare-exchange: the
    registration is dropped, and the next mask registers again. -/
example :
    let filter := fun value bounded => Event.update ⟨value, bounded⟩
    let state := Run.final State.step {} [filter 5#64 (by decide), filter 0#64 (by decide),
      .load 0 2, filter 3#64 (by decide), filter 0#64 (by decide), .compareExchange 0,
      filter 4#64 (by decide)]
    state.word = setLeft 4#64 0 true ∧ state.registrations = [.idle] := by
  decide +kernel

end LibbitcoinServer.Admin
