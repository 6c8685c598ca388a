import LibbitcoinServer.Lib.Run

/-! # Long poll waits

A wait request is answered by the chain or by its timeout.  The channel keeps one
waiter and one timer, and a race that the first of the two finishes.  The chain changes
on other threads, also while a request is handled, and each change posts an event to
the channel's strand.  An expiry may come late, after its wait has completed.
-/

namespace LibbitcoinServer.Bitcoind

/-- The confirmed chain: its genesis block and those above it. -/
structure Confirmed (Hash : Type) where
  genesis : Hash
  above : List Hash := []
  deriving DecidableEq, Repr

namespace Confirmed

variable {Hash : Type} [DecidableEq Hash] (chain : Confirmed Hash)

/-- `get_top_confirmed`. -/
def top : Nat := chain.above.length

/-- `get_top_confirmed_hash`. -/
def topHash : Hash := chain.above.getLastD chain.genesis

/-- `is_confirmed_block` of the header that `to_header` finds. -/
def contains (hash : Hash) : Bool := hash = chain.genesis || hash ∈ chain.above

end Confirmed

inductive Code where
  | success
  | operationFailed
  | other (value : Nat)
  deriving DecidableEq, Repr

/-- `race_any` of the network library: the first finish calls the handler with its code, a
    race released after that calls nothing, and one released before it calls the
    handler with operation_failed, if it calls it at all. -/
structure RaceAny where
  State : Type
  start : State
  finish : State → Code → Option Code × State
  release : State → Option Code
  finish_start : ∀ code, (finish start code).1 = some code
  release_finished : ∀ code, release (finish start code).2 = none
  release_start : ∀ code, release start = some code → code = .operationFailed

inductive Wait where
  | newBlock
  | block
  | height
  deriving DecidableEq, Repr

/-- A waiter, named by its request. -/
structure Waiter (race : RaceAny) (Hash : Type) where
  id : Nat
  type : Wait
  height : Nat := 0
  hash : Option Hash := none
  race : race.State
  /-- The timer was started for the waiter. -/
  timed : Bool := false
  /-- The block that a new block is waited against. -/
  against : Option Hash := none

/-- The wait requests: a hash or a number is `none` where the text or the value does not
    convert, a tip where it is absent or malformed. -/
inductive Method (Hash : Type) where
  | waitForBlock (blockhash : Option Hash) (timeout : Option Nat)
  | waitForBlockHeight (height : Option Nat) (timeout : Option Nat)
  | waitForNewBlock (timeout : Option Nat) (currentTip : Option Hash)

inductive Response (Hash : Type) where
  | top (hash : Hash) (height : Nat)
  | invalidParameter
  | miscError
  deriving DecidableEq, Repr

/-- Where the strand stands within the handler of a request.  The chain is read by each
    stage and may change between them. -/
inductive Stage (race : RaceAny) (Hash : Type) where
  | idle
  | opened (id : Nat) (method : Method Hash)
  | compared (id : Nat) (against : Hash) (timeout : Option Nat)
  | arming (waiter : Waiter race Hash) (timeout : Option Nat)
  | checked (waiter : Waiter race Hash) (timeout : Option Nat)

def Stage.request {race : RaceAny} {Hash : Type} : Stage race Hash → Option Nat
  | .idle => none
  | .opened id _ => some id
  | .compared id _ _ => some id
  | .arming waiter _ => some waiter.id
  | .checked waiter _ => some waiter.id

structure ProtocolBitcoindBlockchain (race : RaceAny) (Hash : Type) where
  chain : Confirmed Hash
  stopped : Bool := false
  /-- The do_wait_event posts that have not run. -/
  pending : Nat := 0
  /-- A change of the chain was not posted. -/
  missed : Bool := false
  requests : Nat := 0
  stage : Stage race Hash := .idle
  waiter : Option (Waiter race Hash) := none
  /-- The waiters let go of, until their race is released. -/
  dropped : List (Waiter race Hash) := []
  timer : Option Nat := none
  responses : List (Nat × Response Hash) := []

inductive Event (Hash : Type) where
  | request (method : Method Hash)
  | advance
  | change (chain : Confirmed Hash)
  | waitEvent
  | expiry (id : Nat) (code : Code)
  | release (index : Nat)
  | stop
  | stopping

namespace ProtocolBitcoindBlockchain

variable {race : RaceAny} {Hash : Type} [DecidableEq Hash]
  (protocol : ProtocolBitcoindBlockchain race Hash)

def waitDone (chain : Confirmed Hash) (waiting : Waiter race Hash) : Bool :=
  match waiting.type with
  | .newBlock => waiting.height ≤ chain.top
  | .height => waiting.height ≤ chain.top
  | .block =>
      match waiting.hash with
      | none => false
      | some hash => chain.contains hash

def send (id : Nat) (response : Response Hash) : ProtocolBitcoindBlockchain race Hash :=
  { protocol with responses := protocol.responses ++ [(id, response)] }

def sendTop (id : Nat) : ProtocolBitcoindBlockchain race Hash :=
  protocol.send id (.top protocol.chain.topHash protocol.chain.top)

def completeWait (id : Nat) (code : Code) : ProtocolBitcoindBlockchain race Hash :=
  let halted := { protocol with timer := none }
  if protocol.stopped || code = .operationFailed then halted else halted.sendTop id

/-- The waiter is let go of and its race finished. -/
def finish (waiting : Waiter race Hash) (code : Code) : ProtocolBitcoindBlockchain race Hash :=
  let finished := race.finish waiting.race code
  let gone :=
    { protocol with
      waiter := none
      dropped := { waiting with race := finished.2 } :: protocol.dropped }
  match finished.1 with
  | none => gone
  | some code => gone.completeWait waiting.id code

def doWaitEvent : ProtocolBitcoindBlockchain race Hash :=
  match protocol.waiter with
  | none => protocol
  | some waiting =>
      if waitDone protocol.chain waiting then protocol.finish waiting .success else protocol

def handleWaitTimeout (code : Code) (id : Nat) : ProtocolBitcoindBlockchain race Hash :=
  match protocol.waiter with
  | none => protocol
  | some waiting => if waiting.id = id then protocol.finish waiting code else protocol

/-- The last reference to a waiter let go of is dropped. -/
def releaseWaiter (index : Nat) : ProtocolBitcoindBlockchain race Hash :=
  match protocol.dropped[index]? with
  | none => protocol
  | some waiting =>
      let gone := { protocol with dropped := protocol.dropped.eraseIdx index }
      match race.release waiting.race with
      | none => gone
      | some code => gone.completeWait waiting.id code

def stopping : ProtocolBitcoindBlockchain race Hash :=
  { protocol with
    stopped := true
    waiter := none
    dropped := protocol.waiter.toList ++ protocol.dropped }

/-- `handle_chase` of a change of the confirmed chain. -/
def handleChase : ProtocolBitcoindBlockchain race Hash :=
  if protocol.stopped then { protocol with missed := true }
  else { protocol with pending := protocol.pending + 1 }

/-- The handlers of the three requests, up to `arm_wait`. -/
def handleWait (id : Nat) : Method Hash → ProtocolBitcoindBlockchain race Hash
  | .waitForBlock none _ => { protocol with stage := .idle }.send id .invalidParameter
  | .waitForBlock (some hash) timeout =>
      { protocol with
        stage := .arming { id, type := .block, hash := some hash, race := race.start } timeout }
  | .waitForBlockHeight none _ => { protocol with stage := .idle }.send id .invalidParameter
  | .waitForBlockHeight (some height) timeout =>
      { protocol with
        stage := .arming { id, type := .height, height, race := race.start } timeout }
  | .waitForNewBlock timeout none =>
      { protocol with stage := .compared id protocol.chain.topHash timeout }
  | .waitForNewBlock timeout (some given) =>
      if given ≠ protocol.chain.topHash then { protocol with stage := .idle }.sendTop id
      else { protocol with stage := .compared id given timeout }

/-- The rest of `arm_wait`, upon a condition that is not met. -/
def arm (waiting : Waiter race Hash) : Option Nat → ProtocolBitcoindBlockchain race Hash
  | none => { protocol with stage := .idle }.send waiting.id .miscError
  | some span =>
      let timed := span ≠ 0
      { protocol with
        stage := .idle
        waiter := some { waiting with timed }
        timer := if timed then some waiting.id else protocol.timer }

/-- The next stage of the request under way. -/
def advance : ProtocolBitcoindBlockchain race Hash :=
  match protocol.stage with
  | .idle => protocol
  | .opened id method => protocol.handleWait id method
  | .compared id against timeout =>
      { protocol with
        stage := .arming
          { id
            type := .newBlock
            height := protocol.chain.top + 1
            race := race.start
            against := some against } timeout }
  | .arming waiting timeout =>
      if waitDone protocol.chain waiting then { protocol with stage := .idle }.sendTop waiting.id
      else { protocol with stage := .checked waiting timeout }
  | .checked waiting timeout => protocol.arm waiting timeout

/-- The strand is between handlers. -/
def idle : Bool := protocol.stage.request.isNone

def step : Event Hash → ProtocolBitcoindBlockchain race Hash
  | .request method =>
      if protocol.idle && protocol.waiter.isNone && !protocol.stopped then
        { protocol with
          requests := protocol.requests + 1
          stage := .opened protocol.requests method }
      else protocol
  | .advance => protocol.advance
  | .change chain => { protocol with chain }.handleChase
  | .waitEvent =>
      if protocol.idle && protocol.pending ≠ 0 then
        { protocol with pending := protocol.pending - 1 }.doWaitEvent
      else protocol
  | .expiry id code => if protocol.idle then protocol.handleWaitTimeout code id else protocol
  | .release index => if protocol.idle then protocol.releaseWaiter index else protocol
  | .stop => { protocol with stopped := true }
  | .stopping => if protocol.idle then protocol.stopping else protocol

/-! ## What a step can do -/

/-- Every transition of the protocol, with what holds where it is taken. -/
inductive Stepped (before : ProtocolBitcoindBlockchain race Hash) :
    Event Hash → ProtocolBitcoindBlockchain race Hash → Prop where
  | ignored (event : Event Hash) : Stepped before event before
  | requested (method : Method Hash) (idle : before.stage.request = none)
      (free : before.waiter = none) (live : before.stopped = false) :
      Stepped before (.request method) { before with
        requests := before.requests + 1
        stage := .opened before.requests method }
  | compared (id : Nat) (timeout : Option Nat) (here : before.stage.request = some id) :
      Stepped before .advance { before with stage := .compared id before.chain.topHash timeout }
  | arming (waiting : Waiter race Hash) (timeout : Option Nat)
      (here : before.stage.request = some waiting.id) (fresh : waiting.race = race.start)
      (other : waiting.type ≠ .newBlock) :
      Stepped before .advance { before with stage := .arming waiting timeout }
  | heightRead (id : Nat) (against : Hash) (timeout : Option Nat)
      (here : before.stage = .compared id against timeout) :
      Stepped before .advance { before with
        stage := .arming
          { id
            type := .newBlock
            height := before.chain.top + 1
            race := race.start
            against := some against } timeout }
  | checked (waiting : Waiter race Hash) (timeout : Option Nat)
      (here : before.stage = .arming waiting timeout)
      (undone : waitDone before.chain waiting = false) :
      Stepped before .advance { before with stage := .checked waiting timeout }
  | answered (id : Nat) (response : Response Hash) (here : before.stage.request = some id) :
      Stepped before .advance ({ before with stage := .idle }.send id response)
  | armed (waiting : Waiter race Hash) (timeout : Option Nat) (timed : Bool)
      (here : before.stage = .checked waiting timeout) :
      Stepped before .advance { before with
        stage := .idle
        waiter := some { waiting with timed }
        timer := if timed then some waiting.id else before.timer }
  | changed (chain : Confirmed Hash) :
      Stepped before (.change chain) { before with chain }.handleChase
  | spent (idle : before.stage.request = none) (posted : before.pending ≠ 0)
      (undone : ∀ waiting, before.waiter = some waiting → waitDone before.chain waiting = false) :
      Stepped before .waitEvent { before with pending := before.pending - 1 }
  | woken (waiting : Waiter race Hash) (idle : before.stage.request = none)
      (posted : before.pending ≠ 0) (here : before.waiter = some waiting)
      (done : waitDone before.chain waiting = true) :
      Stepped before .waitEvent
        ({ before with pending := before.pending - 1 }.finish waiting .success)
  | expired (waiting : Waiter race Hash) (code : Code) (idle : before.stage.request = none)
      (here : before.waiter = some waiting) :
      Stepped before (.expiry waiting.id code) (before.finish waiting code)
  | released (waiting : Waiter race Hash) (index : Nat) (idle : before.stage.request = none)
      (here : before.dropped[index]? = some waiting) :
      Stepped before (.release index) (before.releaseWaiter index)
  | stopped : Stepped before .stop { before with stopped := true }
  | stopping (idle : before.stage.request = none) : Stepped before .stopping before.stopping

variable {protocol}

theorem handleWait_stepped {id : Nat} {method : Method Hash}
    (here : protocol.stage = .opened id method) :
    Stepped protocol .advance (protocol.handleWait id method) := by
  have request : protocol.stage.request = some id := by rw [here, Stage.request]
  cases method with
  | waitForBlock blockhash timeout =>
      cases blockhash with
      | none => exact .answered id _ request
      | some hash => exact .arming _ timeout request rfl (by simp)
  | waitForBlockHeight height timeout =>
      cases height with
      | none => exact .answered id _ request
      | some height => exact .arming _ timeout request rfl (by simp)
  | waitForNewBlock timeout currentTip =>
      cases currentTip with
      | none => exact .compared id timeout request
      | some given =>
          simp only [handleWait]
          split_ifs with moved
          · exact .answered id _ request
          · rw [not_not.mp moved]
            exact .compared id timeout request

theorem advance_stepped : Stepped protocol .advance protocol.advance := by
  unfold advance
  split
  · exact .ignored _
  · next id method here => exact handleWait_stepped here
  · next id against timeout here => exact .heightRead id against timeout here
  · next waiting timeout here =>
      split_ifs with done
      · exact .answered waiting.id _ (by rw [here, Stage.request])
      · exact .checked waiting timeout here (by simpa using done)
  · next waiting timeout here =>
      cases timeout with
      | none => exact .answered waiting.id _ (by rw [here, Stage.request])
      | some span =>
          have armed := Stepped.armed waiting (some span) (decide (span ≠ 0)) here
          simpa [arm] using armed

theorem step_stepped (event : Event Hash) : Stepped protocol event (protocol.step event) := by
  have between (busy : protocol.idle = true) : protocol.stage.request = none := by
    simpa [idle] using busy
  cases event with
  | request method =>
      simp only [step]
      split_ifs with ready
      · simp only [Bool.and_eq_true, Bool.not_eq_true', Option.isNone_iff_eq_none] at ready
        exact .requested method (between ready.1.1) ready.1.2 ready.2
      · exact .ignored _
  | advance => exact advance_stepped
  | change chain => exact .changed chain
  | waitEvent =>
      simp only [step]
      split_ifs with ready
      · simp only [Bool.and_eq_true, decide_eq_true_eq] at ready
        have idle := between ready.1
        unfold doWaitEvent
        cases here : protocol.waiter with
        | none =>
            have spent := Stepped.spent idle ready.2 (by simp [here])
            simpa [here] using spent
        | some waiting =>
            dsimp only
            split_ifs with done
            · have woken := Stepped.woken waiting idle ready.2 here done
              simpa [here] using woken
            · have spent := Stepped.spent idle ready.2 (by simpa [here] using done)
              simpa [here] using spent
      · exact .ignored _
  | expiry id code =>
      simp only [step]
      split_ifs with ready
      · unfold handleWaitTimeout
        split
        · exact .ignored _
        · next waiting here =>
            split_ifs with same
            · rw [← same]
              exact .expired waiting code (between ready) here
            · exact .ignored _
      · exact .ignored _
  | release index =>
      simp only [step]
      split_ifs with ready
      · cases here : protocol.dropped[index]? with
        | none =>
            rw [releaseWaiter, here]
            exact .ignored _
        | some waiting => exact .released waiting index (between ready) here
      · exact .ignored _
  | stop => exact .stopped
  | stopping =>
      simp only [step]
      split_ifs with ready
      · exact .stopping (between ready)
      · exact .ignored _

/-! ## Each request is answered at most once -/

/-- The request under way: handled now, or waiting. -/
def handled (protocol : ProtocolBitcoindBlockchain race Hash) : Option Nat :=
  protocol.stage.request.or (protocol.waiter.map (·.id))

/-- A request is answered once, and not while it is under way. -/
structure Answered (protocol : ProtocolBitcoindBlockchain race Hash) : Prop where
  once : (protocol.responses.map Prod.fst).Nodup
  past : ∀ id ∈ protocol.responses.map Prod.fst, id < protocol.requests
  handled : ∀ id, protocol.handled = some id →
    id < protocol.requests ∧ id ∉ protocol.responses.map Prod.fst

/-- The waiters and their races: a waiter that is armed, or is being armed, has a fresh
    race and its timer; one that was let go of has finished its race, or the channel has
    closed. -/
structure Raced (protocol : ProtocolBitcoindBlockchain race Hash) : Prop where
  staged : ∀ waiting timeout, protocol.stage = .arming waiting timeout ∨
    protocol.stage = .checked waiting timeout → waiting.race = race.start
  apart : protocol.stage.request ≠ none → protocol.waiter = none
  armed : ∀ waiting, protocol.waiter = some waiting → waiting.race = race.start
  timed : ∀ waiting, protocol.waiter = some waiting → waiting.timed = true →
    protocol.timer = some waiting.id
  dropped : ∀ waiting ∈ protocol.dropped,
    (∃ code, waiting.race = (race.finish race.start code).2) ∨
      waiting.race = race.start ∧ protocol.stopped = true ∧ protocol.stage.request = none ∧
        protocol.waiter = none

variable {after : ProtocolBitcoindBlockchain race Hash} {event : Event Hash}

section

omit [DecidableEq Hash]

theorem Answered.keep (answered : protocol.Answered)
    (responses : after.responses = protocol.responses)
    (requests : after.requests = protocol.requests)
    (handled : ∀ id, after.handled = some id → protocol.handled = some id) : after.Answered where
  once := by
    rw [responses]
    exact answered.once
  past := by
    rw [responses, requests]
    exact answered.past
  handled := by
    intro id here
    rw [responses, requests]
    exact answered.handled id (handled id here)

theorem Answered.answer (answered : protocol.Answered) {id : Nat} {response : Response Hash}
    (here : protocol.handled = some id)
    (responses : after.responses = protocol.responses ++ [(id, response)])
    (requests : after.requests = protocol.requests) (handled : after.handled = none) :
    after.Answered := by
  have ⟨past, unanswered⟩ := answered.handled id here
  refine ⟨?_, ?_, ?_⟩
  · rw [responses, List.map_append]
    apply answered.once.append (List.nodup_singleton id)
    simpa using unanswered
  · rw [responses, requests]
    intro other member
    simp only [List.map_append, List.map_cons, List.map_nil, List.mem_append,
      List.mem_singleton] at member
    rcases member with before | rfl
    · exact answered.past other before
    · exact past
  · rw [handled]
    intro other none
    cases none

/-- What `complete_wait` does: it stops the timer, and may answer. -/
theorem completeWait_cases (id : Nat) (code : Code) :
    protocol.completeWait id code = { protocol with timer := none } ∨
      code ≠ .operationFailed ∧
        protocol.completeWait id code = { protocol with timer := none }.sendTop id := by
  unfold completeWait
  dsimp only
  split_ifs with silent
  · exact .inl rfl
  · simp only [Bool.or_eq_true, decide_eq_true_eq, not_or] at silent
    exact .inr ⟨silent.2, rfl⟩

theorem finish_eq {waiting : Waiter race Hash} (fresh : waiting.race = race.start) (code : Code) :
    protocol.finish waiting code =
      { protocol with
        waiter := none
        dropped := { waiting with race := (race.finish race.start code).2 } ::
          protocol.dropped }.completeWait waiting.id code := by
  simp only [finish, fresh, race.finish_start]

theorem Answered.finish (answered : protocol.Answered) (raced : protocol.Raced)
    {waiting : Waiter race Hash} (idle : protocol.stage.request = none)
    (here : protocol.waiter = some waiting) (code : Code) :
    (protocol.finish waiting code).Answered := by
  have handled : protocol.handled = some waiting.id := by
    simp [ProtocolBitcoindBlockchain.handled, idle, here]
  rw [finish_eq (raced.armed waiting here)]
  rcases completeWait_cases waiting.id code with silent | ⟨_, answers⟩
  · rw [silent]
    refine answered.keep rfl rfl ?_
    simp [ProtocolBitcoindBlockchain.handled, idle]
  · rw [answers]
    refine answered.answer handled rfl rfl ?_
    simp [ProtocolBitcoindBlockchain.handled, sendTop, send, idle]

/-- The release of a waiter answers nothing, and stops the timer of no other. -/
theorem releaseWaiter_cases (raced : protocol.Raced) {waiting : Waiter race Hash} {index : Nat}
    (here : protocol.dropped[index]? = some waiting) :
    protocol.releaseWaiter index = { protocol with dropped := protocol.dropped.eraseIdx index } ∨
      protocol.waiter = none ∧ protocol.releaseWaiter index =
        { protocol with dropped := protocol.dropped.eraseIdx index, timer := none } := by
  unfold releaseWaiter
  rw [here]
  dsimp only
  rcases raced.dropped waiting (List.mem_of_getElem? here) with ⟨code, finished⟩ | ⟨fresh, closed⟩
  · rw [finished, race.release_finished]
    exact .inl rfl
  · rw [fresh]
    split
    · exact .inl rfl
    · next code released =>
        refine .inr ⟨closed.2.2, ?_⟩
        rw [race.release_start code released]
        simp [completeWait]

/-- A stage of a request under way leaves it under way. -/
theorem Answered.stage (answered : protocol.Answered) {stage : Stage race Hash} {id : Nat}
    (here : protocol.stage.request = some id) (moved : stage.request = some id) :
    Answered { protocol with stage } := by
  refine answered.keep rfl rfl ?_
  simp [ProtocolBitcoindBlockchain.handled, here, moved]

/-- While a request is under way, the races let go of are finished. -/
theorem Raced.finished (raced : protocol.Raced) (busy : protocol.handled ≠ none) :
    ∀ waiting ∈ protocol.dropped, ∃ code, waiting.race = (race.finish race.start code).2 := by
  intro waiting member
  rcases raced.dropped waiting member with finished | ⟨_, _, idle, free⟩
  · exact finished
  · simp [handled, idle, free] at busy

theorem Raced.stage (raced : protocol.Raced) {stage : Stage race Hash}
    (busy : protocol.stage.request ≠ none)
    (fresh : ∀ waiting timeout, stage = .arming waiting timeout ∨ stage = .checked waiting timeout →
      waiting.race = race.start) : Raced { protocol with stage } where
  staged := fresh
  apart _ := raced.apart busy
  armed := raced.armed
  timed := raced.timed
  dropped := by
    intro waiting member
    apply Or.inl
    apply raced.finished _ waiting member
    simp [handled, Option.or_eq_none_iff, busy]

/-- A request answered without a wait. -/
theorem Raced.answer (raced : protocol.Raced) (busy : protocol.stage.request ≠ none) (id : Nat)
    (response : Response Hash) : ({ protocol with stage := .idle }.send id response).Raced := by
  have idle : Raced { protocol with stage := .idle } := raced.stage busy (by simp)
  exact { idle with }

theorem Raced.finish (raced : protocol.Raced) {waiting : Waiter race Hash}
    (idle : protocol.stage.request = none) (here : protocol.waiter = some waiting) (code : Code) :
    (protocol.finish waiting code).Raced := by
  have gone : Raced { protocol with
      waiter := none
      dropped := { waiting with race := (race.finish race.start code).2 } :: protocol.dropped
      timer := none } := by
    refine ⟨raced.staged, fun _ => rfl, by simp, by simp, ?_⟩
    intro other member
    apply Or.inl
    rcases List.mem_cons.mp member with rfl | before
    · exact ⟨code, rfl⟩
    · apply raced.finished _ other before
      simp [handled, idle, here]
  rw [finish_eq (raced.armed waiting here)]
  rcases completeWait_cases waiting.id code with same | ⟨_, same⟩
  · rw [same]
    exact gone
  · rw [same]
    exact { gone with }

theorem Raced.stopping (raced : protocol.Raced) (idle : protocol.stage.request = none) :
    protocol.stopping.Raced := by
  refine ⟨raced.staged, fun _ => rfl, by simp [ProtocolBitcoindBlockchain.stopping],
    by simp [ProtocolBitcoindBlockchain.stopping], ?_⟩
  intro waiting member
  rcases List.mem_append.mp member with now | before
  · exact .inr ⟨raced.armed waiting (Option.mem_toList.mp now), rfl, idle, rfl⟩
  · rcases raced.dropped waiting before with finished | ⟨fresh, _⟩
    · exact .inl finished
    · exact .inr ⟨fresh, rfl, idle, rfl⟩

end

theorem Answered.step (answered : protocol.Answered) (raced : protocol.Raced)
    (stepped : Stepped protocol event after) : after.Answered := by
  have staged : ∀ id, protocol.stage.request = some id → protocol.handled = some id := by
    intro id here
    rw [ProtocolBitcoindBlockchain.handled, here, Option.some_or]
  cases stepped with
  | ignored => exact answered
  | requested method idle free live =>
      refine ⟨answered.once, ?_, ?_⟩
      · intro id member
        exact (answered.past id member).trans (Nat.lt_succ_self _)
      · intro id here
        simp only [ProtocolBitcoindBlockchain.handled, Stage.request, Option.some_or,
          Option.some.injEq] at here
        subst here
        refine ⟨Nat.lt_succ_self _, ?_⟩
        intro member
        exact lt_irrefl _ (answered.past _ member)
  | compared id timeout here => exact answered.stage here rfl
  | arming waiting timeout here => exact answered.stage here rfl
  | heightRead id against timeout here =>
      exact answered.stage (by rw [here, Stage.request]) rfl
  | checked waiting timeout here => exact answered.stage (by rw [here, Stage.request]) rfl
  | answered id response here =>
      refine answered.answer (staged id here) rfl rfl ?_
      have free := raced.apart (by simp [here])
      simp [ProtocolBitcoindBlockchain.handled, send, Stage.request, free]
  | armed waiting timeout timed here =>
      refine answered.keep rfl rfl ?_
      intro id moved
      apply staged
      rw [here]
      simpa [ProtocolBitcoindBlockchain.handled, Stage.request] using moved
  | changed chain =>
      unfold handleChase
      split_ifs
      · exact answered.keep rfl rfl fun _ => id
      · exact answered.keep rfl rfl fun _ => id
  | spent => exact answered.keep rfl rfl fun _ => id
  | woken waiting idle posted here =>
      have spent : Answered { protocol with pending := protocol.pending - 1 } :=
        answered.keep rfl rfl fun _ => id
      exact spent.finish { raced with } idle here .success
  | expired waiting code idle here => exact answered.finish raced idle here code
  | released waiting index idle here =>
      rcases releaseWaiter_cases raced here with same | ⟨_, same⟩
      · rw [same]
        exact answered.keep rfl rfl fun _ => id
      · rw [same]
        exact answered.keep rfl rfl fun _ => id
  | stopped => exact answered.keep rfl rfl fun _ => id
  | stopping idle =>
      refine answered.keep rfl rfl ?_
      simp [ProtocolBitcoindBlockchain.handled, ProtocolBitcoindBlockchain.stopping, idle]

theorem Raced.step (raced : protocol.Raced) (stepped : Stepped protocol event after) :
    after.Raced := by
  have busy : ∀ {id}, protocol.stage.request = some id → protocol.stage.request ≠ none := by
    intro id here
    simp [here]
  cases stepped with
  | ignored => exact raced
  | requested method idle free live =>
      refine ⟨by simp, fun _ => free, raced.armed, raced.timed, ?_⟩
      intro waiting member
      rcases raced.dropped waiting member with finished | ⟨_, closed, _⟩
      · exact .inl finished
      · rw [live] at closed
        cases closed
  | compared id timeout here => exact raced.stage (busy here) (by simp)
  | arming waiting timeout here fresh other =>
      apply raced.stage (busy here)
      intro staged timeout same
      simp only [Stage.arming.injEq, reduceCtorEq, or_false] at same
      rw [← same.1, fresh]
  | heightRead id against timeout here =>
      apply raced.stage (by simp [here, Stage.request])
      intro staged timeout same
      simp only [Stage.arming.injEq, reduceCtorEq, or_false] at same
      rw [← same.1]
  | checked waiting timeout here undone =>
      apply raced.stage (by simp [here, Stage.request])
      intro staged timeout same
      simp only [Stage.checked.injEq, reduceCtorEq, false_or] at same
      rw [← same.1]
      exact raced.staged waiting _ (.inl here)
  | answered id response here => exact raced.answer (busy here) id response
  | armed waiting timeout timed here =>
      have fresh := raced.staged waiting timeout (.inr here)
      refine ⟨by simp, fun busy => absurd rfl busy, ?_, ?_, ?_⟩
      · intro armed same
        cases same
        exact fresh
      · intro armed same timed
        cases same
        exact if_pos timed
      · intro dropped member
        apply Or.inl
        apply raced.finished _ dropped member
        simp [handled, here, Stage.request]
  | changed chain =>
      unfold handleChase
      split_ifs
      · exact { raced with }
      · exact { raced with }
  | spent => exact { raced with }
  | woken waiting idle posted here =>
      have spent : Raced { protocol with pending := protocol.pending - 1 } := { raced with }
      exact spent.finish idle here .success
  | expired waiting code idle here => exact raced.finish idle here code
  | released waiting index idle here =>
      have kept : ∀ other ∈ protocol.dropped.eraseIdx index, other ∈ protocol.dropped :=
        fun other member => List.mem_of_mem_eraseIdx member
      rcases releaseWaiter_cases raced here with same | ⟨free, same⟩
      · rw [same]
        exact ⟨raced.staged, raced.apart, raced.armed, raced.timed,
          fun other member => raced.dropped other (kept other member)⟩
      · rw [same]
        exact ⟨raced.staged, raced.apart, raced.armed, by simp [free],
          fun other member => raced.dropped other (kept other member)⟩
  | stopped =>
      refine ⟨raced.staged, raced.apart, raced.armed, raced.timed, ?_⟩
      intro waiting member
      rcases raced.dropped waiting member with finished | ⟨fresh, _, closed⟩
      · exact .inl finished
      · exact .inr ⟨fresh, rfl, closed⟩
  | stopping idle => exact raced.stopping idle

/-! ## No wake-up is lost -/

/-- The waiter is armed, or about to be upon a condition not met. -/
def Watches (protocol : ProtocolBitcoindBlockchain race Hash) (waiting : Waiter race Hash) : Prop :=
  protocol.waiter = some waiting ∨ ∃ timeout, protocol.stage = .checked waiting timeout

/-- A wait whose condition is met has an event to come. -/
def Awake (protocol : ProtocolBitcoindBlockchain race Hash) : Prop :=
  ∀ waiting, protocol.Watches waiting →
    waitDone protocol.chain waiting = false ∨ protocol.pending ≠ 0 ∨ protocol.missed = true

theorem Awake.keep (awake : protocol.Awake) (chain : after.chain = protocol.chain)
    (pending : after.pending = protocol.pending) (missed : after.missed = protocol.missed)
    (watches : ∀ waiting, after.Watches waiting → protocol.Watches waiting) : after.Awake := by
  intro waiting watched
  rw [chain, pending, missed]
  exact awake waiting (watches waiting watched)

/-- A stage at which no condition has been checked watches nothing new. -/
theorem Awake.stage (awake : protocol.Awake) {stage : Stage race Hash}
    (early : ∀ waiting timeout, stage ≠ .checked waiting timeout) :
    Awake { protocol with stage } := by
  refine awake.keep rfl rfl rfl ?_
  rintro waiting (armed | ⟨timeout, checked⟩)
  · exact .inl armed
  · exact absurd checked (early waiting timeout)

omit [DecidableEq Hash] in
/-- An idle strand without a waiter watches nothing. -/
theorem not_watches (idle : protocol.stage.request = none) (free : protocol.waiter = none)
    (waiting : Waiter race Hash) : ¬protocol.Watches waiting := by
  rintro (armed | ⟨timeout, checked⟩)
  · rw [free] at armed
    cases armed
  · rw [checked] at idle
    cases idle

omit [DecidableEq Hash] in
theorem finish_waiter (waiting : Waiter race Hash) (code : Code) :
    (protocol.finish waiting code).waiter = none ∧
      (protocol.finish waiting code).stage = protocol.stage := by
  unfold finish completeWait sendTop send
  dsimp only
  split
  · exact ⟨rfl, rfl⟩
  · split_ifs <;> exact ⟨rfl, rfl⟩

theorem Awake.finish (idle : protocol.stage.request = none) (waiting : Waiter race Hash)
    (code : Code) : (protocol.finish waiting code).Awake := by
  intro other watched
  obtain ⟨free, stage⟩ := protocol.finish_waiter waiting code
  exact absurd watched (not_watches (by rw [stage, idle]) free other)

theorem Awake.step (awake : protocol.Awake) (raced : protocol.Raced)
    (stepped : Stepped protocol event after) : after.Awake := by
  cases stepped with
  | ignored => exact awake
  | requested method idle free live =>
      have opened : Awake { protocol with stage := .opened protocol.requests method } :=
        awake.stage (by simp)
      exact opened.keep rfl rfl rfl fun _ => id
  | compared id timeout here => exact awake.stage (by simp)
  | arming waiting timeout here fresh other => exact awake.stage (by simp)
  | heightRead id against timeout here => exact awake.stage (by simp)
  | checked waiting timeout here undone =>
      rintro other (armed | ⟨timeout, checked⟩)
      · exact awake other (.inl armed)
      · cases checked
        exact .inl undone
  | answered request response here =>
      have idle : Awake { protocol with stage := .idle } := awake.stage (by simp)
      exact idle.keep rfl rfl rfl fun _ => id
  | armed waiting timeout timed here =>
      rintro other (armed | ⟨timeout, checked⟩)
      · cases armed
        exact awake waiting (.inr ⟨timeout, here⟩)
      · cases checked
  | changed chain =>
      intro waiting watched
      unfold handleChase
      split_ifs
      · exact .inr (.inr rfl)
      · exact .inr (.inl (Nat.succ_ne_zero _))
  | spent idle posted undone =>
      rintro waiting (armed | ⟨timeout, checked⟩)
      · exact .inl (undone waiting armed)
      · rw [checked] at idle
        cases idle
  | woken waiting idle posted here =>
      have spent : { protocol with pending := protocol.pending - 1 }.stage.request = none := idle
      exact Awake.finish spent waiting .success
  | expired waiting code idle here => exact Awake.finish idle waiting code
  | released waiting index idle here =>
      rcases releaseWaiter_cases raced here with same | ⟨_, same⟩
      · rw [same]
        exact awake.keep rfl rfl rfl fun _ => id
      · rw [same]
        exact awake.keep rfl rfl rfl fun _ => id
  | stopped => exact awake.keep rfl rfl rfl fun _ => id
  | stopping idle =>
      intro waiting watched
      have stopped : protocol.stopping.stage.request = none := idle
      exact absurd watched (not_watches stopped rfl waiting)

/-- A protocol at rest upon some chain. -/
def start (race : RaceAny) (chain : Confirmed Hash) : ProtocolBitcoindBlockchain race Hash where
  chain := chain

/-- The invariant of the waits. -/
structure Sound (protocol : ProtocolBitcoindBlockchain race Hash) : Prop where
  answered : protocol.Answered
  raced : protocol.Raced
  awake : protocol.Awake

theorem start_sound (chain : Confirmed Hash) : (start race chain).Sound where
  answered := ⟨by simp [start], by simp [start], by simp [start, handled, Stage.request]⟩
  raced := ⟨by simp [start], by simp [start], by simp [start], by simp [start], by simp [start]⟩
  awake := fun waiting watched => absurd watched (not_watches rfl rfl waiting)

theorem Sound.step (sound : protocol.Sound) (event : Event Hash) :
    (protocol.step event).Sound where
  answered := sound.answered.step sound.raced (step_stepped event)
  raced := sound.raced.step (step_stepped event)
  awake := sound.awake.step sound.raced (step_stepped event)

theorem run_sound (chain : Confirmed Hash) (events : List (Event Hash)) :
    (Run.final step (start race chain) events).Sound := by
  apply Run.always_final _ (start_sound chain)
  intro protocol event sound
  exact sound.step event

/-- An expiry of another waiter than the armed one does nothing. -/
theorem step_stale {id : Nat} (stale : protocol.waiter.map (·.id) ≠ some id) (code : Code) :
    protocol.step (.expiry id code) = protocol := by
  simp only [step]
  split_ifs
  · unfold handleWaitTimeout
    cases here : protocol.waiter with
    | none => rfl
    | some waiting =>
        have other : ¬waiting.id = id := by simpa [here] using stale
        exact if_neg other
  · rfl

/-- An event that finds the condition of the armed wait met answers it with the top. -/
theorem step_woken (raced : protocol.Raced) (live : protocol.stopped = false)
    (idle : protocol.idle = true) (posted : protocol.pending ≠ 0) {waiting : Waiter race Hash}
    (here : protocol.waiter = some waiting) (done : waitDone protocol.chain waiting = true) :
    (protocol.step .waitEvent).responses = protocol.responses ++
      [(waiting.id, .top protocol.chain.topHash protocol.chain.top)] := by
  simp only [step, idle, posted, ne_eq, not_false_eq_true, decide_true, Bool.and_self, if_true]
  unfold doWaitEvent
  simp only [here, done, if_true]
  rw [finish_eq (raced.armed waiting here)]
  simp [completeWait, live, sendTop, send]

/-- In every state the waits can reach: no request was answered twice; an expiry of
    another wait changes nothing, and the armed wait has kept its timer; with no
    event to come, unless a change of the chain was not posted, the armed wait's
    condition is not met; and an event that finds it met answers the wait with the top. -/
theorem waits_sound (race : RaceAny) (chain : Confirmed Hash) (events : List (Event Hash)) :
    let protocol := Run.final step (start race chain) events
    (protocol.responses.map Prod.fst).Nodup ∧
      (∀ id code, protocol.waiter.map (·.id) ≠ some id →
        protocol.step (.expiry id code) = protocol) ∧
      (∀ waiting, protocol.waiter = some waiting → waiting.timed = true →
        protocol.timer = some waiting.id) ∧
      (protocol.missed = false → protocol.pending = 0 → ∀ waiting,
        protocol.waiter = some waiting → waitDone protocol.chain waiting = false) ∧
      (protocol.stopped = false → protocol.idle = true → protocol.pending ≠ 0 → ∀ waiting,
        protocol.waiter = some waiting → waitDone protocol.chain waiting = true →
          (protocol.step .waitEvent).responses = protocol.responses ++
            [(waiting.id, .top protocol.chain.topHash protocol.chain.top)]) := by
  intro protocol
  have sound : protocol.Sound := run_sound chain events
  refine ⟨sound.answered.once, fun id code stale => step_stale stale code, sound.raced.timed, ?_,
    fun live idle posted waiting here done => step_woken sound.raced live idle posted here done⟩
  intro posted none waiting armed
  rcases sound.awake waiting (.inl armed) with undone | coming | missed
  · exact undone
  · exact absurd none coming
  · rw [posted] at missed
    cases missed

end ProtocolBitcoindBlockchain

/-- A race that calls its handler once, and upon its release if not before. -/
def raceOnce : RaceAny where
  State := Bool
  start := false
  finish finished code := (if finished then none else some code, true)
  release finished := if finished then none else some .operationFailed
  finish_start _ := rfl
  release_finished _ := rfl
  release_start code released := by
    simp only [Bool.false_eq_true, if_false, Option.some.injEq] at released
    exact released.symm

private def heightWait : List (Event Nat) :=
  [.request (.waitForBlockHeight (some 2) (some 10)), .advance, .advance, .advance,
    .change ⟨0, [1, 2]⟩]

/-- A wait for a height that the chain has come to, with the event to come. -/
theorem waits_sound_height :
    let protocol := Run.final ProtocolBitcoindBlockchain.step
      (ProtocolBitcoindBlockchain.start raceOnce ⟨0, [1]⟩) heightWait
    (protocol.responses.map Prod.fst).Nodup ∧
      (∀ id code, protocol.waiter.map (·.id) ≠ some id →
        protocol.step (.expiry id code) = protocol) ∧
      protocol.timer = some 0 ∧
      (protocol.missed = false → protocol.pending = 0 → ∀ waiting, protocol.waiter =
        some waiting → ProtocolBitcoindBlockchain.waitDone protocol.chain waiting = false) ∧
      (protocol.step .waitEvent).responses = [(0, .top 2 2)] := by
  intro protocol
  obtain ⟨once, stale, timed, slept, woken⟩ :=
    ProtocolBitcoindBlockchain.waits_sound raceOnce ⟨0, [1]⟩ heightWait
  exact ⟨once, stale, timed _ rfl rfl, slept, woken rfl rfl (by decide) _ rfl rfl⟩

/-- The expiry of a wait that the chain has met comes within the next wait, which
    stays armed. -/
example :
    let chain : Confirmed Nat := ⟨0, [1]⟩
    let arm (height : Nat) : List (Event Nat) :=
      [.request (.waitForBlockHeight (some height) (some 10)), .advance, .advance, .advance]
    let protocol := Run.final ProtocolBitcoindBlockchain.step
      (ProtocolBitcoindBlockchain.start raceOnce chain)
      (arm 2 ++ [.change ⟨0, [1, 2]⟩, .waitEvent] ++ arm 3 ++ [.expiry 0 .success])
    protocol.responses = [(0, .top 2 2)] ∧ protocol.timer = some 1 ∧
      protocol.waiter.map (·.id) = some 1 := by
  decide +kernel

end LibbitcoinServer.Bitcoind
