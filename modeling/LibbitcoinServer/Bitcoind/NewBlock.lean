import LibbitcoinServer.Bitcoind.Wait

/-! # Waiting for a new block

A wait for a new block is against the block that was the top when the request was
handled, or the one that the request states.  Its waiter keeps the height after
that of the top, read once the hashes were compared, and the block is not looked at again.
-/

namespace LibbitcoinServer.Bitcoind.ProtocolBitcoindBlockchain

variable {race : RaceAny} {Hash : Type} [DecidableEq Hash]
  {protocol after : ProtocolBitcoindBlockchain race Hash} {event : Event Hash}

/-- The armed waiter waits for a new block, and do_wait_event runs with another block on
    top than the one it waits against. -/
structure Outdated (protocol : ProtocolBitcoindBlockchain race Hash) (event : Event Hash)
    (waiting : Waiter race Hash) : Prop where
  runs : event = .waitEvent
  idle : protocol.stage.request = none
  posted : protocol.pending ≠ 0
  armed : protocol.waiter = some waiting
  newBlock : waiting.type = .newBlock
  moved : waiting.against ≠ some protocol.chain.topHash

/-- A step completes the wait that it finds outdated, and leaves no wait armed, with no
    event to come, against another block than the top. -/
structure Wakes (protocol : ProtocolBitcoindBlockchain race Hash) (event : Event Hash) : Prop where
  completes : ∀ waiting, protocol.Outdated event waiting →
    (protocol.step event).waiter = none ∧
      (protocol.stopped = false → (protocol.step event).responses = protocol.responses ++
        [(waiting.id, .top protocol.chain.topHash protocol.chain.top)])
  current : (protocol.step event).pending = 0 → (protocol.step event).missed = false →
    ∀ waiting, (protocol.step event).waiter = some waiting → waiting.type = .newBlock →
      waiting.against = some (protocol.step event).chain.topHash

/-- The chain of an outdated wait has reached the waiter's height. -/
def Higher (protocol : ProtocolBitcoindBlockchain race Hash) (event : Event Hash) : Prop :=
  ∀ waiting, protocol.Outdated event waiting → waiting.height ≤ protocol.chain.top

/-- The block that the request under way, or the armed wait, is against. -/
def Against (protocol : ProtocolBitcoindBlockchain race Hash) (hash : Option Hash) : Prop :=
  (∃ id given timeout, protocol.stage = .compared id given timeout ∧ hash = some given) ∨
    ∃ waiting, waiting.type = .newBlock ∧ hash = waiting.against ∧
      (protocol.Watches waiting ∨ ∃ timeout, protocol.stage = .arming waiting timeout)

/-- The block waited against is the top, or an event is to come. -/
def Tracked (protocol : ProtocolBitcoindBlockchain race Hash) : Prop :=
  ∀ hash, protocol.Against hash →
    hash = some protocol.chain.topHash ∨ protocol.pending ≠ 0 ∨ protocol.missed = true

omit [DecidableEq Hash] in
theorem Tracked.keep (tracked : protocol.Tracked) (chain : after.chain = protocol.chain)
    (pending : after.pending = protocol.pending) (missed : after.missed = protocol.missed)
    (fewer : ∀ hash, after.Against hash → protocol.Against hash) : after.Tracked := by
  intro hash against
  rw [chain, pending, missed]
  exact tracked hash (fewer hash against)

omit [DecidableEq Hash] in
/-- Between handlers only the armed wait is against a block. -/
theorem against_iff_armed (idle : protocol.stage.request = none) (hash : Option Hash) :
    protocol.Against hash ↔
      ∃ waiting, waiting.type = .newBlock ∧ hash = waiting.against ∧
        protocol.waiter = some waiting := by
  constructor
  · rintro (⟨_, _, _, here, _⟩ | ⟨waiting, newBlock, same, (armed | ⟨_, here⟩) | ⟨_, here⟩⟩)
    · rw [here] at idle
      cases idle
    · exact ⟨waiting, newBlock, same, armed⟩
    · rw [here] at idle
      cases idle
    · rw [here] at idle
      cases idle
  · rintro ⟨waiting, newBlock, same, armed⟩
    exact .inr ⟨waiting, newBlock, same, .inl (.inl armed)⟩

omit [DecidableEq Hash] in
/-- An idle strand without a waiter waits against nothing. -/
theorem not_against (idle : protocol.stage.request = none) (free : protocol.waiter = none)
    (hash : Option Hash) : ¬protocol.Against hash := by
  rw [against_iff_armed idle]
  rintro ⟨waiting, _, _, armed⟩
  rw [free] at armed
  cases armed

/-- The block that a request is against where the strand stands within its handler. -/
def StageAgainst (stage : Stage race Hash) (hash : Option Hash) : Prop :=
  match stage with
  | .idle => False
  | .opened _ _ => False
  | .compared _ given _ => hash = some given
  | .arming waiting _ => waiting.type = .newBlock ∧ hash = waiting.against
  | .checked waiting _ => waiting.type = .newBlock ∧ hash = waiting.against

omit [DecidableEq Hash] in
/-- Without a waiter only the request under way is against a block. -/
theorem against_iff_stage (free : protocol.waiter = none) (hash : Option Hash) :
    protocol.Against hash ↔ StageAgainst protocol.stage hash := by
  have unarmed : ∀ waiting, protocol.waiter ≠ some waiting := by simp [free]
  unfold ProtocolBitcoindBlockchain.Against Watches
  cases protocol.stage with
  | idle => simp [StageAgainst, unarmed]
  | opened id method => simp [StageAgainst, unarmed]
  | compared id given timeout => simp [StageAgainst, unarmed]
  | arming waiting timeout => simp [StageAgainst, unarmed]
  | checked waiting timeout => simp [StageAgainst, unarmed]

omit [DecidableEq Hash] in
/-- A stage against what the stage before it was against. -/
theorem Tracked.stage (tracked : protocol.Tracked) (free : protocol.waiter = none)
    {stage : Stage race Hash}
    (fewer : ∀ hash, StageAgainst stage hash → StageAgainst protocol.stage hash) :
    Tracked { protocol with stage } := by
  refine tracked.keep rfl rfl rfl ?_
  intro hash against
  have staged : StageAgainst stage hash := (against_iff_stage (by exact free) hash).mp against
  exact (against_iff_stage free hash).mpr (fewer hash staged)

theorem waitDone_newBlock {chain : Confirmed Hash} {waiting : Waiter race Hash}
    (newBlock : waiting.type = .newBlock) :
    waitDone chain waiting = decide (waiting.height ≤ chain.top) := by
  simp only [waitDone, newBlock]

omit [DecidableEq Hash] in
theorem Tracked.finish (idle : protocol.stage.request = none) (waiting : Waiter race Hash)
    (code : Code) : (protocol.finish waiting code).Tracked := by
  intro hash against
  obtain ⟨free, stage⟩ := protocol.finish_waiter waiting code
  exact absurd against (not_against (by rw [stage, idle]) free hash)

theorem Tracked.step (tracked : protocol.Tracked) (raced : protocol.Raced)
    (higher : protocol.Higher event) (stepped : Stepped protocol event after) : after.Tracked := by
  -- While a request is handled no waiter is armed.
  have alone : ∀ {id}, protocol.stage.request = some id → protocol.waiter = none := by
    intro id here
    exact raced.apart (by simp [here])
  cases stepped with
  | ignored => exact tracked
  | requested method idle free live =>
      have opened : Tracked { protocol with stage := .opened protocol.requests method } :=
        tracked.stage free fun _ => False.elim
      exact opened.keep rfl rfl rfl fun _ => id
  | compared id timeout here =>
      intro hash against
      exact .inl ((against_iff_stage (by exact alone here) hash).mp against)
  | arming waiting timeout here fresh other =>
      apply tracked.stage (alone here)
      rintro hash ⟨newBlock, _⟩
      exact absurd newBlock other
  | heightRead id given timeout here =>
      apply tracked.stage (alone (by rw [here, Stage.request]))
      rintro hash ⟨_, same⟩
      rw [here]
      exact same
  | checked waiting timeout here undone =>
      apply tracked.stage (alone (by rw [here, Stage.request]))
      intro hash against
      rw [here]
      exact against
  | answered id response here =>
      intro hash against
      apply absurd against
      apply not_against
      · rfl
      · exact alone here
  | armed waiting timeout timed here =>
      intro hash against
      obtain ⟨_, newBlock, same, ⟨⟩⟩ := (against_iff_armed rfl hash).mp against
      apply tracked
      rw [against_iff_stage (alone (by rw [here, Stage.request])), here]
      exact ⟨newBlock, same⟩
  | changed chain =>
      intro hash against
      unfold handleChase
      split_ifs
      · exact .inr (.inr rfl)
      · exact .inr (.inl (Nat.succ_ne_zero _))
  | spent idle posted undone =>
      intro hash against
      obtain ⟨waiting, newBlock, rfl, armed⟩ := (against_iff_armed idle hash).mp against
      left
      by_contra moved
      have reached := higher waiting ⟨rfl, idle, posted, armed, newBlock, moved⟩
      have unmet := undone waiting armed
      rw [waitDone_newBlock newBlock] at unmet
      exact of_decide_eq_false unmet reached
  | woken waiting idle posted here =>
      have spent : { protocol with pending := protocol.pending - 1 }.stage.request = none := idle
      exact Tracked.finish spent waiting .success
  | expired waiting code idle here => exact Tracked.finish idle waiting code
  | released waiting index idle here =>
      rcases releaseWaiter_cases raced here with same | ⟨_, same⟩
      · rw [same]
        exact tracked.keep rfl rfl rfl fun _ => id
      · rw [same]
        exact tracked.keep rfl rfl rfl fun _ => id
  | stopped => exact tracked.keep rfl rfl rfl fun _ => id
  | stopping idle =>
      intro hash against
      have stopped : protocol.stopping.stage.request = none := idle
      exact absurd against (not_against stopped rfl hash)

/-- do_wait_event upon an armed waiter. -/
theorem step_waitEvent {waiting : Waiter race Hash} (idle : protocol.stage.request = none)
    (posted : protocol.pending ≠ 0) (armed : protocol.waiter = some waiting) :
    protocol.step .waitEvent =
      if waitDone protocol.chain waiting then
        { protocol with pending := protocol.pending - 1 }.finish waiting .success
      else { protocol with pending := protocol.pending - 1 } := by
  have ready : (protocol.idle && decide (protocol.pending ≠ 0)) = true := by
    simp [ProtocolBitcoindBlockchain.idle, idle, posted]
  simp only [step]
  rw [if_pos ready]
  simp only [doWaitEvent, armed]

/-- A step wakes what it finds outdated exactly when the chain has reached its height. -/
theorem wakes_iff_higher (raced : protocol.Raced) (tracked : protocol.Tracked) :
    protocol.Wakes event ↔ protocol.Higher event := by
  constructor
  · intro wakes waiting outdated
    have gone := (wakes.completes waiting outdated).1
    obtain ⟨rfl, idle, posted, armed, newBlock, moved⟩ := outdated
    rw [step_waitEvent idle posted armed, waitDone_newBlock newBlock] at gone
    by_contra low
    rw [if_neg (by simpa using low)] at gone
    simp [armed] at gone
  · intro higher
    refine ⟨?_, ?_⟩
    · intro waiting outdated
      have reached := higher waiting outdated
      obtain ⟨rfl, idle, posted, armed, newBlock, moved⟩ := outdated
      rw [step_waitEvent idle posted armed, waitDone_newBlock newBlock,
        if_pos (by simpa using reached)]
      refine ⟨(finish_waiter waiting .success).1, ?_⟩
      intro live
      rw [finish_eq (raced.armed waiting armed)]
      simp [completeWait, live, sendTop, send]
    · intro none posted waiting armed newBlock
      have after := tracked.step raced higher (step_stepped event)
      rcases after _ (.inr ⟨waiting, newBlock, rfl, .inl (.inl armed)⟩) with same | coming | missed
      · exact same
      · exact absurd none coming
      · rw [posted] at missed
        cases missed

/-- In any run, every do_wait_event completes the new block wait that it finds outdated,
    and none is left armed against another block, exactly when the chain of every wait
    found outdated has reached its height. -/
theorem wakes_iff_higher_run (race : RaceAny) (chain : Confirmed Hash)
    (events : List (Event Hash)) :
    (∀ visit ∈ Run.steps step (start race chain) events, visit.1.Wakes visit.2) ↔
      ∀ visit ∈ Run.steps step (start race chain) events, visit.1.Higher visit.2 := by
  apply Run.steps_congr (fun protocol => protocol.Sound ∧ protocol.Tracked) Wakes
    (fun _ _ => True) Higher
  · intro protocol event inside _ wakes
    have higher := (wakes_iff_higher inside.1.raced inside.2).mp wakes
    exact ⟨inside.1.step event, inside.2.step inside.1.raced higher (step_stepped event)⟩
  · intro protocol event inside _
    exact wakes_iff_higher inside.1.raced inside.2
  · exact ⟨start_sound chain, fun hash against => absurd against (not_against rfl rfl hash)⟩
  · simp

/-- A wait for a new block, and a reorganization to another block of the same height. -/
private def replaced : List (Event Nat) :=
  [.request (.waitForNewBlock (some 0) none), .advance, .advance, .advance, .advance,
    .change ⟨0, [2]⟩, .waitEvent]

/-- The wait stays armed upon a top that was replaced at its height. -/
theorem replaced_armed :
    ¬∀ (race : RaceAny) (chain : Confirmed Nat) (events : List (Event Nat)),
      ∀ visit ∈ Run.steps step (start race chain) events, visit.1.Wakes visit.2 := by
  intro all
  have wakes := all raceOnce ⟨0, [1]⟩ replaced
    (Run.final step (start raceOnce ⟨0, [1]⟩) replaced.dropLast, .waitEvent)
    (by simp [replaced, Run.steps, Run.final])
  have armed : ((Run.final step (start raceOnce ⟨0, [1]⟩) replaced.dropLast).waiter).map
      (fun waiting => (waiting.type, waiting.against)) = some (.newBlock, some 1) := by
    decide +kernel
  obtain ⟨waiting, here, same⟩ := Option.map_eq_some_iff.mp armed
  simp only [Prod.mk.injEq] at same
  have gone := (wakes.completes waiting
    ⟨rfl, by decide +kernel, by decide +kernel, here, same.1, by
      rw [same.2]
      decide +kernel⟩).1
  revert gone
  decide +kernel

end LibbitcoinServer.Bitcoind.ProtocolBitcoindBlockchain
