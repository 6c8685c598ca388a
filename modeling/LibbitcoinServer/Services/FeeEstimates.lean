import LibbitcoinServer.Lib.Waiting
import LibbitcoinServer.Services.FeeTarget

/-! # Estimates in many turns

The estimates of esplora are asked for one at a time.  Each completes on a thread of the node,
its handler is posted to the channel, and the next is asked for by that handler.  Whatever
comes in between, the reply is that of a plain loop over the targets.
-/

namespace LibbitcoinServer.Services

/-- The codes that an estimate completes with, and its fee. -/
inductive Estimated where
  | success (fee : UInt64)
  | estimateFalse
  | estimateDisabled
  | estimatePremature
  | estimatesFailed
  deriving DecidableEq

def Estimated.disabled : Estimated → Bool
  | .estimateFalse | .estimateDisabled | .estimatePremature => true
  | .success _ | .estimatesFailed => false

/-- `complete_estimate`, up to the next estimate. -/
def completeEstimate (estimates : Estimates) (target : Nat) (code : Estimated) :
    Except Response Estimates :=
  if code.disabled then .ok estimates
  else
    match code with
    | .success fee => .ok (Function.update estimates (toString target) (some fee))
    | _ => .error .internalServerError

/-- `next_estimate`, `handle_estimate` and `complete_estimate`. -/
def estimateLoop : Waiting Nat Estimated Estimates Response where
  items := targets
  take := completeEstimate
  finish := .json

def Estimated.answer : Estimated → Answer
  | .success fee => .fee fee
  | .estimateFalse | .estimateDisabled | .estimatePremature => .unavailable
  | .estimatesFailed => .failed

/-- The estimates that are asked for, in order. -/
def asked (index : Nat) : Query := ⟨targets.getD index 0, .basic⟩

theorem resultFrom_estimates (estimate : Query → Estimated) {later : List Nat} {index : Nat}
    (rest : targets.drop index = later) (estimates : Estimates) :
    estimateLoop.resultFrom (fun index => estimate (asked index)) index estimates later =
      nextEstimate (fun query => (estimate query).answer) estimates later := by
  induction later generalizing index estimates with
  | nil => rfl
  | cons target later ih =>
      have here : targets[index]? = some target := by
        have first := congrArg (fun rest => rest[0]?) rest
        simpa using first
      have next : targets.drop (index + 1) = later := by
        rw [← List.drop_drop, rest]
        rfl
      have query : asked index = ⟨target, .basic⟩ := by
        rw [asked, List.getD_eq_getElem?_getD, here, Option.getD_some]
      unfold Waiting.resultFrom nextEstimate
      simp only [query, estimateLoop, completeEstimate]
      cases estimate ⟨target, .basic⟩ with
      | success fee => exact ih next _
      | estimateFalse | estimateDisabled | estimatePremature => exact ih next _
      | estimatesFailed => rfl

theorem result_estimates (estimate : Query → Estimated) :
    estimateLoop.result (fun index => estimate (asked index)) (fun _ => none) =
      handleGetFeeEstimates true fun query => (estimate query).answer :=
  resultFrom_estimates estimate rfl _

theorem callsFrom_estimates (answers : Nat → Estimated) {later : List Nat} {index : Nat}
    {before after : Estimates}
    (sent : estimateLoop.resultFrom answers index before later = .json after) :
    estimateLoop.callsFrom answers index before later = later := by
  induction later generalizing index before with
  | nil => rfl
  | cons target later ih =>
      unfold Waiting.resultFrom at sent
      unfold Waiting.callsFrom
      cases taken : estimateLoop.take before target (answers index) with
      | error out =>
          simp only [taken] at sent
          simp only [estimateLoop, completeEstimate] at taken
          split_ifs at taken
          cases found : answers index with
          | success fee =>
              rw [found] at taken
              cases taken
          | estimateFalse | estimateDisabled | estimatePremature | estimatesFailed =>
              rw [found] at taken
              cases taken
              cases sent
      | ok next =>
          simp only [taken] at sent
          exact congrArg (target :: ·) (ih sent)

/-- In every run of a request of the estimates, at most one reply is sent, it is the reply of
    the plain loop, and no estimate is asked for twice or out of order.  A json reply has the
    fee of each target that has one, and no other.  Where the channel is not stopped the reply
    is sent once the estimates are there. -/
theorem feeEstimates_run (estimate : Query → Estimated) (actions : List Waiting.Action) :
    let answers := fun index => estimate (asked index)
    let reply := handleGetFeeEstimates true fun query => (estimate query).answer
    let after := Run.final (estimateLoop.step answers) (Waiting.begin fun _ => none) actions
    after.calls <+: targets ∧ (after.sent = [] ∨ after.sent = [reply]) ∧
      (∀ estimates, .json estimates ∈ after.sent → after.calls = targets ∧
        ∀ blocks, estimates (toString blocks) =
          if blocks ∈ targets then (estimate ⟨blocks, .basic⟩).answer.fee? else none) ∧
      ((∀ action ∈ actions, action ≠ .stop) →
        (Run.final (estimateLoop.step answers) (Waiting.begin fun _ => none)
          (actions ++ Waiting.rounds 29)).sent = [reply]) := by
  intro answers reply after
  have result : estimateLoop.result answers (fun _ => none) = reply := result_estimates estimate
  obtain ⟨calls, sent⟩ := Waiting.run_sound estimateLoop answers (fun _ => none) actions
  rw [result] at sent
  refine ⟨?_, sent.imp_right And.left, ?_, ?_⟩
  · exact calls.trans (Waiting.callsFrom_prefix answers targets 0 _)
  · intro estimates member
    cases sent with
    | inl nothing =>
        rw [show after.sent = [] from nothing] at member
        cases member
    | inr done =>
        rw [show after.sent = [reply] from done.1, List.mem_singleton] at member
        have whole : estimateLoop.allCalls answers (fun _ => none) = targets :=
          callsFrom_estimates answers (result.trans member.symm)
        refine ⟨done.2.trans whole, fun blocks => ?_⟩
        have entry := nextEstimate_entry member.symm blocks
        rw [Option.or_none] at entry
        exact entry
  · intro goes
    have complete := (Waiting.run_complete estimateLoop answers (fun _ => none) goes).1
    rw [result] at complete
    exact complete

end LibbitcoinServer.Services
