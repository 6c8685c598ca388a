import LibbitcoinServer.Electrum.Version
import LibbitcoinServer.Lib.Text

/-! # Targets of fee estimates

Four services ask one estimator for the fee of a confirmation within a number of blocks.
The estimator counts the next block as zero.  Two of the services take one from the
number before they ask, and two of them ask for the number itself.
-/

namespace LibbitcoinServer.Services

/-- `node::estimator::mode`. -/
inductive Mode where
  | basic
  | geometric
  | economical
  | conservative
  | unknown
  deriving DecidableEq

structure Query where
  target : Nat
  mode : Mode
  deriving DecidableEq

inductive Refusal where
  | invalidParameter
  | invalidParams
  | badRequest
  deriving DecidableEq

/-- A target that bitcoind and btcd take. -/
def toTarget (horizon : UInt64) (number : ℚ) : Option Nat :=
  match Text.toInteger UInt64.size number with
  | none => none
  | some target => if target = 0 ∨ horizon.toNat < target then none else some target

def modeFromBitcoind (mode : String) : Mode :=
  let lower := mode.toLower
  if lower = "unset" ∨ lower = "economical" then .economical
  else if lower = "conservative" then .conservative
  else .unknown

def handleEstimateSmartFee (horizon : UInt64) (confTarget : ℚ) (estimateMode : String) :
    Except Refusal Query :=
  match toTarget horizon confTarget with
  | none => .error .invalidParameter
  | some target =>
      let mode := modeFromBitcoind estimateMode
      if mode = .unknown then .error .invalidParameter
      else .ok ⟨target - 1, mode⟩

def handleEstimateFee (horizon : UInt64) (numblocks : ℚ) : Except Refusal Query :=
  match toTarget horizon numblocks with
  | none => .error .invalidParams
  | some target => .ok ⟨target - 1, .basic⟩

def modeFromString (mode : String) : Mode :=
  if mode = "" then .basic
  else if mode = "basic" then .basic
  else if mode = "geometric" then .geometric
  else if mode = "economical" then .economical
  else if mode = "conservative" then .conservative
  else .unknown

def handleBlockchainEstimateFee (version : Electrum.Version) (number : ℚ) (mode : String) :
    Except Refusal Query :=
  if version < .v1_0 then .error .badRequest
  else
    match Text.toInteger UInt64.size number with
    | none => .error .badRequest
    | some target =>
        if mode ≠ "" ∧ version < .v1_6 then .error .badRequest
        else if modeFromString mode = .unknown then .error .badRequest
        else .ok ⟨target, modeFromString mode⟩

/-! ## The estimates of esplora -/

/-- What an estimate completes with. -/
inductive Answer where
  | fee (value : UInt64)
  | unavailable
  | failed
  -- The channel is stopped by then.
  | stopped

def Answer.fee? : Answer → Option UInt64
  | .fee value => some value
  | _ => none

/-- The entries of a response, by their keys. -/
abbrev Estimates := String → Option UInt64

inductive Response where
  | json (estimates : Estimates)
  | internalServerError
  | notAcceptable
  | none

def targets : List Nat :=
  [1, 2, 3, 4, 5, 6, 7, 8, 9, 10, 11, 12, 13, 14, 15, 16, 17, 18, 19, 20,
    21, 22, 23, 24, 25, 144, 504, 1008]

/-- `next_estimate` and `complete_estimate`, over the targets from the index on. -/
def nextEstimate (estimate : Query → Answer) (estimates : Estimates) : List Nat → Response
  | [] => .json estimates
  | target :: later =>
      match estimate ⟨target, .basic⟩ with
      | .stopped => .none
      | .failed => .internalServerError
      | .unavailable => nextEstimate estimate estimates later
      | .fee value =>
          nextEstimate estimate (Function.update estimates (toString target) (some value)) later

def handleGetFeeEstimates (json : Bool) (estimate : Query → Answer) : Response :=
  if !json then .notAcceptable else nextEstimate estimate (fun _ => none) targets

/-! ## What is asked of the estimator -/

theorem toTarget_natCast {horizon : UInt64} {blocks : Nat} (positive : 1 ≤ blocks)
    (inside : blocks ≤ horizon.toNat) : toTarget horizon blocks = some blocks := by
  have small : blocks < UInt64.size := inside.trans_lt horizon.toNat_lt_size
  have refused : ¬(blocks = 0 ∨ horizon.toNat < blocks) := by omega
  simp only [toTarget, Text.toInteger_natCast small, if_neg refused]

/-- The entry of a target is the answer for the target. -/
theorem nextEstimate_entry {estimate : Query → Answer} {before after : Estimates}
    {remaining : List Nat} (sent : nextEstimate estimate before remaining = .json after)
    (blocks : Nat) :
    after (toString blocks) =
      if blocks ∈ remaining then (estimate ⟨blocks, .basic⟩).fee?.or (before (toString blocks))
      else before (toString blocks) := by
  induction remaining generalizing before with
  | nil =>
      obtain rfl := Response.json.inj sent
      simp
  | cons target later ih =>
      unfold nextEstimate at sent
      split at sent
      · cases sent
      · cases sent
      · rename_i missing
        rw [ih sent]
        by_cases same : blocks = target
        · subst same
          simp [missing, Answer.fee?]
        · simp [same]
      · rename_i fee found
        rw [ih sent]
        by_cases same : blocks = target
        · subst same
          by_cases again : blocks ∈ later <;> simp [again, found, Answer.fee?]
        · have apart : toString blocks ≠ toString target :=
            fun keyed => same (Text.toString_injective keyed)
          simp only [Function.update_of_ne apart, List.mem_cons, same, false_or]

theorem feeEstimates_entry {estimate : Query → Answer} {estimates : Estimates} {blocks : Nat}
    (sent : handleGetFeeEstimates true estimate = .json estimates) (listed : blocks ∈ targets) :
    estimates (toString blocks) = (estimate ⟨blocks, .basic⟩).fee? := by
  have entry := nextEstimate_entry sent blocks
  rwa [if_pos listed, Option.or_none] at entry

/-- The queries of the services for a number of blocks. -/
structure Targets (horizon : UInt64) (blocks bitcoind btcd electrum esplora : Nat) : Prop where
  bitcoind : ∀ mode query, handleEstimateSmartFee horizon blocks mode = .ok query →
    query.target = bitcoind
  btcd : ∀ query, handleEstimateFee horizon blocks = .ok query → query.target = btcd
  electrum : ∀ version mode query, handleBlockchainEstimateFee version blocks mode = .ok query →
    query.target = electrum
  esplora : blocks ∈ targets → ∀ estimate estimates,
    handleGetFeeEstimates true estimate = .json estimates →
      estimates (toString blocks) = (estimate ⟨esplora, .basic⟩).fee?

theorem estimateSmartFee_target {horizon : UInt64} {blocks : Nat} (positive : 1 ≤ blocks)
    (inside : blocks ≤ horizon.toNat) {mode : String} {query : Query}
    (asked : handleEstimateSmartFee horizon blocks mode = .ok query) :
    query.target = blocks - 1 := by
  unfold handleEstimateSmartFee at asked
  simp only [toTarget_natCast positive inside] at asked
  split at asked
  · cases asked
  · cases asked
    rfl

theorem estimateFee_asks {horizon : UInt64} {blocks : Nat} (positive : 1 ≤ blocks)
    (inside : blocks ≤ horizon.toNat) :
    handleEstimateFee horizon blocks = .ok ⟨blocks - 1, .basic⟩ := by
  simp only [handleEstimateFee, toTarget_natCast positive inside]

theorem blockchainEstimateFee_target {blocks : Nat} (small : blocks < UInt64.size)
    {version : Electrum.Version} {mode : String} {query : Query}
    (asked : handleBlockchainEstimateFee version blocks mode = .ok query) :
    query.target = blocks := by
  unfold handleBlockchainEstimateFee at asked
  simp only [Text.toInteger_natCast small] at asked
  split at asked
  · cases asked
  · split at asked
    · cases asked
    · split at asked
      · cases asked
      · cases asked
        rfl

theorem blockchainEstimateFee_asks {blocks : Nat} (small : blocks < UInt64.size) :
    handleBlockchainEstimateFee .v1_0 blocks "" = .ok ⟨blocks, .basic⟩ := by
  have late : ¬Electrum.Version.v1_0 < .v1_0 := by decide
  simp [handleBlockchainEstimateFee, Text.toInteger_natCast small, if_neg late, modeFromString]

/-- Two of the services ask for a block later than the others, whatever the number is. -/
theorem targets_never_agree (horizon : UInt64) {blocks : Nat} (positive : 1 ≤ blocks)
    (inside : blocks ≤ horizon.toNat) :
    Targets horizon blocks (blocks - 1) (blocks - 1) blocks blocks ∧
      ∀ target, ¬Targets horizon blocks target target target target := by
  have small : blocks < UInt64.size := inside.trans_lt horizon.toNat_lt_size
  constructor
  · exact {
      bitcoind := fun mode query asked => estimateSmartFee_target positive inside asked
      btcd := fun query asked => by
        rw [estimateFee_asks positive inside] at asked
        cases asked
        rfl
      electrum := fun version mode query asked => blockchainEstimateFee_target small asked
      esplora := fun listed estimate estimates sent => feeEstimates_entry sent listed }
  · intro target agree
    have first := agree.btcd _ (estimateFee_asks positive inside)
    have second := agree.electrum _ _ _ (blockchainEstimateFee_asks small)
    simp only at first second
    omega

/-- The next block is asked for as zero, and as one. -/
theorem targets_never_agree_next :
    Targets 1008 1 0 0 1 1 ∧ ∀ target, ¬Targets 1008 1 target target target target :=
  targets_never_agree 1008 le_rfl (by decide)

-- The fee of the next block but one stands under the key of the next block.
theorem next_block_asked_twice :
    handleEstimateSmartFee 1008 1 "economical" = .ok ⟨0, .economical⟩ ∧
    handleEstimateFee 1008 1 = .ok ⟨0, .basic⟩ ∧
    handleBlockchainEstimateFee .v1_0 1 "" = .ok ⟨1, .basic⟩ ∧
    (∃ estimates, handleGetFeeEstimates true (fun query => .fee (.ofNat query.target)) =
      .json estimates ∧ estimates "1" = some 1) ∧
    ¬Targets 1008 1 0 0 0 0 := by
  obtain ⟨estimates, sent⟩ : ∃ estimates,
      handleGetFeeEstimates true (fun query => .fee (.ofNat query.target)) = .json estimates :=
    ⟨_, rfl⟩
  have listed : 1 ∈ targets := by decide
  refine ⟨by decide +kernel, by decide +kernel, by decide +kernel,
    ⟨estimates, sent, feeEstimates_entry sent listed⟩, ?_⟩
  intro agree
  have asked := agree.electrum .v1_0 "" ⟨1, .basic⟩ (by decide +kernel)
  cases asked

end LibbitcoinServer.Services
