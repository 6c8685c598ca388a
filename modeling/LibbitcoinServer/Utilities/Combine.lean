import LibbitcoinServer.Utilities.Endorsements
import Mathlib.Tactic

/-! # An input combined from its variants

The variants of a transaction carry parts of its endorsements.  A multisig input takes the
script that is embedded in the first candidate that embeds one, and the endorsements of
all.  The embedded script is not compared with the program that the output pays to.
-/

namespace LibbitcoinServer.Utilities

/-! ## The code -/

/-- `bitcoind` errors, of which one is returned here. -/
inductive CombineError where
  | verifyError
  deriving DecidableEq

/-- What the store answers for the point that an input spends. -/
structure Prevouts where
  output : Point → Option Output
  isConfirmedSpent : Point → Bool

def isPayScriptHashPattern : Script → Bool
  | [.opcode hash160, .push hash, .opcode equal] =>
      hash160 = 0xa9 ∧ hash.length = 20 ∧ equal = 0x87
  | _ => false

def isPayWitnessScriptHashPattern : Script → Bool
  | [.opcode version, .push program] => version = 0 ∧ program.length = 32
  | _ => false

namespace Chain

variable {Key Signature : Type} (chain : Chain Key Signature)

/-- Bare multisig, endorsements merged across candidate input scripts. -/
def bareMultisig (base : Transaction) (index : Nat) (input : Input) (prevout : Output)
    (scripts : List Script) : Option Input :=
  if chain.multisigRequired prevout.script ≠ 0 then
    let sigs := scripts.flatMap chain.endorsements
    if sigs ≠ [] then
      some ⟨input.point, chain.mergeEndorsements base index prevout.value prevout.script
        .unversioned sigs, [], input.sequence⟩
    else none
  else none

/-- p2sh, endorsements merged when the embedded script is multisig. -/
def scriptHash (base : Transaction) (index : Nat) (input : Input) (prevout : Output)
    (scripts : List Script) : Option Input :=
  if isPayScriptHashPattern prevout.script then
    scripts.findSome? fun candidate =>
      match chain.extractSigopScript candidate prevout.script with
      | none => none
      | some embedded =>
          if chain.multisigRequired embedded = 0 then none
          else
            let sigs := scripts.flatMap fun other =>
              if other = [] then [] else chain.endorsements other.dropLast
            let ops := chain.mergeEndorsements base index prevout.value embedded .unversioned sigs
            some ⟨input.point, ops ++ [.push (chain.toData embedded)], [], input.sequence⟩
  else none

/-- The endorsements of the stacks, each the form of signed multisig without its script. -/
def stackedEndorsements (witnesses : List (List Chunk)) : List Chunk :=
  witnesses.flatMap fun elements =>
    if elements.length < 2 then [] else elements.tail.dropLast.filter chain.isEndorsement

/-- What the loop over the stacks makes of one of them. -/
def mergedStack (base : Transaction) (index : Nat) (input : Input) (value : UInt64)
    (witnesses : List (List Chunk)) (stack : List Chunk) : Option Input :=
  match stack.getLast? with
  | none => none
  | some last =>
      let embedded := chain.fromData last
      if chain.multisigRequired embedded = 0 then none
      else
        let sigs := chain.stackedEndorsements witnesses
        let ops := chain.mergeEndorsements base index value embedded .segwit sigs
        let stacked := [] :: (ops.map Operation.data).filter (· ≠ [])
        some ⟨input.point, [], stacked ++ [last], input.sequence⟩

/-- p2wsh, endorsements merged when the embedded script is multisig. -/
def witnessScriptHash (base : Transaction) (index : Nat) (input : Input) (prevout : Output)
    (witnesses : List (List Chunk)) : Option Input :=
  if isPayWitnessScriptHashPattern prevout.script then
    witnesses.findSome? (chain.mergedStack base index input prevout.value witnesses)
  else none

/-- The first endorsing candidate wins (no partial forms). -/
def endorsing (input : Input) (scripts : List Script) (witnesses : List (List Chunk)) : Input :=
  ⟨input.point, (scripts.find? (· ≠ [])).getD input.script,
    (witnesses.find? (· ≠ [])).getD input.witness, input.sequence⟩

/-- The inputs of the variants at a position.  A variant with fewer contributes none. -/
def candidates (base : Transaction) (others : List Transaction) (index : Nat) : List Input :=
  (base :: others).filterMap fun variant => variant.inputs[index]?

/-- The combined input of the variants at a position of the first of them. -/
def combineInput (prevouts : Prevouts) (base : Transaction) (others : List Transaction)
    (index : Fin base.inputs.length) : Except CombineError Input :=
  let input := base.inputs.get index
  match prevouts.output input.point with
  | none => .error .verifyError
  | some prevout =>
      if prevouts.isConfirmedSpent input.point then .error .verifyError
      else
        let scripts := (candidates base others index).map Input.script
        let witnesses := (candidates base others index).map Input.witness
        match chain.bareMultisig base index input prevout scripts with
        | some combined => .ok combined
        | none =>
            match chain.scriptHash base index input prevout scripts with
            | some combined => .ok combined
            | none =>
                match chain.witnessScriptHash base index input prevout witnesses with
                | some combined => .ok combined
                | none => .ok (endorsing input scripts witnesses)

/-! ## The stack that is merged -/

/-- The last element of a stack, where it is a script of multisig pattern. -/
def embeds (stack : List Chunk) : Option Chunk :=
  stack.getLast?.filter fun last => chain.multisigRequired (chain.fromData last) ≠ 0

variable (base : Transaction) (index : Nat) (input : Input) (value : UInt64)
  (witnesses : List (List Chunk))

/-- The endorsements merged for a script, from the stacks of all candidates. -/
def stacked (script : Chunk) : List Chunk :=
  (chain.pairs base index value (chain.fromData script) .segwit
    (chain.stackedEndorsements witnesses)).map
      fun pair => (chain.stackedEndorsements witnesses).getD pair.2 []

theorem mergedStack_eq (stack : List Chunk) :
    chain.mergedStack base index input value witnesses stack =
      (chain.embeds stack).map fun script =>
        ⟨input.point, [], [] :: chain.stacked base index value witnesses script ++ [script],
          input.sequence⟩ := by
  unfold mergedStack embeds stacked
  cases stack.getLast? with
  | none => rfl
  | some last =>
      by_cases multisig : chain.multisigRequired (chain.fromData last) = 0
      · simp [multisig]
      · dsimp only
        rw [if_neg multisig, data_mergeEndorsements]
        simp [multisig]

/-- The script of the first stack that embeds one. -/
def firstEmbedded : Option Chunk := witnesses.findSome? chain.embeds

theorem witnessScriptHash_eq {prevout : Output}
    (paid : isPayWitnessScriptHashPattern prevout.script = true) :
    chain.witnessScriptHash base index input prevout witnesses =
      (chain.firstEmbedded witnesses).map fun script =>
        ⟨input.point, [], [] :: chain.stacked base index prevout.value witnesses script ++ [script],
          input.sequence⟩ := by
  rw [witnessScriptHash, if_pos paid, firstEmbedded, List.map_findSome?]
  congr 1
  funext stack
  exact chain.mergedStack_eq base index input prevout.value witnesses stack

/-! ## A complete input -/

variable (script : Chunk)

/-- Endorsements of a stack, as many as its script requires, against keys at distinct
    positions in any order. -/
def Carries (stack : List Chunk) : Prop :=
  ∃ first middle, stack = first :: (middle ++ [script]) ∧
    ∃ endorsements positions, endorsements.Sublist middle ∧
      endorsements.length = chain.multisigRequired (chain.fromData script) ∧
      (∀ endorse ∈ endorsements, chain.isEndorsement endorse = true) ∧ positions.Nodup ∧
      List.Forall₂ (chain.VerifiesAt base index value (chain.fromData script) .segwit)
        positions endorsements

/-- A stack that ends with the script, with as many endorsements as it requires before it
    in the order of the keys. -/
def Complete (stack : List Chunk) : Prop :=
  stack.getLast? = some script ∧
    ∃ endorsements positions, endorsements.Sublist stack.dropLast ∧
      endorsements.length = chain.multisigRequired (chain.fromData script) ∧
      positions.Pairwise (· < ·) ∧
      List.Forall₂ (chain.VerifiesAt base index value (chain.fromData script) .segwit)
        positions endorsements

/-- The pool seats as many endorsements as the script requires. -/
def Seatable : Prop :=
  ∃ pairs, chain.Seating base index value (chain.fromData script) .segwit
      (chain.stackedEndorsements witnesses) pairs ∧
    pairs.length = chain.multisigRequired (chain.fromData script)

theorem length_stacked_of_seatable (seatable : chain.Seatable base index value witnesses script) :
    (chain.stacked base index value witnesses script).length =
      chain.multisigRequired (chain.fromData script) := by
  obtain ⟨pairs, seating, length⟩ := seatable
  have least := chain.length_le_pairs base index value (chain.fromData script) .segwit
    (chain.stackedEndorsements witnesses) seating
  have few := (chain.merged_pairs base index value (chain.fromData script) .segwit
    (chain.stackedEndorsements witnesses)).few
  rw [stacked, List.length_map]
  omega

/-- What is merged is complete exactly where the pool seats enough. -/
theorem complete_stacked :
    chain.Complete base index value script
        ([] :: chain.stacked base index value witnesses script ++ [script]) ↔
      chain.Seatable base index value witnesses script := by
  have merged := chain.merged_pairs base index value (chain.fromData script) .segwit
    (chain.stackedEndorsements witnesses)
  constructor
  · intro ⟨_, endorsements, positions, part, length, _, verified⟩
    rw [List.dropLast_concat] at part
    have inside : endorsements.Sublist (chain.stacked base index value witnesses script) := by
      cases List.sublist_cons_iff.mp part with
      | inl inside => exact inside
      | inr headed =>
          obtain ⟨rest, rfl, -⟩ := headed
          cases verified with
          | cons first _ =>
              obtain ⟨key, -, empty⟩ := first
              simp [verifies] at empty
    have most := inside.length_le
    rw [stacked, List.length_map] at most
    refine ⟨_, chain.seating_pairs base index value (chain.fromData script) .segwit
      (chain.stackedEndorsements witnesses), ?_⟩
    exact le_antisymm merged.few (length ▸ most)
  · intro seatable
    refine ⟨List.getLast?_concat, _, _, ?_, chain.length_stacked_of_seatable base index value
      witnesses script seatable, merged.ascending, ?_⟩
    · rw [List.dropLast_concat]
      exact List.sublist_cons_self _ _
    · rw [stacked, List.forall₂_map_left_iff, List.forall₂_map_right_iff, List.forall₂_same]
      intro pair member
      obtain ⟨endorse, here, verified⟩ := merged.verified pair member
      rw [List.getD_eq_getElem?_getD, here]
      exact verified

/-! ## The combined input -/

/-- No script is both of multisig pattern and a payment to a witness script hash. -/
def PatternsApart : Prop :=
  ∀ script, isPayWitnessScriptHashPattern script = true → chain.multisigRequired script = 0

theorem not_scriptHash {script : Script} (paid : isPayWitnessScriptHashPattern script = true) :
    isPayScriptHashPattern script = false := by
  unfold isPayWitnessScriptHashPattern at paid
  split at paid
  · rfl
  · cases paid

variable {prevouts : Prevouts} {others : List Transaction} {place : Fin base.inputs.length}
  {prevout : Output}

theorem combineInput_eq (apart : chain.PatternsApart)
    (known : prevouts.output (base.inputs.get place).point = some prevout)
    (unspent : prevouts.isConfirmedSpent (base.inputs.get place).point = false)
    (paid : isPayWitnessScriptHashPattern prevout.script = true) :
    chain.combineInput prevouts base others place =
      .ok (((chain.firstEmbedded ((candidates base others place).map Input.witness)).map
        fun script => ⟨(base.inputs.get place).point, [],
          [] :: chain.stacked base place prevout.value
            ((candidates base others place).map Input.witness) script ++ [script],
          (base.inputs.get place).sequence⟩).getD
        (endorsing (base.inputs.get place) ((candidates base others place).map Input.script)
          ((candidates base others place).map Input.witness))) := by
  have bare : chain.bareMultisig base place (base.inputs.get place) prevout
      ((candidates base others place).map Input.script) = none := by
    simp [bareMultisig, apart prevout.script paid]
  have hash : chain.scriptHash base place (base.inputs.get place) prevout
      ((candidates base others place).map Input.script) = none := by
    simp [scriptHash, not_scriptHash paid]
  unfold combineInput
  dsimp only
  rw [known]
  dsimp only
  rw [unspent, if_neg Bool.false_ne_true, bare, hash,
    chain.witnessScriptHash_eq base place _ _ paid]
  cases chain.firstEmbedded ((candidates base others place).map Input.witness) with
  | none => rfl
  | some script => rfl

theorem mem_candidates : base.inputs.get place ∈ candidates base others place := by
  rw [candidates, List.mem_filterMap]
  exact ⟨base, List.mem_cons_self, List.getElem?_eq_getElem place.isLt⟩

/-- A stack that ends with a script of multisig pattern embeds it. -/
theorem embeds_of_getLast? {stack : List Chunk} {script : Chunk}
    (last : stack.getLast? = some script)
    (multisig : chain.multisigRequired (chain.fromData script) ≠ 0) :
    chain.embeds stack = some script := by
  rw [embeds, last, Option.filter_some, if_pos (decide_eq_true multisig)]

theorem embeds_endorsing {script : Chunk} (none : chain.firstEmbedded witnesses = none)
    (member : input.witness ∈ witnesses) (scripts : List Script)
    (multisig : chain.multisigRequired (chain.fromData script) ≠ 0) :
    (endorsing input scripts witnesses).witness.getLast? ≠ some script := by
  intro last
  have listed : (endorsing input scripts witnesses).witness ∈ witnesses := by
    unfold endorsing
    dsimp only
    cases found : witnesses.find? (· ≠ []) with
    | none => exact member
    | some stack => exact List.mem_of_find?_eq_some found
  have missing := List.findSome?_eq_none_iff.mp none _ listed
  rw [chain.embeds_of_getLast? last multisig] at missing
  cases missing

/-- The combined input completes a script exactly where the first stack that embeds one
    embeds this, and the pool seats enough for it. -/
theorem combineInput_complete_iff (apart : chain.PatternsApart)
    (known : prevouts.output (base.inputs.get place).point = some prevout)
    (unspent : prevouts.isConfirmedSpent (base.inputs.get place).point = false)
    (paid : isPayWitnessScriptHashPattern prevout.script = true) {script : Chunk}
    (multisig : chain.multisigRequired (chain.fromData script) ≠ 0) :
    (∃ combined, chain.combineInput prevouts base others place = .ok combined ∧
        chain.Complete base place prevout.value script combined.witness) ↔
      chain.firstEmbedded ((candidates base others place).map Input.witness) = some script ∧
        chain.Seatable base place prevout.value ((candidates base others place).map Input.witness)
          script := by
  rw [chain.combineInput_eq base apart known unspent paid]
  cases first : chain.firstEmbedded ((candidates base others place).map Input.witness) with
  | none =>
      constructor
      · intro ⟨combined, result, complete⟩
        cases result
        exact absurd complete.1 (chain.embeds_endorsing _ _ first
          (List.mem_map_of_mem (mem_candidates base)) _ multisig)
      · intro ⟨embedded, _⟩
        cases embedded
  | some other =>
      rw [Option.map_some, Option.getD_some, Option.some.injEq]
      constructor
      · intro ⟨combined, result, complete⟩
        cases result
        have same := complete.1
        rw [List.getLast?_concat, Option.some.injEq] at same
        cases same
        exact ⟨rfl, (chain.complete_stacked base place _ _ _).mp complete⟩
      · intro ⟨same, seatable⟩
        cases same
        exact ⟨_, rfl, (chain.complete_stacked base place _ _ _).mpr seatable⟩

/-- The program that a script pays to. -/
def witnessProgram : Script → Chunk
  | [_, .push program] => program
  | _ => []

/-- The input is complete whenever some variant carries it complete, for a script whose hash
    is the program paid to. -/
def Keeps (sha256 : Chunk → Chunk) (prevouts : Prevouts) (base : Transaction)
    (others : List Transaction) (place : Fin base.inputs.length) (prevout : Output) : Prop :=
  ∀ script, sha256 script = witnessProgram prevout.script →
    chain.multisigRequired (chain.fromData script) ≠ 0 →
    (∃ candidate ∈ candidates base others place,
      chain.Carries base place prevout.value script candidate.witness) →
    ∃ combined, chain.combineInput prevouts base others place = .ok combined ∧
      chain.Complete base place prevout.value script combined.witness

/-- A complete input is kept exactly where the script that it is complete for is the first
    embedded, and the pool seats enough for it. -/
theorem combineInput_keeps_iff (apart : chain.PatternsApart) (sha256 : Chunk → Chunk)
    (known : prevouts.output (base.inputs.get place).point = some prevout)
    (unspent : prevouts.isConfirmedSpent (base.inputs.get place).point = false)
    (paid : isPayWitnessScriptHashPattern prevout.script = true) :
    chain.Keeps sha256 prevouts base others place prevout ↔
      ∀ script, sha256 script = witnessProgram prevout.script →
        chain.multisigRequired (chain.fromData script) ≠ 0 →
        (∃ candidate ∈ candidates base others place,
          chain.Carries base place prevout.value script candidate.witness) →
        chain.firstEmbedded ((candidates base others place).map Input.witness) = some script ∧
          chain.Seatable base place prevout.value
            ((candidates base others place).map Input.witness) script := by
  unfold Keeps
  constructor
  · intro keeps script committed multisig carried
    exact (chain.combineInput_complete_iff base apart known unspent paid multisig).mp
      (keeps script committed multisig carried)
  · intro met script committed multisig carried
    exact (chain.combineInput_complete_iff base apart known unspent paid multisig).mpr
      (met script committed multisig carried)

/-! ## A variant that embeds another script -/

/-- Scripts of pushes and single byte codes, the multisig pattern among them, and
    signatures that are the last byte of their key, eight times. -/
private def operations : Nat → Chunk → Script
  | 0, _ => []
  | _ + 1, [] => []
  | fuel + 1, byte :: rest =>
      if 0 < byte ∧ byte ≤ 75 then
        .push (rest.take byte.toNat) :: operations fuel (rest.drop byte.toNat)
      else .opcode byte :: operations fuel rest

private def pattern : Script → Option (Nat × List Chunk)
  | .opcode required :: rest =>
      match rest.reverse with
      | .opcode check :: .opcode count :: keys =>
          if check = 0xae ∧ count.toNat = 0x50 + keys.length ∧ 0x51 ≤ required ∧
              required ≤ count ∧ keys.all (fun key => key.data.length = 33) then
            some (required.toNat - 0x50, keys.reverse.map Operation.data)
          else none
      | _ => none
  | _ => none

private def small : Chain Chunk Chunk where
  multisigRequired script := ((pattern script).map Prod.fst).getD 0
  multisigKeys script := ((pattern script).map Prod.snd).getD []
  fromData data := operations data.length data
  toData script := script.flatMap Operation.data
  endorsements _ := []
  extractSigopScript _ _ := none
  isEndorsement endorse := 9 ≤ endorse.length ∧ endorse.length ≤ 73
  decodeSignature der := if der.length = 8 then some der else none
  checkSignature _ signature key _ _ _ _ _ := signature = List.replicate 8 (key.getLastD 0)

private theorem small_apart : small.PatternsApart := by
  intro script paid
  unfold isPayWitnessScriptHashPattern at paid
  split at paid
  · rfl
  · cases paid

/-- One key of one. -/
private def oneOfOne (byte : UInt8) : Chunk :=
  [0x51, 33, 2] ++ List.replicate 32 byte ++ [0x51, 0xae]

private def program : Chunk := List.replicate 32 7

/-- The first script alone hashes to the program. -/
private def hashed (data : Chunk) : Chunk :=
  if data = oneOfOne 1 then program else List.replicate 32 0

private def paying : Output := ⟨1000, [.opcode 0, .push program]⟩

private def spending (stack : List Chunk) : Transaction :=
  ⟨1, [⟨⟨[], 0⟩, [], stack, 0⟩], [], 0⟩

private def unspentPaying : Prevouts := ⟨fun _ => some paying, fun _ => false⟩

private def complete : Transaction :=
  spending [[], List.replicate 8 1 ++ [1], oneOfOne 1]

private def foreign : Transaction := spending [[], oneOfOne 2]

/-- A complete input is lost to a variant before it that embeds another script. -/
theorem combineInput_loses :
    ¬small.Keeps hashed unspentPaying foreign [complete] ⟨0, Nat.one_pos⟩ paying := by
  intro keeps
  have carried : ∃ candidate ∈ candidates foreign [complete] 0,
      small.Carries foreign 0 paying.value (oneOfOne 1) candidate.witness := by
    refine ⟨⟨⟨[], 0⟩, [], [[], List.replicate 8 1 ++ [1], oneOfOne 1], 0⟩, by decide +kernel,
      [], [List.replicate 8 1 ++ [1]], rfl, [List.replicate 8 1 ++ [1]], [0], .refl _,
      by decide +kernel, by decide +kernel, List.nodup_singleton 0, .cons ?_ .nil⟩
    exact ⟨2 :: List.replicate 32 1, by decide +kernel, by decide +kernel⟩
  obtain ⟨combined, result, last, -⟩ :=
    keeps (oneOfOne 1) (by decide +kernel) (by decide +kernel) carried
  have actual : small.combineInput unspentPaying foreign [complete] ⟨0, Nat.one_pos⟩ =
      .ok ⟨⟨[], 0⟩, [], [[], oneOfOne 2], 0⟩ := by
    rfl
  rw [actual] at result
  cases result
  revert last
  decide +kernel

/-- Where the complete variant comes first, it is kept. -/
theorem combineInput_keeps_first :
    small.Keeps hashed unspentPaying complete [foreign] ⟨0, Nat.one_pos⟩ paying ↔
      ∀ script, hashed script = witnessProgram paying.script →
        small.multisigRequired (small.fromData script) ≠ 0 →
        (∃ candidate ∈ candidates complete [foreign] 0,
          small.Carries complete 0 paying.value script candidate.witness) →
        small.firstEmbedded ((candidates complete [foreign] 0).map Input.witness) = some script ∧
          small.Seatable complete 0 paying.value
            ((candidates complete [foreign] 0).map Input.witness) script :=
  small.combineInput_keeps_iff complete small_apart hashed rfl rfl rfl

end Chain

end LibbitcoinServer.Utilities
