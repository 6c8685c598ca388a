import LibbitcoinServer.Bitcoind.ScanTxOutSet
import LibbitcoinServer.Store.Transactions

/-! # The update of a psbt

An input takes the output that it spends from the store where the document does not tell it, and
each entry takes what the first expansion of its script attaches.  Nothing that is attached is
attached again, so an update of what is updated adds only what the store has come by since.
-/

namespace LibbitcoinServer.Bitcoind

open LibbitcoinServer.Store (Put)

/-- A `descriptor::signing`. -/
structure Signing (Script Derivation : Type) where
  script : Script
  embedded : Option Script
  witness : Option Script
  derivations : List Derivation

/-- What an input and an output of a psbt have in common. -/
structure PsbtEntry (Script Derivation : Type) where
  embeddedScript : Option Script
  witnessScript : Option Script
  derivations : List Derivation
  deriving DecidableEq

/-- A `psbt::input`.  What is not read or written here is its rest. -/
structure PsbtInput (Digest Script Derivation Rest : Type) where
  entry : PsbtEntry Script Derivation
  witnessUtxo : Option (Put Script)
  previousTxid : Option Digest
  outputIndex : Option Nat
  rest : Rest
  deriving DecidableEq

structure PsbtOutput (Script Derivation Rest : Type) where
  entry : PsbtEntry Script Derivation
  script : Option Script
  rest : Rest
  deriving DecidableEq

/-- A `psbt::transaction`.  In version 0 the points and the scripts are of the unsigned
    transaction, which has as many inputs and outputs as the document. -/
inductive Psbt (Digest Script Derivation Rest : Type) where
  | version0 (inputs : List ((Digest × Nat) × PsbtInput Digest Script Derivation Rest))
      (outputs : List (Script × PsbtOutput Script Derivation Rest))
  | version2 (inputs : List (PsbtInput Digest Script Derivation Rest))
      (outputs : List (PsbtOutput Script Derivation Rest))
  deriving DecidableEq

section Update

variable {Digest Script Derivation Rest : Type} [DecidableEq Script] [DecidableEq Derivation]

/-- What the code takes from the system library: whether a script pays to a witness program, and
    `prevout`, the output that the document tells of an input.  It reads neither the scripts nor
    the derivations of an input, and where it knew of none it knows of a witness output. -/
structure PsbtWallet (Digest Script Derivation Rest : Type) where
  nullHash : Digest
  isPayWitnessPattern : Script → Bool
  prevout : Digest × Nat → PsbtInput Digest Script Derivation Rest → Option (Put Script)
  prevout_entry : ∀ point input entry, prevout point { input with entry } = prevout point input
  prevout_witness : ∀ {point input} out, prevout point input = none →
    prevout point { input with witnessUtxo := some out } = some out

variable (wallet : PsbtWallet Digest Script Derivation Rest)
  (getOutput : Digest × Nat → Option (Put Script)) (signings : List (Signing Script Derivation))

/-- The first expansion matching the entry's script updates the entry. -/
def findSigning (script : Script) : Option (Signing Script Derivation) :=
  signings.find? fun item => item.script = script

def pushDerivation (derivations : List Derivation) (derived : Derivation) : List Derivation :=
  if derived ∈ derivations then derivations else derivations ++ [derived]

def updateEntry (entry : PsbtEntry Script Derivation) (found : Signing Script Derivation) :
    PsbtEntry Script Derivation where
  embeddedScript := found.embedded.or entry.embeddedScript
  witnessScript := found.witness.or entry.witnessScript
  derivations := found.derivations.foldl pushDerivation entry.derivations

/-- The entry of a script, updated where an expansion matches it. -/
def attach (script : Script) (entry : PsbtEntry Script Derivation) :
    PsbtEntry Script Derivation :=
  match findSigning signings script with
  | none => entry
  | some found => updateEntry entry found

/-- One turn of the loop over the inputs. -/
def updateInput (point : Digest × Nat) (input : PsbtInput Digest Script Derivation Rest) :
    PsbtInput Digest Script Derivation Rest :=
  match wallet.prevout point input with
  | some utxo => { input with entry := attach signings utxo.script input.entry }
  | none =>
      match getOutput point with
      | none => input
      | some out =>
          -- Only witness utxos are populated.
          let witnessUtxo :=
            if wallet.isPayWitnessPattern out.script then some out else input.witnessUtxo
          { input with witnessUtxo, entry := attach signings out.script input.entry }

/-- One turn of the loop over the outputs. -/
def updateOutput (script : Option Script) (output : PsbtOutput Script Derivation Rest) :
    PsbtOutput Script Derivation Rest :=
  match script with
  | none => output
  | some script => { output with entry := attach signings script output.entry }

/-- The point that an input of version 2 spends. -/
def PsbtInput.point (input : PsbtInput Digest Script Derivation Rest) : Digest × Nat :=
  (input.previousTxid.getD wallet.nullHash, input.outputIndex.getD 0)

def updatePsbt : Psbt Digest Script Derivation Rest → Psbt Digest Script Derivation Rest
  | .version0 inputs outputs =>
      .version0
        (inputs.map fun input => (input.1, updateInput wallet getOutput signings input.1 input.2))
        (outputs.map fun output => (output.1, updateOutput signings (some output.1) output.2))
  | .version2 inputs outputs =>
      .version2
        (inputs.map fun input => updateInput wallet getOutput signings (input.point wallet) input)
        (outputs.map fun output => updateOutput signings output.script output)

/-! ## Attaching again -/

variable {wallet} {getOutput} {signings}

theorem foldl_pushDerivation_of_subset {before found : List Derivation}
    (held : ∀ derived ∈ found, derived ∈ before) : found.foldl pushDerivation before = before := by
  induction found with
  | nil => rfl
  | cons derived found ih =>
      obtain ⟨here, later⟩ := List.forall_mem_cons.mp held
      rw [List.foldl_cons, pushDerivation, if_pos here]
      exact ih later

/-- What is held keeps its place, and is followed by exactly what is found and not yet held, once
    each in the order found. -/
theorem foldl_pushDerivation (before found : List Derivation) :
    ∃ added, found.foldl pushDerivation before = before ++ added ∧ added.Sublist found ∧
      added.Nodup ∧ ∀ derived, derived ∈ added ↔ derived ∈ found ∧ derived ∉ before := by
  induction found generalizing before with
  | nil => exact ⟨[], by simp, List.Sublist.refl _, List.nodup_nil, by simp⟩
  | cons derived found ih =>
      rw [List.foldl_cons, pushDerivation]
      split_ifs with held
      · obtain ⟨added, pushed, order, once, exactly⟩ := ih before
        refine ⟨added, pushed, order.cons derived, once, ?_⟩
        intro other
        rw [exactly, List.mem_cons]
        constructor
        · rintro ⟨later, fresh⟩
          exact ⟨.inr later, fresh⟩
        · rintro ⟨rfl | later, fresh⟩
          · exact absurd held fresh
          · exact ⟨later, fresh⟩
      · obtain ⟨added, pushed, order, once, exactly⟩ := ih (before ++ [derived])
        refine ⟨derived :: added, ?_, order.cons_cons derived, ?_, ?_⟩
        · rw [pushed, List.append_assoc, List.singleton_append]
        · refine List.nodup_cons.mpr ⟨?_, once⟩
          intro again
          exact ((exactly derived).mp again).2 (List.mem_append_right _ List.mem_cons_self)
        · intro other
          rw [List.mem_cons, exactly, List.mem_cons, List.mem_append, List.mem_singleton]
          constructor
          · rintro (rfl | ⟨later, fresh⟩)
            · exact ⟨.inl rfl, held⟩
            · exact ⟨.inr later, fun early => fresh (.inl early)⟩
          · rintro ⟨same | later, fresh⟩
            · exact .inl same
            · by_cases same : other = derived
              · exact .inl same
              · exact .inr ⟨later, fun early => early.elim fresh same⟩

theorem mem_foldl_pushDerivation {before found : List Derivation} {derived : Derivation}
    (member : derived ∈ found) : derived ∈ found.foldl pushDerivation before := by
  obtain ⟨added, pushed, -, -, exactly⟩ := foldl_pushDerivation before found
  rw [pushed, List.mem_append, exactly]
  by_cases held : derived ∈ before
  · exact .inl held
  · exact .inr ⟨member, held⟩

theorem attach_attach (script : Script) (entry : PsbtEntry Script Derivation) :
    attach signings script (attach signings script entry) = attach signings script entry := by
  unfold attach
  cases findSigning signings script with
  | none => rfl
  | some found =>
      have held : ∀ derived ∈ found.derivations,
          derived ∈ found.derivations.foldl pushDerivation entry.derivations :=
        fun _ member => mem_foldl_pushDerivation member
      simp only [updateEntry, foldl_pushDerivation_of_subset held]
      cases found.embedded <;> cases found.witness <;> rfl

theorem updateOutput_again (script : Option Script)
    (output : PsbtOutput Script Derivation Rest) :
    updateOutput signings script (updateOutput signings script output) =
      updateOutput signings script output := by
  cases script with
  | none => rfl
  | some script => simp only [updateOutput, attach_attach]

/-- An update by a later store takes up one by an earlier store. -/
theorem updateInput_absorbed {later : Digest × Nat → Option (Put Script)}
    (grows : ∀ {point out}, getOutput point = some out → later point = some out)
    (point : Digest × Nat) (input : PsbtInput Digest Script Derivation Rest) :
    updateInput wallet later signings point (updateInput wallet getOutput signings point input) =
      updateInput wallet later signings point input := by
  unfold updateInput
  cases known : wallet.prevout point input with
  | some utxo => simp only [wallet.prevout_entry, known, attach_attach]
  | none =>
  cases stored : getOutput point with
  | none => simp only [known]
  | some out =>
  simp only [grows stored]
  cases pays : wallet.isPayWitnessPattern out.script with
  | false => simp [wallet.prevout_entry, known, attach_attach]
  | true =>
      let told := { input with witnessUtxo := some out }
      have tells := wallet.prevout_entry point told (attach signings out.script input.entry)
      rw [wallet.prevout_witness out known] at tells
      simp only [if_true, told] at tells ⊢
      simp only [tells, attach_attach]

/-- The updates of what was updated are those of the document. -/
theorem updatePsbt_absorbed {later : Digest × Nat → Option (Put Script)}
    (grows : ∀ {point out}, getOutput point = some out → later point = some out)
    (doc : Psbt Digest Script Derivation Rest) :
    updatePsbt wallet later signings (updatePsbt wallet getOutput signings doc) =
      updatePsbt wallet later signings doc := by
  cases doc with
  | version0 inputs outputs =>
      simp only [updatePsbt, List.map_map, Function.comp_def, updateInput_absorbed grows,
        updateOutput_again]
  | version2 inputs outputs =>
      have same : ∀ input : PsbtInput Digest Script Derivation Rest,
          (updateInput wallet getOutput signings (input.point wallet) input).point wallet =
            input.point wallet := by
        intro input
        unfold updateInput
        cases wallet.prevout (input.point wallet) input with
        | some utxo => rfl
        | none =>
            cases getOutput (input.point wallet) with
            | none => rfl
            | some out => rfl
      have script : ∀ output : PsbtOutput Script Derivation Rest,
          (updateOutput signings output.script output).script = output.script := by
        intro output
        unfold updateOutput
        split
        · rfl
        · rfl
      simp only [updatePsbt, List.map_map, Function.comp_def, same, updateInput_absorbed grows,
        script, updateOutput_again]

/-! ## What an update leaves -/

/-- An entry keeps its derivations in their places, and has the more. -/
structure PsbtEntry.Extended (before after : PsbtEntry Script Derivation) : Prop where
  derivations : before.derivations <+: after.derivations
  distinct : before.derivations.Nodup → after.derivations.Nodup
  embedded : before.embeddedScript.isSome → after.embeddedScript.isSome
  witness : before.witnessScript.isSome → after.witnessScript.isSome

/-- What an expansion attaches is attached whole, and nothing else is.  The derivations that are
    new follow those before, once each in the order of the expansion. -/
structure PsbtEntry.Attached (before after : PsbtEntry Script Derivation)
    (found : Signing Script Derivation) : Prop where
  derivations : ∃ added, after.derivations = before.derivations ++ added ∧
    added.Sublist found.derivations ∧ added.Nodup ∧
    ∀ derived, derived ∈ added ↔ derived ∈ found.derivations ∧ derived ∉ before.derivations
  embedded : after.embeddedScript = found.embedded.or before.embeddedScript
  witness : after.witnessScript = found.witness.or before.witnessScript

theorem attach_extended (script : Script) (entry : PsbtEntry Script Derivation) :
    entry.Extended (attach signings script entry) := by
  unfold attach
  cases findSigning signings script with
  | none => exact ⟨List.prefix_refl _, id, id, id⟩
  | some found =>
      obtain ⟨added, pushed, -, once, exactly⟩ :=
        foldl_pushDerivation entry.derivations found.derivations
      refine ⟨⟨added, pushed.symm⟩, ?_, ?_, ?_⟩
      · intro distinct
        simp only [updateEntry, pushed]
        exact List.Nodup.append distinct once fun derived held new =>
          ((exactly derived).mp new).2 held
      · intro present
        cases none : found.embedded <;> simp [updateEntry, none, present]
      · intro present
        cases none : found.witness <;> simp [updateEntry, none, present]

theorem attach_attached {script : Script} {found : Signing Script Derivation}
    (matched : findSigning signings script = some found) (entry : PsbtEntry Script Derivation) :
    entry.Attached (attach signings script entry) found := by
  unfold attach
  rw [matched]
  exact ⟨foldl_pushDerivation entry.derivations found.derivations, rfl, rfl⟩

variable (wallet getOutput) in
/-- The output that an input spends, of the document or else of the store. -/
def spentOutput (point : Digest × Nat) (input : PsbtInput Digest Script Derivation Rest) :
    Option (Put Script) :=
  (wallet.prevout point input).or (getOutput point)

variable (wallet getOutput signings) in
/-- What an update makes of an input: all but its entry and a witness output that neither it nor
    the document told before is as it was. -/
structure InputUpdated (point : Digest × Nat)
    (before after : PsbtInput Digest Script Derivation Rest) : Prop where
  rest : after.rest = before.rest ∧ after.previousTxid = before.previousTxid ∧
    after.outputIndex = before.outputIndex
  entry : before.entry.Extended after.entry
  known : ∀ {utxo}, wallet.prevout point before = some utxo →
    wallet.prevout point after = some utxo ∧ after.witnessUtxo = before.witnessUtxo
  populated : ∀ {out}, wallet.prevout point before = none → getOutput point = some out →
    wallet.isPayWitnessPattern out.script = true →
      wallet.prevout point after = some out ∧ after.witnessUtxo = some out
  unpopulated : wallet.prevout point before = none →
    (∀ out, getOutput point = some out → wallet.isPayWitnessPattern out.script = false) →
      after.witnessUtxo = before.witnessUtxo
  attached : ∀ {out found}, spentOutput wallet getOutput point before = some out →
    findSigning signings out.script = some found → before.entry.Attached after.entry found
  untouched : (∀ out, spentOutput wallet getOutput point before = some out →
    findSigning signings out.script = none) → after.entry = before.entry

variable (signings) in
structure OutputUpdated (script : Option Script)
    (before after : PsbtOutput Script Derivation Rest) : Prop where
  rest : after.rest = before.rest ∧ after.script = before.script
  entry : before.entry.Extended after.entry
  attached : ∀ {paid found}, script = some paid → findSigning signings paid = some found →
    before.entry.Attached after.entry found
  untouched : (∀ paid, script = some paid → findSigning signings paid = none) →
    after.entry = before.entry

theorem attach_unmatched {script : Script} (none : findSigning signings script = none)
    (entry : PsbtEntry Script Derivation) : attach signings script entry = entry := by
  simp [attach, none]

theorem updateOutput_updated (script : Option Script)
    (output : PsbtOutput Script Derivation Rest) :
    OutputUpdated signings script output (updateOutput signings script output) := by
  cases script with
  | none =>
      exact ⟨⟨rfl, rfl⟩, ⟨List.prefix_refl _, id, id, id⟩, nofun, fun _ => rfl⟩
  | some script =>
      refine ⟨⟨rfl, rfl⟩, attach_extended _ _, ?_, fun none => attach_unmatched (none script rfl) _⟩
      intro paid found same matched
      cases same
      exact attach_attached matched _

theorem updateInput_updated (point : Digest × Nat)
    (input : PsbtInput Digest Script Derivation Rest) :
    InputUpdated wallet getOutput signings point input
      (updateInput wallet getOutput signings point input) := by
  unfold updateInput
  cases known : wallet.prevout point input with
  | some utxo =>
      have spent : spentOutput wallet getOutput point input = some utxo := by
        simp [spentOutput, known]
      refine ⟨⟨rfl, rfl, rfl⟩, attach_extended _ _, ?_, ?_, fun _ _ => rfl, ?_, ?_⟩
      · intro other same
        rw [known] at same
        cases same
        exact ⟨(wallet.prevout_entry _ _ _).trans known, rfl⟩
      · intro out unknown
        rw [known] at unknown
        cases unknown
      · intro out found same matched
        rw [spent] at same
        cases same
        exact attach_attached matched _
      · intro none
        exact attach_unmatched (none utxo spent) _
  | none =>
  cases stored : getOutput point with
  | none =>
      have unspent : spentOutput wallet getOutput point input = none := by
        simp [spentOutput, known, stored]
      refine ⟨⟨rfl, rfl, rfl⟩, ⟨List.prefix_refl _, id, id, id⟩, ?_, ?_, fun _ _ => rfl, ?_,
        fun _ => rfl⟩
      · intro utxo same
        rw [known] at same
        cases same
      · intro out _ same
        rw [stored] at same
        cases same
      · intro out found same
        rw [unspent] at same
        cases same
  | some out =>
      have spent : spentOutput wallet getOutput point input = some out := by
        simp [spentOutput, known, stored]
      refine ⟨⟨rfl, rfl, rfl⟩, attach_extended _ _, ?_, ?_, ?_, ?_, ?_⟩
      · intro utxo same
        rw [known] at same
        cases same
      · intro other _ same pays
        rw [stored] at same
        cases same
        simp only [pays, if_true]
        refine ⟨?_, trivial⟩
        exact (wallet.prevout_entry point { input with witnessUtxo := some out } _).trans
          (wallet.prevout_witness out known)
      · intro _ none_pays
        simp [none_pays out stored]
      · intro other found same matched
        rw [spent] at same
        cases same
        exact attach_attached matched _
      · intro none
        exact attach_unmatched (none out spent) _

variable (wallet getOutput signings) in
/-- The inputs and outputs of a document, one by one. -/
def PsbtUpdated : Psbt Digest Script Derivation Rest → Psbt Digest Script Derivation Rest → Prop
  | .version0 inputs outputs, .version0 inputs' outputs' =>
      List.Forall₂ (fun before after => after.1 = before.1 ∧
        InputUpdated wallet getOutput signings before.1 before.2 after.2) inputs inputs' ∧
      List.Forall₂ (fun before after => after.1 = before.1 ∧
        OutputUpdated signings (some before.1) before.2 after.2) outputs outputs'
  | .version2 inputs outputs, .version2 inputs' outputs' =>
      List.Forall₂ (fun before after =>
        InputUpdated wallet getOutput signings (before.point wallet) before after) inputs inputs' ∧
      List.Forall₂ (fun before after =>
        OutputUpdated signings before.script before after) outputs outputs'
  | _, _ => False

theorem forall₂_map {Item : Type} {related : Item → Item → Prop} {make : Item → Item}
    (each : ∀ item, related item (make item)) (items : List Item) :
    List.Forall₂ related items (items.map make) :=
  List.forall₂_map_right_iff.mpr (List.forall₂_same.mpr fun item _ => each item)

theorem updatePsbt_updated (doc : Psbt Digest Script Derivation Rest) :
    PsbtUpdated wallet getOutput signings doc (updatePsbt wallet getOutput signings doc) := by
  cases doc with
  | version0 inputs outputs =>
      exact ⟨forall₂_map (fun input => ⟨rfl, updateInput_updated input.1 input.2⟩) inputs,
        forall₂_map (fun output => ⟨rfl, updateOutput_updated (some output.1) output.2⟩) outputs⟩
  | version2 inputs outputs =>
      exact ⟨forall₂_map (fun input => updateInput_updated (input.point wallet) input) inputs,
        forall₂_map (fun output => updateOutput_updated output.script output) outputs⟩

/-! ## The call -/

inductive UpdateFault where
  | invalidAddressOrKey
  | deserializationError
  deriving DecidableEq

variable {Text : Type}

/-- The texts of documents.  One that is written is read back. -/
structure PsbtText (Text Digest Script Derivation Rest : Type) where
  decode : Text → Option (Psbt Digest Script Derivation Rest)
  encode : Psbt Digest Script Derivation Rest → Text
  decode_encode : ∀ doc, decode (encode doc) = some doc

variable (wallet getOutput) in
def handleUtxoUpdatePsbt (parse : String → Option (Descriptor (Signing Script Derivation)))
    (texts : PsbtText Text Digest Script Derivation Rest) (psbt : Text)
    (descriptors : List ScanValue) : Except UpdateFault Text :=
  match expandScanObjects parse descriptors with
  | none => .error .invalidAddressOrKey
  | some signings =>
      match texts.decode psbt with
      | none => .error .deserializationError
      | some doc => .ok (texts.encode (updatePsbt wallet getOutput signings doc))

end Update

/-- A script of 7 is a witness program, and nothing else is read of a document. -/
private def sevenWallet : PsbtWallet Nat Nat Nat Unit where
  nullHash := 0
  isPayWitnessPattern script := script = 7
  prevout _ input := input.witnessUtxo
  prevout_entry _ _ _ := rfl
  prevout_witness _ _ := rfl

private def wholeText : PsbtText (Psbt Nat Nat Nat Unit) Nat Nat Nat Unit :=
  ⟨some, id, fun _ => rfl⟩

private def sevenSigning : String → Option (Descriptor (Signing Nat Nat)) :=
  fun _ => some ⟨false, fun _ => [⟨7, some 8, none, [3, 4]⟩]⟩

private def oneStored (point : Nat × Nat) : Option (Put Nat) :=
  if point = (5, 1) then some ⟨10, 7⟩ else none

private def twoStored (point : Nat × Nat) : Option (Put Nat) :=
  if point = (6, 0) then some ⟨20, 7⟩ else oneStored point

private theorem stored_grows {point : Nat × Nat} {out : Put Nat}
    (stored : oneStored point = some out) : twoStored point = some out := by
  unfold oneStored at stored
  split_ifs at stored with here
  cases here
  cases stored
  rfl

private def plainInput (hash index : Nat) : PsbtInput Nat Nat Nat Unit :=
  ⟨⟨none, none, [4]⟩, none, some hash, some index, ()⟩

end LibbitcoinServer.Bitcoind
