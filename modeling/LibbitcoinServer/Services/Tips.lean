import LibbitcoinServer.Electrum.Version
import LibbitcoinServer.Lib.Text
import LibbitcoinServer.Store.Tip

/-! # Reported tips

Five requests report the confirmed top, by a hash or a header and by a height.  Four of them
read the link of the top once and take everything from it.  `getbestblock` reads the hash
of the top and then the height of the top.
-/

namespace LibbitcoinServer.Services

open Electrum (Version Value)
open Store (BlockHeader HeaderStore Indexes Change)

structure ChainInformation (Digest : Type) where
  chain : String
  blocks : Nat
  headers : Nat
  bestblockhash : Digest
  bits : UInt32
  difficulty : ℚ
  time : Nat
  mediantime : Nat
  pruned : Bool

inductive Tip (Digest Object : Type) where
  | block (hash : Digest) (height : Nat)
  | rescanFinished (hash : Digest) (height timestamp : Nat)
  | wireHeader (height : Nat) (hex : List Char)
  | header (object : Object) (blockHeight : Nat)
  | chainInformation (information : ChainInformation Digest)

inductive TipFault where
  | badRequest
  | daemonError
  | internalError
  | invalidAddressOrKey
  | notFound
  | unimplemented

inductive TipRequest where
  | getBestBlock
  | rescan (beginblock : String) (addresses outpoints : Value)
  | headersSubscribe (version : Version) (raw : Bool)
  | chainInformation
  | wait

abbrev TipResult (Digest Object : Type) := Except TipFault (Tip Digest Object)

/-- What the handlers use of the settings and of the libraries: the decoding of a hash, the
    serialization of a header for electrum, the names of the networks by genesis, and whether
    blocks are limited. -/
structure TipSettings (Digest Object : Type) where
  decodeHash : String → Option Digest
  electrumx : BlockHeader Digest → Option Object
  difficulty : UInt32 → ℚ
  networks : List (Digest × String)
  limitedBlocks : Bool

def hasEntries : Value → Bool
  | .array values => !values.isEmpty
  | _ => false

section Store

variable {Link Digest Object : Type} [DecidableEq Link] [DecidableEq Digest]
  {store : HeaderStore Link Digest} (settings : TipSettings Digest Object)

-- The median time past of `get_confirmed_chain_state`.
variable (confirmedChainState : Indexes store → Digest → Option Nat)

def handleGetBestBlock : Reads (Indexes store) (TipResult Digest Object) := do
  let hash ← Reads.get Indexes.getTopConfirmedHash
  let height ← Reads.get Indexes.getTopConfirmed
  return .ok (.block hash height)

def handleRescan (beginblock : String) (addresses outpoints : Value) :
    Reads (Indexes store) (TipResult Digest Object) :=
  match settings.decodeHash beginblock with
  | none => return .error .invalidAddressOrKey
  | some beginHash => do
      let first ← Reads.get fun indexes => indexes.toHeader beginHash
      if first.isNone then return .error .invalidAddressOrKey
      else if hasEntries addresses || hasEntries outpoints then return .error .unimplemented
      else
        let confirmed ← Reads.get Indexes.toTopConfirmed
        match store.getHeader confirmed, store.getHeight confirmed with
        | some header, some top => return .ok (.rescanFinished header.hash top header.timestamp)
        | _, _ => return .error .internalError

/-- The raw header from version 1.3, else the electrum form with the height added. -/
def handleBlockchainHeadersSubscribe (version : Version) (raw : Bool) :
    Reads (Indexes store) (TipResult Digest Object) :=
  let rawDefined := raw
  let raw := raw || decide (.v1_3 ≤ version)
  if version < .v1_0 ∨ (version < .v1_2 ∧ rawDefined) ∨ (.v1_4 ≤ version ∧ rawDefined) then
    return .error .badRequest
  else do
    let link ← Reads.get Indexes.toTopConfirmed
    match store.getHeight link with
    | none => return .error .daemonError
    | some top =>
        if raw then
          match store.getWireHeader link with
          | none => return .error .daemonError
          | some header => return .ok (.wireHeader top (Text.encodeBase16 header))
        else
          match (store.getHeader link).bind settings.electrumx with
          | none => return .error .daemonError
          | some object => return .ok (.header object top)

def chainName : Reads (Indexes store) String := do
  let genesis ← Reads.get fun indexes => (indexes.toConfirmed 0).map store.getHeaderKey
  return (settings.networks.find? fun network => genesis = some network.1).elim "unknown" Prod.snd

def medianTime (link : Link) : Reads (Indexes store) Nat := do
  let child ← Reads.get fun indexes => indexes.toConfirmedChild link
  match child.bind store.getContext with
  | some median => return median
  | none =>
      -- The top block has no child, its promoted chain state carries the value.
      let state ← Reads.get fun indexes => confirmedChainState indexes (store.getHeaderKey link)
      return state.getD 0

def handleGetChainInformation : Reads (Indexes store) (TipResult Digest Object) := do
  let link ← Reads.get Indexes.toTopConfirmed
  match store.getHeader link, store.getHeight link with
  | some header, some blocks =>
      let chain ← chainName settings
      let headers ← Reads.get Indexes.candidateTop
      let mediantime ← medianTime confirmedChainState link
      return .ok (.chainInformation {
        chain, blocks, headers
        bestblockhash := store.getHeaderKey link
        bits := header.bits
        difficulty := settings.difficulty header.bits
        time := header.timestamp
        mediantime
        pruned := settings.limitedBlocks })
  | _, _ => return .error .notFound

/-- The response to each of the waits. -/
def sendTop : Reads (Indexes store) (TipResult Digest Object) := do
  let link ← Reads.get Indexes.toTopConfirmed
  match store.getHeight link with
  | none => return .error .internalError
  | some top => return .ok (.block (store.getHeaderKey link) top)

def report : TipRequest → Reads (Indexes store) (TipResult Digest Object)
  | .getBestBlock => handleGetBestBlock
  | .rescan beginblock addresses outpoints => handleRescan settings beginblock addresses outpoints
  | .headersSubscribe version raw => handleBlockchainHeadersSubscribe settings version raw
  | .chainInformation => handleGetChainInformation settings confirmedChainState
  | .wait => sendTop

/-! ## Tips of one block -/

/-- All that a tip says of a block is said of the block of the link. -/
def Tip.Of (store : HeaderStore Link Digest) (settings : TipSettings Digest Object) (link : Link) :
    Tip Digest Object → Prop
  | .block hash height => hash = store.getHeaderKey link ∧ height = store.height link
  | .rescanFinished hash height timestamp =>
      hash = store.getHeaderKey link ∧ height = store.height link ∧
        ∃ header, store.getHeader link = some header ∧ timestamp = header.timestamp
  | .wireHeader height hex => height = store.height link ∧
      ∃ header, store.getWireHeader link = some header ∧ hex = Text.encodeBase16 header
  | .header object blockHeight => blockHeight = store.height link ∧
      ∃ header, store.getHeader link = some header ∧ settings.electrumx header = some object
  | .chainInformation information =>
      information.bestblockhash = store.getHeaderKey link ∧
        information.blocks = store.height link ∧
        ∃ header, store.getHeader link = some header ∧ information.bits = header.bits ∧
          information.difficulty = settings.difficulty header.bits ∧
          information.time = header.timestamp

/-- A response with a tip is of one block. -/
def Untorn (store : HeaderStore Link Digest) (settings : TipSettings Digest Object)
    (response : TipResult Digest Object) : Prop :=
  ∀ tip, response = .ok tip → ∃ link, tip.Of store settings link

omit [DecidableEq Link] [DecidableEq Digest] in
theorem untorn_error (fault : TipFault) : Untorn store settings (.error fault) := by
  intro tip responded
  cases responded

omit [DecidableEq Link] [DecidableEq Digest] in
theorem untorn_ok {tip : Tip Digest Object} {link : Link} (same : tip.Of store settings link) :
    Untorn store settings (.ok tip) := by
  rintro _ ⟨⟩
  exact ⟨link, same⟩

/-! ## Requests that read one link -/

omit [DecidableEq Link] in
theorem rescan_untorn (beginblock : String) (addresses outpoints : Value) :
    (@handleRescan _ _ _ _ store settings beginblock addresses outpoints).Always
      (Untorn store settings) := by
  unfold handleRescan
  cases settings.decodeHash beginblock with
  | none => exact untorn_error settings _
  | some beginHash =>
      rw [Reads.always_get_bind]
      intro indexes
      apply Reads.always_ite
      · exact fun _ => untorn_error settings _
      intro _
      apply Reads.always_ite
      · exact fun _ => untorn_error settings _
      intro _
      rw [Reads.always_get_bind]
      intro indexes
      cases header_found : store.getHeader indexes.toTopConfirmed with
      | none => exact untorn_error settings _
      | some header =>
          cases height_found : store.getHeight indexes.toTopConfirmed with
          | none => exact untorn_error settings _
          | some top =>
              exact untorn_ok settings ⟨store.hash_eq header_found,
                store.getHeight_eq height_found, header, header_found, rfl⟩

omit [DecidableEq Link] [DecidableEq Digest] in
theorem headersSubscribe_untorn (version : Version) (raw : Bool) :
    (@handleBlockchainHeadersSubscribe _ _ _ store settings version raw).Always
      (Untorn store settings) := by
  apply Reads.always_ite
  · exact fun _ => untorn_error settings _
  intro _
  rw [Reads.always_get_bind]
  intro indexes
  cases height_found : store.getHeight indexes.toTopConfirmed with
  | none => exact untorn_error settings _
  | some top =>
      have height := store.getHeight_eq height_found
      apply Reads.always_ite
      · intro _
        cases found : store.getWireHeader indexes.toTopConfirmed with
        | none => exact untorn_error settings _
        | some header => exact untorn_ok settings ⟨height, header, found, rfl⟩
      · intro _
        cases found : store.getHeader indexes.toTopConfirmed with
        | none => exact untorn_error settings _
        | some header =>
            rw [Option.bind_some]
            cases made : settings.electrumx header with
            | none => exact untorn_error settings _
            | some object => exact untorn_ok settings ⟨height, header, found, made⟩

theorem chainInformation_untorn :
    (handleGetChainInformation settings confirmedChainState).Always
      (Untorn store settings) := by
  unfold handleGetChainInformation
  rw [Reads.always_get_bind]
  intro indexes
  cases header_found : store.getHeader indexes.toTopConfirmed with
  | none => exact untorn_error settings _
  | some header =>
      cases height_found : store.getHeight indexes.toTopConfirmed with
      | none => exact untorn_error settings _
      | some blocks =>
          have height := store.getHeight_eq height_found
          dsimp only
          rw [Reads.always_bind]
          apply Reads.always_of_forall
          intro chain
          rw [Reads.always_get_bind]
          intro later
          rw [Reads.always_bind]
          apply Reads.always_of_forall
          intro median
          exact untorn_ok settings ⟨rfl, height, header, header_found, rfl, rfl, rfl⟩

omit [DecidableEq Link] [DecidableEq Digest] in
theorem sendTop_untorn :
    (@sendTop _ _ Object store).Always (Untorn store settings) := by
  unfold sendTop
  rw [Reads.always_get_bind]
  intro indexes
  cases found : store.getHeight indexes.toTopConfirmed with
  | none => exact untorn_error settings _
  | some top => exact untorn_ok settings ⟨rfl, store.getHeight_eq found⟩

theorem report_untorn {request : TipRequest} (other : request ≠ .getBestBlock) :
    (report settings confirmedChainState request).Always (Untorn store settings) := by
  cases request with
  | getBestBlock => exact absurd rfl other
  | rescan beginblock addresses outpoints =>
      exact rescan_untorn settings beginblock addresses outpoints
  | headersSubscribe version raw => exact headersSubscribe_untorn settings version raw
  | chainInformation => exact chainInformation_untorn settings confirmedChainState
  | wait => exact sendTop_untorn settings

/-! ## The request that reads the top twice -/

omit [DecidableEq Link] [DecidableEq Digest] in
/-- A hash from one top and a height from another are of one block where both tops are at
    one height. -/
theorem getBestBlock_untorn_iff (seen : Nat → Indexes store) :
    Untorn store settings (handleGetBestBlock.run seen) ↔
      (seen 0).getTopConfirmed = (seen 1).getTopConfirmed := by
  have responded : handleGetBestBlock.run seen =
      (.ok (.block (seen 0).getTopConfirmedHash (seen 1).getTopConfirmed) :
        TipResult Digest Object) := by
    rw [handleGetBestBlock, Reads.run_get_bind, Reads.run_get_bind, Reads.run_pure]
  have first_height : store.height (seen 0).toTopConfirmed = (seen 0).getTopConfirmed :=
    (seen 0).confirmed.height_toTop
  rw [responded]
  constructor
  · intro untorn
    obtain ⟨link, hash, height⟩ := untorn _ rfl
    calc (seen 0).getTopConfirmed
        = store.height (seen 0).toTopConfirmed := first_height.symm
      _ = store.height link := store.height_of_key hash
      _ = (seen 1).getTopConfirmed := height.symm
  · intro level
    exact untorn_ok settings ⟨rfl, level.symm.trans first_height.symm⟩

/-- In every interleaving of the reads with changes of the chain, a reported tip is of one
    block exactly when the request is not `getbestblock` or the chain has one height at both
    of its reads. -/
theorem report_untorn_iff (start : Indexes store) (schedule : Nat → List (Change Link))
    (request : TipRequest) :
    let seen := Reads.interleaved Indexes.step start schedule
    Untorn store settings ((report settings confirmedChainState request).run seen) ↔
      (request = .getBestBlock → (seen 0).getTopConfirmed = (seen 1).getTopConfirmed) := by
  intro seen
  by_cases best : request = .getBestBlock
  · have twice := getBestBlock_untorn_iff settings seen
    subst best
    constructor
    · intro untorn _
      exact twice.mp untorn
    · intro level
      exact twice.mpr (level rfl)
  · have untorn := Reads.run_of_always (report_untorn settings confirmedChainState best) seen
    constructor
    · intro _ same
      exact absurd same best
    · intro _
      exact untorn

end Store

/-- Genesis alone, below an archived block. -/
private def genesisAlone : Indexes HeaderStore.unfound where
  archived := [0, 1]
  candidateTop := 1
  confirmed := {
    genesis := 0
    above := []
    placed := by
      intro index link here
      rcases index with _ | index
      · exact (Option.some.inj here).symm
      · cases here
    bounded := by simp [UInt64.size] }

private def bareSettings : TipSettings Nat Unit where
  decodeHash _ := none
  electrumx _ := none
  difficulty _ := 0
  networks := []
  limitedBlocks := false

/-- A block lands between the two reads of `getbestblock`, and its height is reported with
    the hash of genesis. -/
theorem getBestBlock_torn :
    ¬∀ (start : Indexes HeaderStore.unfound) (schedule : Nat → List (Change Nat))
      (request : TipRequest),
      Untorn HeaderStore.unfound bareSettings ((report bareSettings (fun _ _ => none) request).run
        (Reads.interleaved Indexes.step start schedule)) := by
  intro all
  let schedule : Nat → List (Change Nat) := fun read => if read = 1 then [.connect 1] else []
  obtain ⟨link, hash, height⟩ := all genesisAlone schedule .getBestBlock (.block 0 1) rfl
  cases hash.trans height.symm

end LibbitcoinServer.Services
