import LibbitcoinServer.Bitcoind.ScanTxOutSet
import LibbitcoinServer.Store.Ancestry
import LibbitcoinServer.Store.Supply

/-! # Statistics of the unspent outputs

The request resolves a height, and the scan pins the block at that height, totals what is unspent
after it and is void when the block is no longer confirmed.  What is missing of the issued
subsidies is reported as unspendable, for the whole set and for the block.
-/

namespace LibbitcoinServer.Bitcoind

open LibbitcoinServer.Store (Ancestry Change Funded HeaderStore Indexes Put Supply TxBlock TxChain
  Uncut issued issued_le issued_succ spendableOf unspendableOf valueOf)

/-- `set_hash`. -/
inductive SetHash where
  | serialized
  | muhash
  | none
  deriving DecidableEq

def setHash (hashType : String) : Option SetHash :=
  if hashType = "hash_serialized_3" then some .serialized
  else if hashType = "muhash" then some .muhash
  else if hashType = "none" then some .none
  else none

inductive SetFault where
  | invalidParameter
  | miscError
  | typeError
  | invalidAddressOrKey
  | internalError
  deriving DecidableEq

/-- `database::unspent_totals`. -/
structure UnspentTotals where
  transactions : Nat
  outputs : Nat
  value : Nat
  scriptBytes : Nat
  coinBytes : Nat

/-- `database::block_amounts`. -/
structure BlockAmounts where
  prevouts : Nat
  coinbase : Nat
  outputs : Nat
  unspendable : Nat
  bip30 : Nat

structure Unspendables where
  genesisBlock : ℚ
  bip30 : ℚ
  scripts : ℚ
  unclaimedRewards : ℚ

structure BlockInfo where
  prevoutSpent : ℚ
  coinbase : ℚ
  newOutputsExCoinbase : ℚ
  unspendable : ℚ
  unspendables : Unspendables

structure TxOutSetInfo where
  height : Nat
  bestblock : String
  transactions : Nat
  txouts : Nat
  bogosize : Nat
  diskSize : Nat
  totalAmount : ℚ
  totalUnspendableAmount : ℚ
  blockInfo : Option BlockInfo
  hashSerialized3 : Option String
  muhash : Option String

/-- The decimal that is written of an amount.  The source has the double nearest to it. -/
def bitcoins (satoshis : Nat) : ℚ := satoshis / 100000000

/-- The sum of a `uint64_t`, over the heights up to one. -/
def totalSubsidy (subsidy : Nat → Nat) (height : Nat) : Nat :=
  (List.range (height + 1)).foldl (fun total index => (total + subsidy index) % 2 ^ 64) 0

section Totals

variable {Digest Script : Type} [DecidableEq Digest]

/-- What the store totals of the outputs that are unspent after some blocks. -/
def unspentTotals (isUnspendable : Script → Bool) (scriptSize coinSize : Script → Nat)
    (blocks : List (TxBlock Digest Script)) : UnspentTotals :=
  let set := spendableOf isUnspendable (TxChain.heldAfter blocks)
  { transactions := (set.map fun entry => (ofLex entry.1).1).dedup.length
    outputs := set.length
    value := valueOf set
    scriptBytes := (set.map fun entry => scriptSize entry.2.script).sum
    coinBytes := (set.map fun entry => coinSize entry.2.script).sum }

/-- What the store sums of a block, over the outputs that are unspent before it. -/
def blockAmounts (isUnspendable : Script → Bool) (held : List (Point Digest × Put Script))
    (block : TxBlock Digest Script) : BlockAmounts where
  prevouts := valueOf (block.spent held)
  coinbase := valueOf block.coinbase
  outputs := valueOf block.payments
  unspendable := valueOf (unspendableOf isUnspendable block.creates)
  bip30 := valueOf (block.overwritten held)

end Totals

section Handlers

variable {Link Digest Script : Type} [DecidableEq Link] [DecidableEq Digest]
  {store : HeaderStore Link Digest}

/-- A link and its ancestors above genesis. -/
def branchOf (ancestry : Ancestry store) (link : Link) : List Link :=
  List.iterate ancestry.toParent link (store.height link)

/-- The queries of the store over the blocks of its links, and what the code uses of the
    settings.  A query of a branch that is not stopped totals the blocks of the branch. -/
structure SetQuery (ancestry : Ancestry store) (Script : Type) where
  decodeHash : String → Option Digest
  encodeHash : Digest → String
  subsidy : Nat → Nat
  isUnspendable : Script → Bool
  scriptSize : Script → Nat
  coinSize : Script → Nat
  block : Link → TxBlock Digest Script
  getUnspentTotals : List Link → Option UnspentTotals
  getUnspentMuhash : List Link → Option (UnspentTotals × Digest)
  getUnspentSerialized : List Link → Option (UnspentTotals × Digest)
  getBlockAmounts : Link → Option BlockAmounts
  totals : ∀ {link read}, getUnspentTotals (branchOf ancestry link) = some read →
    read = unspentTotals isUnspendable scriptSize coinSize
      ((branchOf ancestry link).reverse.map block)
  muhash : ∀ {link read}, getUnspentMuhash (branchOf ancestry link) = some read →
    read.1 = unspentTotals isUnspendable scriptSize coinSize
      ((branchOf ancestry link).reverse.map block)
  serialized : ∀ {link read}, getUnspentSerialized (branchOf ancestry link) = some read →
    read.1 = unspentTotals isUnspendable scriptSize coinSize
      ((branchOf ancestry link).reverse.map block)
  amounts : ∀ {link read}, 0 < store.height link → getBlockAmounts link = some read →
    read = blockAmounts isUnspendable
      (TxChain.heldAfter ((branchOf ancestry (ancestry.toParent link)).reverse.map block))
      (block link)

variable {ancestry : Ancestry store} (query : SetQuery ancestry Script)

/-- What `block_info` makes of the amounts.  What is issued and not claimed is destroyed. -/
def blockInfoOf (amounts : BlockAmounts) (height : Nat) : BlockInfo :=
  let fees := amounts.prevouts - amounts.outputs
  let reward := query.subsidy height + fees
  let unclaimed := reward - amounts.coinbase
  let unspendable := unclaimed + amounts.unspendable + amounts.bip30
  { prevoutSpent := bitcoins amounts.prevouts
    coinbase := bitcoins amounts.coinbase
    newOutputsExCoinbase := bitcoins amounts.outputs
    unspendable := bitcoins unspendable
    unspendables := {
      genesisBlock := 0
      bip30 := bitcoins amounts.bip30
      scripts := bitcoins amounts.unspendable
      unclaimedRewards := bitcoins unclaimed } }

def blockInfo (link : Link) (height : Nat) : Option BlockInfo :=
  (query.getBlockAmounts link).map fun amounts => blockInfoOf query amounts height

/-- The totals of a branch, with the digest of its set. -/
def readTotals (type : SetHash) (branch : List Link) : Option (UnspentTotals × Option Digest) :=
  match type with
  | .none => (query.getUnspentTotals branch).map fun totals => (totals, none)
  | .muhash => (query.getUnspentMuhash branch).map fun read => (read.1, some read.2)
  | .serialized => (query.getUnspentSerialized branch).map fun read => (read.1, some read.2)

def txOutSetInfo (type : SetHash) (link : Link) (height : Nat) (totals : UnspentTotals)
    (digest : Option Digest) : TxOutSetInfo where
  height := height
  bestblock := query.encodeHash (store.getHeaderKey link)
  transactions := totals.transactions
  txouts := totals.outputs
  bogosize := 50 * totals.outputs + totals.scriptBytes
  diskSize := totals.coinBytes
  totalAmount := bitcoins totals.value
  totalUnspendableAmount := bitcoins (totalSubsidy query.subsidy height - totals.value)
  blockInfo := blockInfo query link height
  hashSerialized3 := if type = .serialized then digest.map query.encodeHash else none
  muhash := if type = .muhash then digest.map query.encodeHash else none

/-- The part that runs apart from the channel. -/
def doGetTxOutSetInfo (type : SetHash) (height : Nat) :
    Reads (Indexes store) (Except SetFault TxOutSetInfo) := do
  let link ← Reads.get fun indexes => indexes.toConfirmed height
  match link with
  | none => return .error .internalError
  | some link =>
      match (ancestry.getAncestry (some link) height).bind (readTotals query type) with
      | none => return .error .internalError
      | some (totals, digest) => do
          let confirmed ← Reads.get fun indexes =>
            decide (indexes.toConfirmed (store.height link) = some link)
          if !confirmed then return .error .internalError
          else return .ok (txOutSetInfo query type link height totals digest)

/-- The link of the block that is named by its hash or its height. -/
def namedLink : ScanValue → Reads (Indexes store) (Except SetFault (Option Link))
  | .string text =>
      match query.decodeHash text with
      | none => return .error .invalidParameter
      | some hash => do
          let link ← Reads.get fun indexes => indexes.toHeader hash
          return .ok link
  | .number number =>
      match Text.toInteger (2 ^ 64) number with
      | none => return .error .miscError
      | some height => do
          let link ← Reads.get fun indexes => indexes.toConfirmed height
          return .ok link
  | _ => return .error .typeError

def confirmedHeight (link : Link) : Reads (Indexes store) (Except SetFault Nat) := do
  let confirmed ← Reads.get fun indexes =>
    decide (indexes.toConfirmed (store.height link) = some link)
  if !confirmed then return .error .invalidAddressOrKey
  else
    match store.getHeight link with
    | none => return .error .internalError
    | some height => return .ok height

/-- The height of the block that is named, or of the top where none is. -/
def setHeight (useIndex : Bool) :
    Option ScanValue → Reads (Indexes store) (Except SetFault Nat) := fun hashOrHeight => do
  let top ← Reads.get Indexes.getTopConfirmed
  match hashOrHeight with
  | none => return .ok top
  | some value =>
      if !useIndex then return .error .invalidParameter
      else do
        let named ← namedLink query value
        match named with
        | .error fault => return .error fault
        | .ok none => return .error .invalidAddressOrKey
        | .ok (some link) => confirmedHeight link

def handleGetTxOutSetInfo (hashType : String) (hashOrHeight : Option ScanValue)
    (useIndex : Bool) : Reads (Indexes store) (Except SetFault TxOutSetInfo) :=
  match setHash hashType with
  | none => return .error .invalidParameter
  | some type => do
      let height ← setHeight query useIndex hashOrHeight
      match height with
      | .error fault => return .error fault
      | .ok height => doGetTxOutSetInfo query type height

end Handlers

section Replies

variable {Link Digest Script : Type} [DecidableEq Link] [DecidableEq Digest]
  {store : HeaderStore Link Digest} {ancestry : Ancestry store} {query : SetQuery ancestry Script}

/-! ## A reply is of one link -/

/-- The reply tells of a link. -/
def Tells (query : SetQuery ancestry Script) (link : Link) (info : TxOutSetInfo) : Prop :=
  ∃ type totals digest, readTotals query type (branchOf ancestry link) = some (totals, digest) ∧
    info = txOutSetInfo query type link (store.height link) totals digest

omit [DecidableEq Link] in
theorem readTotals_eq {type : SetHash} {link : Link} {totals : UnspentTotals}
    {digest : Option Digest}
    (read : readTotals query type (branchOf ancestry link) = some (totals, digest)) :
    totals = unspentTotals query.isUnspendable query.scriptSize query.coinSize
      ((branchOf ancestry link).reverse.map query.block) := by
  cases type with
  | serialized =>
      obtain ⟨found, answered, made⟩ := Option.map_eq_some_iff.mp read
      cases made
      exact query.serialized answered
  | muhash =>
      obtain ⟨found, answered, made⟩ := Option.map_eq_some_iff.mp read
      cases made
      exact query.muhash answered
  | none =>
      obtain ⟨found, answered, made⟩ := Option.map_eq_some_iff.mp read
      cases made
      exact query.totals answered

omit [DecidableEq Link] [DecidableEq Digest] in
theorem getAncestry_branch {link : Link} {height : Nat} (placed : store.height link = height)
    {branch : List Link} (found : ancestry.getAncestry (some link) height = some branch) :
    branch = branchOf ancestry link := by
  obtain ⟨read, known, made⟩ := Option.bind_eq_some_iff.mp found
  rw [store.getHeight_eq known, placed, Nat.min_eq_left (Nat.le_succ height)] at made
  rw [branchOf, placed]
  exact (Option.some.inj made).symm

theorem doGetTxOutSetInfo_tells {type : SetHash} {height : Nat} {seen : Nat → Indexes store}
    {info : TxOutSetInfo} (replied : (doGetTxOutSetInfo query type height).run seen = .ok info) :
    ∃ link, (seen 0).toConfirmed height = some link ∧ (seen 1).toConfirmed height = some link ∧
      info.height = height ∧ Tells query link info := by
  unfold doGetTxOutSetInfo at replied
  rw [Reads.run_get_bind] at replied
  cases here : (seen 0).toConfirmed height with
  | none =>
      rw [here] at replied
      cases replied
  | some link =>
  rw [here] at replied
  dsimp only at replied
  have placed : store.height link = height := (seen 0).confirmed.placed height link here
  cases scanned : (ancestry.getAncestry (some link) height).bind (readTotals query type) with
  | none =>
      rw [scanned] at replied
      cases replied
  | some read =>
      obtain ⟨totals, digest⟩ := read
      rw [scanned] at replied
      dsimp only at replied
      rw [Reads.run_get_bind] at replied
      split_ifs at replied with confirmed
      · cases replied
      · cases replied
        obtain ⟨branch, walked, read⟩ := Option.bind_eq_some_iff.mp scanned
        rw [getAncestry_branch placed walked] at read
        have still : (seen 1).toConfirmed (store.height link) = some link := by
          simpa using confirmed
        rw [placed] at still
        refine ⟨link, rfl, still, rfl, type, totals, digest, read, ?_⟩
        rw [placed]

/-! ## The block asked for -/

/-- What a request names is at a height of the chain. -/
def NamesBlock (query : SetQuery ancestry Script) (indexes : Indexes store) (height : Nat)
    (link : Link) : Option ScanValue → Prop
  | none => height = indexes.confirmed.top
  | some (.string text) => query.decodeHash text = some (store.getHeaderKey link)
  | some (.number number) => Text.toInteger (2 ^ 64) number = some height
  | some _ => False

omit [DecidableEq Digest] in
theorem confirmedHeight_run {link : Link} {seen : Nat → Indexes store} {height : Nat}
    (found : (confirmedHeight link).run seen = .ok height) :
    store.height link = height ∧ (seen 0).toConfirmed height = some link := by
  unfold confirmedHeight at found
  rw [Reads.run_get_bind] at found
  split_ifs at found with confirmed
  · cases found
  · cases read : store.getHeight link with
    | none =>
        rw [read] at found
        cases found
    | some known =>
        rw [read] at found
        cases found
        have placed := store.getHeight_eq read
        rw [← placed] at confirmed
        exact ⟨placed.symm, by simpa using confirmed⟩

omit [DecidableEq Link] in
theorem toHeader_eq {indexes : Indexes store} {hash : Digest} {link : Link}
    (found : indexes.toHeader hash = some link) : store.getHeaderKey link = hash := by
  simpa using List.find?_some found

omit [DecidableEq Link] in
theorem namedLink_names {value : ScanValue} {seen : Nat → Indexes store} {link : Link}
    (found : (namedLink query value).run seen = .ok (some link)) :
    (namedLink query value).taken seen = 1 ∧
      ∀ indexes, NamesBlock query indexes (store.height link) link (some value) := by
  cases value with
  | string text =>
      unfold namedLink at found ⊢
      dsimp only at found ⊢
      cases decoded : query.decodeHash text with
      | none =>
          rw [decoded] at found
          cases found
      | some hash =>
          rw [decoded] at found
          refine ⟨rfl, fun _ => ?_⟩
          have key := toHeader_eq (Except.ok.inj found)
          exact decoded.trans (congrArg some key.symm)
  | number number =>
      unfold namedLink at found ⊢
      dsimp only at found ⊢
      cases whole : Text.toInteger (2 ^ 64) number with
      | none =>
          rw [whole] at found
          cases found
      | some height =>
          rw [whole] at found
          refine ⟨rfl, fun _ => ?_⟩
          have placed := (seen 0).confirmed.placed height link (Except.ok.inj found)
          exact whole.trans (congrArg some placed.symm)
  | array items | object fields | other => cases found

/-- The height is that of the block that is named, in the chain that one of the reads sees. -/
theorem setHeight_names {useIndex : Bool} {hashOrHeight : Option ScanValue}
    {seen : Nat → Indexes store} {height : Nat}
    (found : (setHeight query useIndex hashOrHeight).run seen = .ok height) :
    ∃ read link, read ≤ (setHeight query useIndex hashOrHeight).taken seen ∧
      (seen read).toConfirmed height = some link ∧
      NamesBlock query (seen read) height link hashOrHeight := by
  unfold setHeight at found ⊢
  rw [Reads.run_get_bind] at found
  rw [Reads.taken_get_bind]
  cases hashOrHeight with
  | none =>
      cases found
      exact ⟨0, _, Nat.zero_le _, (seen 0).confirmed.links_top, rfl⟩
  | some value =>
  dsimp only at found ⊢
  cases useIndex with
  | false => cases found
  | true =>
  rw [Bool.not_true, if_neg Bool.false_ne_true, Reads.run_bind] at found
  rw [Bool.not_true, if_neg Bool.false_ne_true, Reads.taken_bind]
  cases named : (namedLink query value).run fun later => seen (later + 1) with
  | error fault =>
      rw [named] at found
      cases found
  | ok answer =>
  cases answer with
  | none =>
      rw [named] at found
      cases found
  | some link =>
      rw [named] at found
      obtain ⟨once, names⟩ := namedLink_names named
      rw [once] at found ⊢
      obtain ⟨placed, here⟩ := confirmedHeight_run found
      exact ⟨2, link, by omega, here, placed ▸ names (seen 2)⟩

/-! ## The supply -/

def SetQuery.blocksTo (query : SetQuery ancestry Script) (link : Link) :
    List (TxBlock Digest Script) :=
  (branchOf ancestry link).reverse.map query.block

variable (query) in
omit [DecidableEq Link] in
@[simp] theorem length_blocksTo (link : Link) :
    (query.blocksTo link).length = store.height link := by
  rw [SetQuery.blocksTo, List.length_map, List.length_reverse, branchOf, List.length_iterate]

variable (query) in
omit [DecidableEq Link] in
/-- In a linked chain the blocks to a link are those of the chain. -/
theorem blocksTo_linked {chain : Store.Confirmed store} (linked : ancestry.Linked chain)
    {height : Nat} {link : Link} (here : chain.links[height]? = some link) :
    query.blocksTo link = (chain.above.take height).map query.block := by
  have walked := Ancestry.iterate_linked linked here (Nat.le_succ height)
  rw [Nat.add_sub_cancel_left] at walked
  rw [SetQuery.blocksTo, branchOf, chain.placed height link here, walked, List.reverse_reverse]
  rfl

variable (query) in
omit [DecidableEq Link] in
/-- A block adds itself to the blocks of its parent. -/
theorem blocksTo_parent {link : Link} (positive : 0 < store.height link) :
    query.blocksTo link = query.blocksTo (ancestry.toParent link) ++ [query.block link] := by
  have below := ancestry.height_parent positive
  rw [SetQuery.blocksTo, branchOf, ← below, List.iterate, List.reverse_cons, List.map_append]
  rfl

/-- The sum wraps where the subsidies do not fit. -/
theorem totalSubsidy_eq (subsidy : Nat → Nat) (height : Nat) :
    totalSubsidy subsidy height = issued subsidy height % 2 ^ 64 := by
  unfold totalSubsidy issued
  induction height + 1 with
  | zero => rfl
  | succ count ih =>
      rw [List.range_succ, List.foldl_append, ih, List.map_append, List.sum_append]
      simp

/-- The reply counts the outputs that are unspent after some blocks, and what is missing of the
    subsidies up to the last of them. -/
structure Accounts (query : SetQuery ancestry Script) (blocks : List (TxBlock Digest Script))
    (info : TxOutSetInfo) : Prop where
  txouts : info.txouts = (spendableOf query.isUnspendable (TxChain.heldAfter blocks)).length
  totalAmount : info.totalAmount =
    bitcoins (valueOf (spendableOf query.isUnspendable (TxChain.heldAfter blocks)))
  totalUnspendable : info.totalAmount + info.totalUnspendableAmount =
    bitcoins (issued query.subsidy info.height)

theorem bitcoins_add (left right : Nat) :
    bitcoins (left + right) = bitcoins left + bitcoins right := by
  unfold bitcoins
  push_cast
  ring

omit [DecidableEq Link] in
theorem Tells.accounts {link : Link} {info : TxOutSetInfo} (tells : Tells query link info)
    (supply : Supply query.isUnspendable query.subsidy (query.blocksTo link))
    (small : issued query.subsidy (store.height link) < 2 ^ 64) :
    Accounts query (query.blocksTo link) info := by
  obtain ⟨type, totals, digest, read, rfl⟩ := tells
  cases readTotals_eq read
  have most := supply.valueOf_le
  rw [length_blocksTo] at most
  refine ⟨rfl, rfl, ?_⟩
  rw [txOutSetInfo, ← bitcoins_add, totalSubsidy_eq, Nat.mod_eq_of_lt small]
  refine congrArg bitcoins (Nat.add_sub_of_le ?_)
  exact (Nat.le_add_right _ _).trans most

/-- A reply tells of the block that is pinned at one read and confirmed at the next, at the height
    of the block that is named at a read before. -/
structure Reports (query : SetQuery ancestry Script) (seen : Nat → Indexes store)
    (hashOrHeight : Option ScanValue) (info : TxOutSetInfo) (named link : Link)
    (read pin : Nat) : Prop where
  order : read ≤ pin
  asked : (seen read).toConfirmed info.height = some named
  names : NamesBlock query (seen read) info.height named hashOrHeight
  pinned : (seen pin).toConfirmed info.height = some link
  confirmed : (seen (pin + 1)).toConfirmed info.height = some link
  tells : Tells query link info

theorem handleGetTxOutSetInfo_reports {hashType : String} {hashOrHeight : Option ScanValue}
    {useIndex : Bool} {seen : Nat → Indexes store} {info : TxOutSetInfo}
    (replied : (handleGetTxOutSetInfo query hashType hashOrHeight useIndex).run seen = .ok info) :
    ∃ named link read pin, Reports query seen hashOrHeight info named link read pin := by
  unfold handleGetTxOutSetInfo at replied
  cases typed : setHash hashType with
  | none =>
      rw [typed] at replied
      cases replied
  | some type =>
  rw [typed] at replied
  dsimp only at replied
  rw [Reads.run_bind] at replied
  cases asked : (setHeight query useIndex hashOrHeight).run seen with
  | error fault =>
      rw [asked] at replied
      cases replied
  | ok height =>
      rw [asked] at replied
      obtain ⟨read, named, order, here, names⟩ := setHeight_names asked
      obtain ⟨link, pinned, confirmed, rfl, tells⟩ := doGetTxOutSetInfo_tells replied
      rw [Nat.zero_add] at pinned
      rw [Nat.add_comm] at confirmed
      exact ⟨named, link, read, _, order, here, names, pinned, confirmed, tells⟩

/-- In every interleaving of its reads with changes of the chain, a reply tells of one block that
    is confirmed before and after the scan, which is the block that is asked for where the chain
    is not cut meanwhile.  Where the blocks keep the rules of supply, what is unspent and what is
    reported as unspendable are together exactly the subsidies. -/
theorem txOutSetInfo_supply (start : Indexes store) (schedule : Nat → List (Change Link))
    (hashType : String) (hashOrHeight : Option ScanValue) (useIndex : Bool) :
    let seen := Reads.interleaved Indexes.step start schedule
    ∀ info, (handleGetTxOutSetInfo query hashType hashOrHeight useIndex).run seen = .ok info →
      ∃ named link read pin, Reports query seen hashOrHeight info named link read pin ∧
        ((∀ index, ∀ change ∈ schedule index, Uncut change) → link = named) ∧
        (ancestry.Linked (seen pin).confirmed →
          let blocks := ((seen pin).confirmed.above.take info.height).map query.block
          Supply query.isUnspendable query.subsidy blocks →
            issued query.subsidy info.height < 2 ^ 64 → Accounts query blocks info) := by
  intro seen info replied
  obtain ⟨named, link, read, pin, reports⟩ := handleGetTxOutSetInfo_reports replied
  refine ⟨named, link, read, pin, reports, ?_, ?_⟩
  · intro uncut
    obtain ⟨added, joined⟩ := Store.links_interleaved start uncut reports.order
    have inside := (List.getElem?_eq_some_iff.mp reports.asked).1
    have still := reports.pinned
    rw [Indexes.toConfirmed, ← joined, List.getElem?_append_left inside] at still
    exact Option.some.inj (still.symm.trans reports.asked)
  · intro linked blocks supply small
    have placed := (seen pin).confirmed.placed _ _ reports.pinned
    have same := blocksTo_linked query linked reports.pinned
    unfold blocks at supply ⊢
    rw [← same] at supply ⊢
    exact reports.tells.accounts supply (placed ▸ small)

/-! ## From block to block -/

/-- What a reply tells of a block accounts for its difference from what a reply tells of the block
    below, and the block overwrites nothing. -/
structure Continues (below info : TxOutSetInfo) (told : BlockInfo) : Prop where
  amount : info.totalAmount + told.prevoutSpent + told.unspendables.scripts =
    below.totalAmount + told.coinbase + told.newOutputsExCoinbase
  unspendable : info.totalUnspendableAmount = below.totalUnspendableAmount + told.unspendable
  parts : told.unspendable = told.unspendables.scripts + told.unspendables.unclaimedRewards +
    told.unspendables.bip30
  overwrites : told.unspendables.bip30 = 0

omit [DecidableEq Link] in
/-- What a block adds to the set and to what is missing of it, in satoshis. -/
theorem supply_step {blocks : List (TxBlock Digest Script)} {block : TxBlock Digest Script}
    (supply : Supply query.isUnspendable query.subsidy (blocks ++ [block])) :
    let amounts := blockAmounts query.isUnspendable (TxChain.heldAfter blocks) block
    let unclaimed := query.subsidy (blocks.length + 1) + (amounts.prevouts - amounts.outputs) -
      amounts.coinbase
    let below := valueOf (spendableOf query.isUnspendable (TxChain.heldAfter blocks))
    let here := valueOf (spendableOf query.isUnspendable (TxChain.heldAfter (blocks ++ [block])))
    amounts.bip30 = 0 ∧
      here + amounts.prevouts + amounts.unspendable = below + amounts.coinbase + amounts.outputs ∧
      here + issued query.subsidy blocks.length + (unclaimed + amounts.unspendable) =
        below + issued query.subsidy (blocks.length + 1) := by
  intro amounts unclaimed below here
  have step := supply.valueOf_concat
  have paid := supply.last.paid
  have claimed := supply.last.claimed
  have nothing : amounts.bip30 = 0 := congrArg valueOf supply.overwritten_eq_nil
  refine ⟨nothing, step.trans (Nat.add_assoc _ _ _).symm, ?_⟩
  rw [issued_succ]
  unfold unclaimed amounts blockAmounts below here
  dsimp only
  omega

omit [DecidableEq Link] in
theorem Tells.continues {link : Link} {below info : TxOutSetInfo} (positive : 0 < store.height link)
    (before : Tells query (ancestry.toParent link) below) (tells : Tells query link info)
    (supply : Supply query.isUnspendable query.subsidy (query.blocksTo link))
    (small : issued query.subsidy (store.height link) < 2 ^ 64) {told : BlockInfo}
    (present : info.blockInfo = some told) : Continues below info told := by
  have parent := ancestry.height_parent positive
  have split := blocksTo_parent query positive
  have upper := tells.accounts supply small
  rw [split] at supply upper
  have less : issued query.subsidy (store.height (ancestry.toParent link)) < 2 ^ 64 :=
    Nat.lt_of_le_of_lt (issued_le (Nat.le_of_succ_le parent.le)) small
  have lower := before.accounts supply.of_append less
  obtain ⟨nothing, amount, missing⟩ := supply_step supply
  rw [length_blocksTo, parent] at missing
  have read : info.height = store.height link ∧
      info.blockInfo = blockInfo query link (store.height link) := by
    obtain ⟨type, totals, digest, -, rfl⟩ := tells
    exact ⟨rfl, rfl⟩
  have height : below.height = store.height (ancestry.toParent link) := by
    obtain ⟨type, totals, digest, -, rfl⟩ := before
    rfl
  rw [read.2] at present
  obtain ⟨amounts, found, rfl⟩ := Option.map_eq_some_iff.mp present
  have same := query.amounts positive found
  rw [← SetQuery.blocksTo] at same
  rw [← same] at nothing amount missing
  have amount := congrArg bitcoins amount
  have missing := congrArg bitcoins missing
  simp only [bitcoins_add] at amount missing
  have uppers := upper.totalUnspendable
  have lowers := lower.totalUnspendable
  rw [upper.totalAmount, read.1] at uppers
  rw [lower.totalAmount, height] at lowers
  refine ⟨?_, ?_, ?_, ?_⟩
  · rw [upper.totalAmount, lower.totalAmount]
    exact amount
  · unfold blockInfoOf
    simp only [nothing, Nat.add_zero, bitcoins_add]
    linarith
  · unfold blockInfoOf
    simp only [bitcoins_add]
    ring
  · unfold blockInfoOf
    simp only [nothing]
    simp [bitcoins]

/-- Two replies for a block and for the block below it, whatever the requests and what becomes of
    the chain between their reads, differ by what the upper one tells of its block, where the
    blocks up to it keep the rules of supply, so that no output is ever overwritten, and their
    subsidies fit. -/
theorem txOutSetInfo_continues {seen later : Nat → Indexes store} {types : String × String}
    {named : Option ScanValue × Option ScanValue} {useIndex : Bool × Bool}
    {below info : TxOutSetInfo}
    (first : (handleGetTxOutSetInfo query types.1 named.1 useIndex.1).run seen = .ok below)
    (second : (handleGetTxOutSetInfo query types.2 named.2 useIndex.2).run later = .ok info) :
    ∃ lower upper pin pin', (seen pin).toConfirmed below.height = some lower ∧
      (later pin').toConfirmed info.height = some upper ∧ Tells query lower below ∧
      Tells query upper info ∧ (0 < info.height → ancestry.toParent upper = lower →
        Supply query.isUnspendable query.subsidy (query.blocksTo upper) →
        issued query.subsidy info.height < 2 ^ 64 →
        ∀ told, info.blockInfo = some told → Continues below info told) := by
  obtain ⟨_, lower, _, pin, one⟩ := handleGetTxOutSetInfo_reports first
  obtain ⟨_, upper, _, pin', other⟩ := handleGetTxOutSetInfo_reports second
  refine ⟨lower, upper, pin, pin', one.pinned, other.pinned, one.tells, other.tells, ?_⟩
  intro positive parent supply small told present
  have placed := (later pin').confirmed.placed _ _ other.pinned
  rw [← placed] at positive small
  exact Tells.continues positive (parent ▸ one.tells) other.tells supply small present

end Replies

private theorem unwired_length {_link : Nat} {wire : List UInt8} (same : none = some wire) :
    wire.length = 80 := by
  cases same

private theorem unheaded_hash {link : Nat} {header : Store.BlockHeader Nat}
    (same : none = some header) : header.hash = link := by
  cases same

private theorem height_known {link read : Nat} (same : some link = some read) : read = link :=
  (Option.some.inj same).symm

private theorem height_keyed {first second : Nat} (same : id first = id second) :
    id first = id second := same

/-- Links that are their own keys and heights. -/
private def countedHeaders : HeaderStore Nat Nat where
  getHeaderKey := id
  height := id
  getHeight := some
  getHeader _ := none
  getWireHeader _ := none
  getContext _ := none
  getHeight_eq := @height_known
  hash_eq := @unheaded_hash
  wire_length := @unwired_length
  height_of_key := @height_keyed

private theorem counted_sum {link : Nat} (positive : 0 < link) : link = 1 + Nat.pred link := by
  rw [Nat.add_comm]
  exact (Nat.succ_pred_eq_of_pos positive).symm

private theorem counted_parent {link : Nat} (positive : 0 < link) : Nat.pred link + 1 = link :=
  Nat.succ_pred_eq_of_pos positive

private theorem counted_work {link read : Nat} (same : none = some read) : read = link := by
  cases same

private def countedAncestry : Ancestry countedHeaders where
  toParent := Nat.pred
  height_parent := @counted_parent
  getTxCount _ := 1
  getBranchTxCount := id
  branch_tx_count := @counted_sum
  proof _ := 1
  work := id
  getBranchWork _ := none
  work_eq := @counted_work
  branch_work := @counted_sum

/-- A coin is issued, and then spent with a fee, to a script of each kind. -/
private def issuedBlock (link : Nat) : TxBlock Nat Bool :=
  if link = 2 then
    ⟨2, [⟨21, true, [⟨5000000001, false⟩], []⟩,
      ⟨22, false, [⟨3000000000, false⟩, ⟨1999999999, true⟩], [toLex (11, 0)]⟩]⟩
  else ⟨link, [⟨10 * link + 1, true, [⟨5000000000, false⟩], []⟩]⟩

private def countedTotals (branch : List Nat) : UnspentTotals :=
  unspentTotals id (fun _ => 25) (fun _ => 74) (branch.reverse.map issuedBlock)

private def countedAmounts (link : Nat) : BlockAmounts :=
  blockAmounts id
    (TxChain.heldAfter ((branchOf countedAncestry (Nat.pred link)).reverse.map issuedBlock))
    (issuedBlock link)

private theorem countedTotals_eq {link : Nat} {read : UnspentTotals}
    (same : some (countedTotals (branchOf countedAncestry link)) = some read) :
    read = countedTotals (branchOf countedAncestry link) := (Option.some.inj same).symm

private theorem countedPair_eq {link : Nat} {read : UnspentTotals × Nat}
    (same : some (countedTotals (branchOf countedAncestry link), 7) = some read) :
    read.1 = countedTotals (branchOf countedAncestry link) :=
  congrArg Prod.fst (Option.some.inj same).symm

private theorem countedAmounts_eq {link : Nat} {read : BlockAmounts} (_ : 0 < link)
    (same : some (countedAmounts link) = some read) : read = countedAmounts link :=
  (Option.some.inj same).symm

private def countedQuery : SetQuery countedAncestry Bool where
  decodeHash text := text.toNat?
  encodeHash hash := String.ofList (List.replicate hash 'x')
  subsidy _ := 5000000000
  isUnspendable := id
  scriptSize _ := 25
  coinSize _ := 74
  block := issuedBlock
  getUnspentTotals branch := some (countedTotals branch)
  getUnspentMuhash branch := some (countedTotals branch, 7)
  getUnspentSerialized branch := some (countedTotals branch, 7)
  getBlockAmounts link := some (countedAmounts link)
  totals := @countedTotals_eq
  muhash := @countedPair_eq
  serialized := @countedPair_eq
  amounts := @countedAmounts_eq

private theorem counted_placed (index link : Nat) (here : [0, 1, 2][index]? = some link) :
    link = index := by
  rcases index with _ | _ | _ | index
  all_goals cases here
  all_goals rfl

private def twoIssued : Indexes countedHeaders where
  archived := []
  candidateTop := 2
  confirmed := {
    genesis := 0
    above := [1, 2]
    placed := counted_placed
    bounded := Nat.lt_two_pow_self.trans_le (Nat.pow_le_pow_right Nat.two_pos
      (Nat.le_add_left 3 61)) }

private theorem twoIssued_supply :
    Supply countedQuery.isUnspendable countedQuery.subsidy (countedQuery.blocksTo 2) where
  distinct := by
    unfold Store.DistinctPoints
    decide
  spendable := by
    refine ⟨?_, ?_, ?_, ?_, ?_, ?_, trivial⟩
    all_goals decide
  funded := by
    intro before block after split
    have listed : countedQuery.blocksTo 2 = [issuedBlock 1, issuedBlock 2] := rfl
    rw [listed] at split
    rcases before with _ | ⟨first, _ | ⟨second, before⟩⟩
    · cases split
      exact ⟨by decide, by decide, by decide⟩
    · cases split
      exact ⟨by decide, by decide, by decide⟩
    · cases before <;> cases split

private theorem twoIssued_linked : countedAncestry.Linked twoIssued.confirmed := by
  intro height link above here there
  have chain : twoIssued.confirmed.links = [0, 1, 2] := rfl
  rw [chain] at here there
  rcases height with _ | _ | _ | height
  all_goals cases here
  all_goals cases there
  all_goals rfl

private theorem quiet (index : Nat) :
    Reads.interleaved Indexes.step twoIssued (fun _ => []) index = twoIssued := by
  induction index with
  | zero => rfl
  | succ index ih => exact ih

/-- The set of the top is worth the three subsidies less that of genesis and what is unspendable. -/
theorem txOutSetInfo_supply_two :
    ∃ info, (handleGetTxOutSetInfo countedQuery "muhash" none true).run
        (Reads.interleaved Indexes.step twoIssued fun _ => []) = .ok info ∧
      Accounts countedQuery [issuedBlock 1, issuedBlock 2] info := by
  have replied : ∃ info, (handleGetTxOutSetInfo countedQuery "muhash" none true).run
      (Reads.interleaved Indexes.step twoIssued fun _ => []) = .ok info ∧ info.height = 2 :=
    ⟨_, rfl, rfl⟩
  obtain ⟨info, replied, height⟩ := replied
  obtain ⟨named, link, read, pin, -, -, accounts⟩ :=
    txOutSetInfo_supply twoIssued (fun _ => []) "muhash" none true info replied
  rw [quiet, height] at accounts
  exact ⟨info, replied, accounts twoIssued_linked twoIssued_supply (by decide)⟩

theorem txOutSetInfo_continues_two :
    let seen := fun _ : Nat => twoIssued
    ∃ below info told,
      (handleGetTxOutSetInfo countedQuery "none" (some (.number 1)) true).run seen = .ok below ∧
        (handleGetTxOutSetInfo countedQuery "muhash" none true).run seen = .ok info ∧
        Continues below info told := by
  intro seen
  have first : ∃ below, (handleGetTxOutSetInfo countedQuery "none" (some (.number 1)) true).run
      seen = .ok below ∧ below.height = 1 := ⟨_, rfl, rfl⟩
  have second : ∃ info, (handleGetTxOutSetInfo countedQuery "muhash" none true).run seen =
      .ok info ∧ info.height = 2 ∧ ∃ told, info.blockInfo = some told := ⟨_, rfl, rfl, _, rfl⟩
  obtain ⟨below, first, low⟩ := first
  obtain ⟨info, second, high, told, present⟩ := second
  obtain ⟨lower, upper, pin, pin', here, there, -, -, continues⟩ :=
    @txOutSetInfo_continues _ _ _ _ _ _ _ countedQuery seen seen ("none", "muhash")
      (some (.number 1), none) (true, true) below info first second
  rw [low] at here
  rw [high] at there continues
  cases here
  cases there
  exact ⟨below, info, told, first, second,
    continues Nat.two_pos rfl twoIssued_supply (by decide) told present⟩

end LibbitcoinServer.Bitcoind
