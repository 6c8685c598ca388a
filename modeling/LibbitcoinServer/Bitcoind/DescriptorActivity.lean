import LibbitcoinServer.Bitcoind.ScanTxOutSet
import LibbitcoinServer.Lib.Traverse
import LibbitcoinServer.Store.Transactions

/-! # The activity of descriptors

What the transactions of some blocks, and of the pool, pay to the watched scripts and spend from
them.  Told of consecutive blocks of a chain, a reader comes from what was unspent before them
to what is unspent after them.
-/

namespace LibbitcoinServer.Bitcoind

open LibbitcoinServer.Store (ChainTx Put TxBlock TxChain coinBlocks entryOf DistinctPoints
  Spendable)

inductive ActivityFault where
  | miscError
  | invalidAddressOrKey
  | invalidParameter
  | internalError
  deriving DecidableEq

/-- An entry of the activity, with the hash and the height of its block.  The hashes stand for
    their texts. -/
inductive Activity (Digest Json : Type) where
  | receive (amount : ℚ) (txid : Digest) (vout : Nat) (outputSpk : Json)
      (location : Option (Digest × Nat))
  | spend (amount : ℚ) (spendTxid : Digest) (spendVin : Nat) (prevoutTxid : Digest)
      (prevoutVout : Nat) (prevoutSpk : Json) (location : Option (Digest × Nat))
  deriving DecidableEq

def Activity.location {Digest Json : Type} : Activity Digest Json → Option (Digest × Nat)
  | .receive _ _ _ _ location => location
  | .spend _ _ _ _ _ _ location => location

/-- What the code takes from the store and from the library: blocks and heights by hash, the
    outputs that inputs are populated with, the unconfirmed history of a script, transactions
    by link, and the text and the object of a script. -/
structure ActivityQuery (Digest Link Script Json : Type) where
  decodeHash : String → Option Digest
  getBlock : Digest → Option (TxBlock Digest Script)
  getHeight : Digest → Option Nat
  getOutput : Point Digest → Option (Put Script)
  getUnconfirmedHistory : Script → Option (List Digest)
  toTx : Digest → Link
  getTransaction : Link → Option (ChainTx Digest Script)
  encodeScript : Script → String
  toScriptPublicKey : Script → Json

/-- The transaction that an entry is of. -/
def Activity.txid {Digest Json : Type} : Activity Digest Json → Digest
  | .receive _ txid _ _ _ => txid
  | .spend _ spendTxid _ _ _ _ _ => spendTxid

section Handler

variable {Digest Link Script Json : Type} [DecidableEq Link]
  (query : ActivityQuery Digest Link Script Json) (parse : String → Option (Descriptor Script))

def Activity.ofPut (put : Put Script) : ℚ × Json :=
  (put.bitcoins, query.toScriptPublicKey put.script)

def watches (watch : List String) (put : Put Script) : Bool :=
  query.encodeScript put.script ∈ watch

/-- `inject_activity` of a transaction, with the outputs that its inputs spend. -/
def injectActivity (watch : List String) (location : Option (Digest × Nat))
    (tx : ChainTx Digest Script) (prevouts : List (Put Script)) : List (Activity Digest Json) :=
  let received := (tx.outputs.zipIdx.filter fun put => watches query watch put.1).map fun put =>
    let view := Activity.ofPut query put.1
    Activity.receive view.1 tx.hash put.2 view.2 location
  if tx.isCoinbase then received
  else
    received ++ ((tx.points.zip prevouts).zipIdx.filter fun input =>
      watches query watch input.1.2).map fun input =>
        let view := Activity.ofPut query input.1.2
        let point := ofLex input.1.1
        Activity.spend view.1 tx.hash input.2 point.1 point.2 view.2 location

/-- `populate_without_metadata`, which passes over a coinbase. -/
def populate (tx : ChainTx Digest Script) : Option (List (Put Script)) :=
  tx.spends.mapM query.getOutput

/-- One turn of the loop over the hashes of blocks. -/
def injectBlock (watch : List String) :
    ScanValue → Except ActivityFault (List (Activity Digest Json))
  | .string text =>
      match query.decodeHash text with
      | none => .error .invalidParameter
      | some hash =>
          match query.getBlock hash with
          | none => .error .invalidAddressOrKey
          | some block =>
              match query.getHeight hash, block.transactions.mapM (populate query) with
              | some height, some prevouts =>
                  .ok ((block.transactions.zip prevouts).flatMap fun tx =>
                    injectActivity query watch (some (hash, height)) tx.1 tx.2)
              | _, _ => .error .internalError
  | _ => .error .invalidParameter

/-- The links of the unconfirmed history of a script that are not seen yet. -/
def seeHistory (links : List Link) (script : Script) : Except ActivityFault (List Link) :=
  match query.getUnconfirmedHistory script with
  | none => .error .internalError
  | some history => .ok (history.foldl (fun links hash =>
      if query.toTx hash ∈ links then links else links ++ [query.toTx hash]) links)

def pooledLinks (derived : List Script) : Except ActivityFault (List Link) :=
  derived.foldlM (seeHistory query) []

def injectPooled (watch : List String) (link : Link) :
    Except ActivityFault (List (Activity Digest Json)) :=
  match query.getTransaction link with
  | none => .error .internalError
  | some tx =>
      match populate query tx with
      | none => .error .internalError
      | some prevouts => .ok (injectActivity query watch none tx prevouts)

def doGetDescriptorActivity (blockhashes objects : List ScanValue) (includeMempool : Bool) :
    Except ActivityFault (List (Activity Digest Json)) :=
  match expandScanObjects parse objects with
  | none => .error .invalidAddressOrKey
  | some derived => do
      let watch := derived.map query.encodeScript
      let confirmed ← blockhashes.mapM (injectBlock query watch)
      if includeMempool then
        let links ← pooledLinks query derived
        let pooled ← links.mapM (injectPooled query watch)
        return confirmed.flatten ++ pooled.flatten
      else return confirmed.flatten

def handleGetDescriptorActivity (addressEnabled : Bool) (blockhashes objects : List ScanValue)
    (includeMempool : Bool) : Except ActivityFault (List (Activity Digest Json)) :=
  if includeMempool && !addressEnabled then .error .miscError
  else doGetDescriptorActivity query parse blockhashes objects includeMempool

end Handler

/-! ## What an entry tells -/

/-- What is held at a point by a reader of the activity. -/
def Activity.event {Digest Json : Type} :
    Activity Digest Json → Ledger.Event (Point Digest) (ℚ × Json)
  | .receive amount txid vout outputSpk _ => .receive (toLex (txid, vout)) (amount, outputSpk)
  | .spend amount _ _ prevoutTxid prevoutVout prevoutSpk _ =>
      .spend (toLex (prevoutTxid, prevoutVout)) (amount, prevoutSpk)

section Told

variable {Digest Link Script Json : Type}
  {query : ActivityQuery Digest Link Script Json} {watch : List String}

def turnOf (tx : ChainTx Digest Script) (prevouts : List (Put Script)) :
    Ledger.Turn (Point Digest) (Put Script) :=
  ⟨tx.creates, tx.spends.zip prevouts⟩

theorem place_injectActivity {location : Option (Digest × Nat)} {tx : ChainTx Digest Script}
    {prevouts : List (Put Script)} {entry : Activity Digest Json}
    (member : entry ∈ injectActivity query watch location tx prevouts) :
    entry.location = location ∧ entry.txid = tx.hash := by
  unfold injectActivity at member
  split_ifs at member with coinbase
  · obtain ⟨put, -, rfl⟩ := List.mem_map.mp member
    exact ⟨rfl, rfl⟩
  · cases List.mem_append.mp member with
    | inl received =>
        obtain ⟨put, -, rfl⟩ := List.mem_map.mp received
        exact ⟨rfl, rfl⟩
    | inr spent =>
        obtain ⟨input, -, rfl⟩ := List.mem_map.mp spent
        exact ⟨rfl, rfl⟩

theorem event_injectActivity (location : Option (Digest × Nat)) (tx : ChainTx Digest Script)
    (prevouts : List (Put Script)) :
    (injectActivity query watch location tx prevouts).map Activity.event =
      ((turnOf tx prevouts).events fun entry => watches query watch entry.2).map
        (Ledger.Event.map (Activity.ofPut query)) := by
  have received : ((tx.outputs.zipIdx.filter fun put => watches query watch put.1).map fun put =>
        let view := Activity.ofPut query put.1
        Activity.receive view.1 tx.hash put.2 view.2 location).map Activity.event =
      ((tx.creates.filter fun entry => watches query watch entry.2).map fun entry =>
        Ledger.Event.receive entry.1 entry.2).map (Ledger.Event.map (Activity.ofPut query)) := by
    simp only [ChainTx.creates, List.filter_map, List.map_map]
    rfl
  unfold injectActivity Ledger.Turn.events turnOf
  rw [List.map_append]
  cases coinbase : tx.isCoinbase with
  | true => simp [ChainTx.spends, coinbase, received]
  | false =>
      have whole : (tx.points.zip prevouts).zipIdx.map Prod.fst = tx.points.zip prevouts :=
        List.zipIdx_map_fst 0 _
      have points : tx.spends = tx.points := by simp [ChainTx.spends, coinbase]
      simp only [Bool.false_eq_true, if_false, List.map_append, received, points]
      congr 1
      nth_rewrite 2 [← whole]
      simp only [List.filter_map, List.map_map]
      rfl

variable [DecidableEq Digest] {held : List (Point Digest × Put Script)}
  {tx : ChainTx Digest Script} {txs : List (ChainTx Digest Script)}

/-- The store answers for a point with what is held at it. -/
def Answers (query : ActivityQuery Digest Link Script Json)
    (entries : List (Point Digest × Put Script)) : Prop :=
  ∀ entry ∈ entries, query.getOutput entry.1 = some entry.2

omit [DecidableEq Digest] in
theorem Answers.mapM (answers : Answers query held) {points : List (Point Digest)}
    (known : ∀ point ∈ points, point ∈ held.map Prod.fst) :
    ∃ prevouts, points.mapM query.getOutput = some prevouts ∧
      (points.zip prevouts).map Prod.fst = points ∧
      ∀ entry ∈ points.zip prevouts, entry ∈ held := by
  induction points with
  | nil => exact ⟨[], rfl, rfl, nofun⟩
  | cons point points ih =>
      obtain ⟨here, later⟩ := List.forall_mem_cons.mp known
      obtain ⟨prevouts, read, whole, inside⟩ := ih later
      obtain ⟨entry, member, rfl⟩ := List.mem_map.mp here
      refine ⟨entry.2 :: prevouts, ?_, ?_, ?_⟩
      · simp [List.mapM_cons, answers entry member, read]
      · rw [List.zip_cons_cons, List.map_cons, whole]
      · exact List.forall_mem_cons.mpr ⟨member, inside⟩

theorem Answers.advance (answers : Answers query held) (own : Answers query tx.creates) :
    Answers query (Store.advance held tx) := by
  intro entry member
  cases List.mem_append.mp (List.mem_of_mem_filter member) with
  | inl before => exact answers entry before
  | inr created => exact own entry created

/-- A transaction that spends what is unspent is populated with it, and makes of it what the
    chain does. -/
theorem Answers.populate (answers : Answers query held)
    (fresh : ((held ++ tx.creates).map Prod.fst).Nodup) (once : tx.spends.Nodup)
    (known : ∀ point ∈ tx.spends, point ∈ held.map Prod.fst) :
    ∃ prevouts, Bitcoind.populate query tx = some prevouts ∧
      (turnOf tx prevouts).Applies held ∧
      Ledger.Turn.after held (turnOf tx prevouts) = Store.advance held tx := by
  obtain ⟨prevouts, read, whole, inside⟩ := answers.mapM known
  refine ⟨prevouts, read, ⟨fresh, ?_, inside⟩, ?_⟩
  · unfold turnOf
    rwa [whole]
  · unfold Ledger.Turn.after turnOf
    rw [Store.advance_eq]
    refine List.filter_congr fun entry _ => decide_eq_decide.mpr ?_
    rw [whole]

variable [DecidableEq Script] [DecidableEq Json]

/-- What a reader of the activity holds of some outputs. -/
def watched (query : ActivityQuery Digest Link Script Json) (watch : List String)
    (entries : List (Point Digest × Put Script)) : List (Point Digest × (ℚ × Json)) :=
  (entries.filter fun entry => watches query watch entry.2).map
    (Prod.map id (Activity.ofPut query))

variable (watch) in
/-- The activity of transactions, one after another. -/
theorem replay_transactions (answers : Answers query (held ++ txs.flatMap ChainTx.creates))
    (distinct : DistinctPoints held txs) (spendable : Spendable held txs)
    (location : Option (Digest × Nat)) :
    ∃ prevouts, txs.mapM (populate query) = some prevouts ∧
      Ledger.Event.replay (watched query watch held)
          (((txs.zip prevouts).flatMap fun tx =>
            injectActivity query watch location tx.1 tx.2).map Activity.event) =
        some (watched query watch (txs.foldl Store.advance held)) := by
  induction txs generalizing held with
  | nil => exact ⟨[], rfl, rfl⟩
  | cons tx txs ih =>
      obtain ⟨once, known, rest⟩ := spendable
      rw [List.flatMap_cons, ← List.append_assoc] at answers
      obtain ⟨front, later⟩ := List.forall_mem_append.mp answers
      obtain ⟨here, own⟩ := List.forall_mem_append.mp front
      obtain ⟨prevouts, populated, applies, after⟩ :=
        Answers.populate here distinct.fresh once known
      have next : Answers query (Store.advance held tx ++ txs.flatMap ChainTx.creates) :=
        List.forall_mem_append.mpr ⟨Answers.advance here own, later⟩
      obtain ⟨others, read, replayed⟩ := ih next distinct.advance rest
      refine ⟨prevouts :: others, by simp [List.mapM_cons, populated, read], ?_⟩
      have first := Ledger.replay_map (Activity.ofPut query)
        (applies.replay_events fun entry => watches query watch entry.2)
      rw [← event_injectActivity location, after] at first
      rw [List.zip_cons_cons, List.flatMap_cons, List.map_append]
      exact (Ledger.Event.replay_append first _).trans replayed

/-- The store has the blocks of a chain, at their heights, and their outputs. -/
structure Archives (query : ActivityQuery Digest Link Script Json)
    (chain : TxChain Digest Script) : Prop where
  block : ∀ block ∈ chain.blocks, query.getBlock block.hash = some block
  height : ∀ {height block}, chain.blocks[height]? = some block →
    query.getHeight block.hash = some height
  output : ∀ block ∈ chain.blocks, Answers query block.creates

/-- A request names a block by the text of its hash. -/
def Names (query : ActivityQuery Digest Link Script Json) (item : ScanValue)
    (block : TxBlock Digest Script) : Prop :=
  ∃ text, item = .string text ∧ query.decodeHash text = some block.hash

variable {chain : TxChain Digest Script} {before segment after : List (TxBlock Digest Script)}

/-- The entries of a block lead a reader from what was unspent before it to what is after it.
    They are of its transactions, and tell its hash and height. -/
structure ToldOf (query : ActivityQuery Digest Link Script Json) (watch : List String)
    (before : List (TxBlock Digest Script)) (block : TxBlock Digest Script)
    (entries : List (Activity Digest Json)) : Prop where
  leads : Ledger.Event.replay (watched query watch (TxChain.heldAfter before))
      (entries.map Activity.event) =
    some (watched query watch (TxChain.heldAfter (before ++ [block])))
  placed : ∀ entry ∈ entries, entry.location = some (block.hash, before.length) ∧
    ∃ tx ∈ block.transactions, entry.txid = tx.hash

/-- The activity of the block that comes next in a chain. -/
theorem Archives.injectBlock {block : TxBlock Digest Script} (archives : Archives query chain)
    (split : chain.blocks = before ++ block :: after) {item : ScanValue}
    (names : Names query item block) :
    ∃ found, Bitcoind.injectBlock query watch item = .ok found ∧
      ToldOf query watch before block found := by
  obtain ⟨text, rfl, decoded⟩ := names
  have here : chain.blocks[before.length]? = some block := by simp [split]
  have member : block ∈ chain.blocks := List.mem_of_getElem? here
  obtain ⟨distinct, spendable⟩ := chain.split_after split
  rw [List.flatMap_cons] at distinct spendable
  have answers : Answers query (TxChain.heldAfter before ++ block.creates) := by
    apply List.forall_mem_append.mpr ⟨?_, archives.output block member⟩
    intro entry inside
    obtain ⟨other, earlier, created⟩ := TxChain.mem_heldAfter inside
    exact archives.output other (split ▸ List.mem_append_left _ earlier) entry created
  let location := some (block.hash, before.length)
  obtain ⟨prevouts, read, replayed⟩ := replay_transactions watch answers
    distinct.of_append (Spendable.append.mp spendable).1 location
  refine ⟨(block.transactions.zip prevouts).flatMap fun tx =>
    injectActivity query watch location tx.1 tx.2, ?_, ?_, ?_⟩
  · unfold Bitcoind.injectBlock
    simp only [decoded, archives.block block member, archives.height here, read]
    rfl
  · rw [replayed, TxChain.heldAfter, TxChain.heldAfter, List.flatMap_append, List.foldl_append]
    simp
  · intro entry inside
    obtain ⟨tx, paired, inside⟩ := List.mem_flatMap.mp inside
    obtain ⟨place, hash⟩ := place_injectActivity inside
    exact ⟨place, tx.1, (List.of_mem_zip paired).1, hash⟩

/-- The activity of consecutive blocks is told block by block. -/
theorem Archives.injectBlocks (archives : Archives query chain) {items : List ScanValue}
    (names : List.Forall₂ (Names query) items segment)
    (split : chain.blocks = before ++ (segment ++ after)) :
    ∃ found, items.mapM (Bitcoind.injectBlock query watch) = .ok found ∧
      found.length = segment.length ∧
      ∀ index block entries, segment[index]? = some block → found[index]? = some entries →
        ToldOf query watch (before ++ segment.take index) block entries := by
  induction names generalizing before with
  | nil => exact ⟨[], rfl, rfl, nofun⟩
  | @cons item block items segment name names ih =>
      obtain ⟨first, made, told⟩ := archives.injectBlock split name
      have further : chain.blocks = (before ++ [block]) ++ (segment ++ after) := by
        rw [split, List.append_assoc]
        rfl
      obtain ⟨rest, others, same, later⟩ := ih further
      refine ⟨first :: rest, ?_, congrArg Nat.succ same, ?_⟩
      · rw [List.mapM_cons, made, others]
        rfl
      · intro index other entries here there
        cases index with
        | zero =>
            cases here
            cases there
            simpa using told
        | succ index =>
            have next := later index other entries here there
            rw [List.append_assoc] at next
            exact next

omit [DecidableEq Script] in
/-- What is told block by block leads a reader across all of the blocks. -/
theorem replay_flatten {found : List (List (Activity Digest Json))}
    (same : found.length = segment.length)
    (told : ∀ index block entries, segment[index]? = some block → found[index]? = some entries →
      ToldOf query watch (before ++ segment.take index) block entries) :
    Ledger.Event.replay (watched query watch (TxChain.heldAfter before))
        (found.flatten.map Activity.event) =
      some (watched query watch (TxChain.heldAfter (before ++ segment))) := by
  induction segment generalizing before found with
  | nil =>
      rw [List.length_eq_zero_iff.mp same, List.append_nil]
      rfl
  | cons block segment ih =>
      cases found with
      | nil => cases same
      | cons entries found =>
          have first := (told 0 block entries rfl rfl).leads
          have rest := @ih (before ++ [block]) found (Nat.succ.inj same) (by
            intro index other others here there
            have next := told (index + 1) other others here there
            rwa [List.take_succ_cons, List.append_cons] at next)
          rw [List.take_zero, List.append_nil] at first
          rw [List.flatten_cons, List.map_append]
          have joined := (Ledger.Event.replay_append first _).trans rest
          rwa [List.append_assoc] at joined

omit [DecidableEq Script] [DecidableEq Json] in
theorem nodup_watched (chain : TxChain Digest Script) (split : chain.blocks = before ++ after) :
    ((watched query watch (TxChain.heldAfter before)).map Prod.fst).Nodup := by
  have distinct : ((TxChain.heldAfter before).map Prod.fst).Nodup :=
    (chain.split_after split).1.sublist ((List.sublist_append_left _ _).map Prod.fst)
  let kept := (TxChain.heldAfter before).filter fun entry => watches query watch entry.2
  have keys : (watched query watch (TxChain.heldAfter before)).map Prod.fst =
      kept.map Prod.fst := by
    simp [kept, watched, List.map_map, Function.comp_def]
  rw [keys]
  exact distinct.sublist (List.filter_sublist.map Prod.fst)

end Told

section Pool

variable {Digest Link Script Json : Type} [DecidableEq Link]
  {query : ActivityQuery Digest Link Script Json} {watch : List String}

theorem nodup_foldl_links (history : List Digest) {links : List Link} (distinct : links.Nodup) :
    (history.foldl (fun links hash =>
      if query.toTx hash ∈ links then links else links ++ [query.toTx hash]) links).Nodup := by
  induction history generalizing links with
  | nil => exact distinct
  | cons hash history ih =>
      rw [List.foldl_cons]
      split_ifs with seen
      · exact ih distinct
      · exact ih (List.Nodup.append distinct (List.nodup_singleton _)
          (List.disjoint_singleton.mpr seen))

/-- No transaction of the pool is told twice. -/
theorem nodup_seeHistory {derived : List Script} {before links : List Link}
    (distinct : before.Nodup) (gathered : derived.foldlM (seeHistory query) before = .ok links) :
    links.Nodup := by
  induction derived generalizing before with
  | nil =>
      cases gathered
      exact distinct
  | cons script derived ih =>
      rw [List.foldlM_cons, seeHistory] at gathered
      cases found : query.getUnconfirmedHistory script with
      | none =>
          rw [found] at gathered
          cases gathered
      | some history =>
          rw [found] at gathered
          exact ih (nodup_foldl_links history distinct) gathered

omit [DecidableEq Link] in
theorem location_injectPooled {link : Link} {found : List (Activity Digest Json)}
    (made : injectPooled query watch link = .ok found) :
    ∀ entry ∈ found, entry.location = none := by
  unfold injectPooled at made
  cases read : query.getTransaction link with
  | none =>
      simp only [read] at made
      cases made
  | some tx =>
  cases populated : populate query tx with
  | none =>
      simp only [read, populated] at made
      cases made
  | some prevouts =>
      simp only [read, populated] at made
      cases made
      exact fun entry member => (place_injectActivity member).1

end Pool

section Replayed

variable {Digest Link Script Json : Type} [DecidableEq Digest] [DecidableEq Link]
  [DecidableEq Script] [DecidableEq Json]

/-- The activity of consecutive blocks of a chain leads a reader from the watched outputs that
    are unspent before them to those that are after them, and its amounts balance.  It is told
    block by block: the entries of each lead across it, are of its transactions, and tell its
    hash and height.  With the pool, the same entries come first, and no transaction of the pool
    is told twice. -/
theorem descriptorActivity_replays (query : ActivityQuery Digest Link Script Json)
    (parse : String → Option (Descriptor Script)) (chain : TxChain Digest Script)
    (archives : Archives query chain) {before segment after : List (TxBlock Digest Script)}
    (split : chain.blocks = before ++ (segment ++ after)) {objects items : List ScanValue}
    {scripts : List Script} (expands : expandScanObjects parse objects = some scripts)
    (names : List.Forall₂ (Names query) items segment) :
    let watch := scripts.map query.encodeScript
    let held := fun blocks => watched query watch ((unspent (coinBlocks blocks)).map entryOf)
    ∃ confirmed, (∀ enabled,
        handleGetDescriptorActivity query parse enabled items objects false = .ok confirmed) ∧
      Ledger.Event.replay (held before) (confirmed.map Activity.event) =
        some (held (before ++ segment)) ∧
      ((held before).map fun entry => entry.2.1).sum +
          (confirmed.map fun entry => entry.event.received Prod.fst).sum =
        ((held (before ++ segment)).map fun entry => entry.2.1).sum +
          (confirmed.map fun entry => entry.event.spent Prod.fst).sum ∧
      (∃ told : List (List (Activity Digest Json)), confirmed = told.flatten ∧
        told.length = segment.length ∧
        ∀ index block entries, segment[index]? = some block → told[index]? = some entries →
          Ledger.Event.replay (held (before ++ segment.take index)) (entries.map Activity.event) =
            some (held (before ++ segment.take (index + 1))) ∧
          ∀ entry ∈ entries, entry.location = some (block.hash, before.length + index) ∧
            ∃ tx ∈ block.transactions, entry.txid = tx.hash) ∧
      ∀ enabled activity,
        handleGetDescriptorActivity query parse enabled items objects true = .ok activity →
          ∃ links pooled, pooledLinks query scripts = .ok links ∧ links.Nodup ∧
            links.mapM (injectPooled query watch) = .ok pooled ∧
            activity = confirmed ++ pooled.flatten ∧
            ∀ entry ∈ pooled.flatten, entry.location = none := by
  intro watch held
  obtain ⟨found, made, same, told⟩ := @Archives.injectBlocks _ _ _ _ query watch _ _ _ chain
    before segment after archives items names split
  have unspentAt : ∀ index, held (before ++ segment.take index) =
      watched query watch (TxChain.heldAfter (before ++ segment.take index)) := by
    intro index
    have joined : chain.blocks =
        (before ++ segment.take index) ++ (segment.drop index ++ after) := by
      rw [split, List.append_assoc, ← List.append_assoc (segment.take index), List.take_append_drop]
    exact congrArg (watched query watch) (chain.map_entryOf_unspent joined)
  have unspentBefore : held before = watched query watch (TxChain.heldAfter before) :=
    congrArg (watched query watch) (chain.map_entryOf_unspent split)
  have unspentAfter : held (before ++ segment) =
      watched query watch (TxChain.heldAfter (before ++ segment)) := by
    have whole := unspentAt segment.length
    rwa [List.take_length] at whole
  have replayed : Ledger.Event.replay (held before) (found.flatten.map Activity.event) =
      some (held (before ++ segment)) := by
    rw [unspentBefore, unspentAfter]
    exact replay_flatten same told
  have conserved := Ledger.replay_conserves (unspentBefore ▸ nodup_watched chain split)
    (Prod.fst : ℚ × Json → ℚ) replayed
  rw [List.map_map, List.map_map] at conserved
  refine ⟨found.flatten, ?_, replayed, conserved, ⟨found, rfl, same, ?_⟩, ?_⟩
  · intro enabled
    simp only [handleGetDescriptorActivity, doGetDescriptorActivity, expands]
    rw [made]
    rfl
  · intro index block entries here there
    have of := told index block entries here there
    obtain ⟨inside, -⟩ := List.getElem?_eq_some_iff.mp here
    have next : before ++ segment.take (index + 1) = before ++ segment.take index ++ [block] := by
      rw [List.take_add_one, here, Option.toList_some, List.append_assoc]
    have length : (before ++ segment.take index).length = before.length + index := by
      rw [List.length_append, List.length_take_of_le inside.le]
    refine ⟨?_, length ▸ of.placed⟩
    rw [unspentAt, unspentAt, next]
    exact of.leads
  · intro enabled activity done
    unfold handleGetDescriptorActivity at done
    split_ifs at done
    simp only [doGetDescriptorActivity, expands] at done
    rw [made] at done
    cases gathered : pooledLinks query scripts with
    | error fault =>
        rw [gathered] at done
        cases done
    | ok links =>
    cases read : links.mapM (injectPooled query watch) with
    | error fault =>
        rw [gathered] at done
        change (links.mapM (injectPooled query watch) >>= _) = _ at done
        rw [read] at done
        cases done
    | ok pooled =>
        rw [gathered] at done
        change (links.mapM (injectPooled query watch) >>= _) = _ at done
        rw [read] at done
        cases done
        refine ⟨links, pooled, rfl, nodup_seeHistory List.nodup_nil gathered, read, rfl, ?_⟩
        intro entry inside
        obtain ⟨list, member, inside⟩ := List.mem_flatten.mp inside
        exact Traverse.forall_of_mapM_ok (fun _ _ made => location_injectPooled made) read list
          member entry inside

end Replayed

private def coinbaseTx (hash script : Nat) : ChainTx Nat Nat :=
  ⟨hash, true, [⟨5000000000, script⟩], [toLex (0, 2 ^ 32 - 1)]⟩

/-- A coin is paid to a watched script, and moved to another watched script and a stranger. -/
private def paymentBlocks : List (TxBlock Nat Nat) :=
  [⟨0, [coinbaseTx 10 1]⟩, ⟨1, [coinbaseTx 11 7]⟩,
    ⟨2, [coinbaseTx 12 1, ⟨13, false, [⟨3000000000, 8⟩, ⟨2000000000, 1⟩], [toLex (11, 0)]⟩]⟩]

private theorem payments_distinct :
    DistinctPoints [] (paymentBlocks.flatMap TxBlock.transactions) := by
  unfold DistinctPoints
  decide

private theorem payments_spendable :
    Spendable [] (paymentBlocks.flatMap TxBlock.transactions) := by
  refine ⟨?_, ?_, ?_, ?_, ?_, ?_, ?_, ?_, trivial⟩
  all_goals decide

private def payments : TxChain Nat Nat := ⟨paymentBlocks, payments_distinct, payments_spendable⟩

private def paymentQuery : ActivityQuery Nat Nat Nat Nat where
  decodeHash text := if text = "one" then some 1 else if text = "two" then some 2 else none
  getBlock hash := paymentBlocks.find? fun block => block.hash = hash
  getHeight hash := some hash
  getOutput point := (paymentBlocks.flatMap TxBlock.creates).lookup point
  getUnconfirmedHistory _ := some []
  toTx := id
  getTransaction _ := none
  encodeScript script := if script = 7 then "51" else if script = 8 then "52" else "6a"
  toScriptPublicKey := id

private theorem payments_archived : Archives paymentQuery payments where
  block := by decide
  height := by
    intro height block here
    rcases height with _ | _ | _ | height
    all_goals cases here
    all_goals rfl
  output := by
    unfold Answers
    decide

private def twoScripts : String → Option (Descriptor Nat) := fun _ => some ⟨false, fun _ => [7, 8]⟩

private theorem two_named : List.Forall₂ (Names paymentQuery) [.string "one", .string "two"]
    paymentBlocks.tail :=
  .cons ⟨"one", rfl, rfl⟩ (.cons ⟨"two", rfl, rfl⟩ .nil)

theorem descriptorActivity_replays_two :
    let items : List ScanValue := [.string "one", .string "two"]
    let objects : List ScanValue := [.string "multi"]
    let watch := [7, 8].map paymentQuery.encodeScript
    let held := fun blocks => watched paymentQuery watch ((unspent (coinBlocks blocks)).map entryOf)
    held (paymentBlocks.take 1) = [] ∧ held paymentBlocks = [(toLex (13, 0), (30, 8))] ∧
    ∃ confirmed, (∀ enabled, handleGetDescriptorActivity paymentQuery twoScripts enabled items
        objects false = .ok confirmed) ∧
      Ledger.Event.replay (held (paymentBlocks.take 1)) (confirmed.map Activity.event) =
        some (held paymentBlocks) ∧
      ((held (paymentBlocks.take 1)).map fun entry => entry.2.1).sum +
          (confirmed.map fun entry => entry.event.received Prod.fst).sum =
        ((held paymentBlocks).map fun entry => entry.2.1).sum +
          (confirmed.map fun entry => entry.event.spent Prod.fst).sum ∧
      (∃ told : List (List (Activity Nat Nat)), confirmed = told.flatten ∧ told.length = 2 ∧
        ∀ index block entries, paymentBlocks.tail[index]? = some block →
          told[index]? = some entries →
          Ledger.Event.replay (held (paymentBlocks.take 1 ++ paymentBlocks.tail.take index))
              (entries.map Activity.event) =
            some (held (paymentBlocks.take 1 ++ paymentBlocks.tail.take (index + 1))) ∧
          ∀ entry ∈ entries, entry.location = some (block.hash, 1 + index) ∧
            ∃ tx ∈ block.transactions, entry.txid = tx.hash) ∧
      ∀ enabled activity, handleGetDescriptorActivity paymentQuery twoScripts enabled items objects
          true = .ok activity →
        ∃ links pooled, pooledLinks paymentQuery [7, 8] = .ok links ∧ links.Nodup ∧
          links.mapM (injectPooled paymentQuery watch) = .ok pooled ∧
          activity = confirmed ++ pooled.flatten ∧
          ∀ entry ∈ pooled.flatten, entry.location = none := by
  intro items objects watch held
  have amount : (⟨3000000000, 8⟩ : Put Nat).bitcoins = 30 := by
    norm_num [Put.bitcoins]
  have after : held paymentBlocks = [(toLex (13, 0), (30, 8))] := by
    rw [← amount]
    rfl
  exact ⟨rfl, after, @descriptorActivity_replays Nat Nat Nat Nat _ _ _ _ paymentQuery twoScripts
    payments payments_archived (paymentBlocks.take 1) paymentBlocks.tail [] rfl objects items
    [7, 8] rfl two_named⟩

end LibbitcoinServer.Bitcoind
