import LibbitcoinServer.Lib.Text
import LibbitcoinServer.Store.Coins

/-! # The scan of unspent outputs

A scan pins the top of the confirmed chain and gathers the unspent outputs of the watched
scripts, by an index of scripts or by a walk of the pinned blocks.  The index answers from
the chain that is confirmed when it is read.  The scan is void when the pinned block is no
longer confirmed, and the best block is read after that test.
-/

namespace LibbitcoinServer.Bitcoind

inductive ScanValue where
  | string (text : String)
  | number (value : ℚ)
  | array (items : List ScanValue)
  | object (fields : List (String × ScanValue))
  | other

/-- `wallet::descriptor`, with the scripts of its signings at an index. -/
structure Descriptor (Script : Type) where
  ranged : Bool
  signings : Nat → List Script

section Expansion

variable {Script : Type} (parse : String → Option (Descriptor Script))

def parseScanRange (first : Nat) : ScanValue → Option (Nat × Nat)
  | .number number => (Text.toInteger (2 ^ 32) number).map fun last => (first, last)
  | .array [.number low, .number high] => do
      let first ← Text.toInteger (2 ^ 32) low
      let last ← Text.toInteger (2 ^ 32) high
      if first ≤ last then some (first, last) else none
  | _ => none

def defaultRange : Nat := 1000

def maximumRange : Nat := 1000000

/-- The expression of a scan object, with its range. -/
def scanExpression : ScanValue → Option (String × Nat × Nat)
  | .string text => some (text, 0, defaultRange)
  | .object fields =>
      match fields.lookup "desc", fields.lookup "range" with
      | some (.string text), none => some (text, 0, defaultRange)
      | some (.string text), some range =>
          (parseScanRange 0 range).map fun bounds => (text, bounds)
      | _, _ => none
  | _ => none

def expandScanObject (item : ScanValue) : Option (List Script) := do
  let (expression, first, last) ← scanExpression item
  let parsed ← parse expression
  if 2 ^ 31 ≤ last ∨ maximumRange ≤ last - first then none
  else
    let last := if parsed.ranged then last else first
    let derived ← (List.range' first (last + 1 - first)).mapM fun index =>
      if parsed.signings index = [] then none else some (parsed.signings index)
    some derived.flatten

def expandScanObjects (objects : List ScanValue) : Option (List Script) :=
  (objects.mapM (expandScanObject parse)).map List.flatten

end Expansion

/-- A `database::unspent_coin`. -/
structure Coin (Digest Script : Type) where
  point : Point Digest
  value : Nat
  height : Nat
  coinbase : Bool
  script : Script
  deriving DecidableEq

section Scan

variable {Digest Script Key : Type} [LinearOrder Digest] [DecidableEq Script] [DecidableEq Key]

def coinOf (output : Output Digest Script) : Coin Digest Script :=
  ⟨output.point, output.value, output.height, output.position = 0, output.script⟩

/-- The queries of the store.  Each returns the outputs that are unspent, in some order. -/
structure Store (Digest Script Key : Type) [LinearOrder Digest] [DecidableEq Script]
    [DecidableEq Key] where
  /-- `sha256_hash` of a script. -/
  digest : Script → Key
  injective : Function.Injective digest
  isUnspendable : Script → Bool
  inferDescriptor : Script → String
  getConfirmedUnspent : Branch Digest Script → Key → List (Output Digest Script)
  confirmed : ∀ branch key, (getConfirmedUnspent branch key).Perm
    ((unspent branch.blocks).filter fun output => digest output.script = key)
  getUnspentMatches : List (CoinBlock Digest Script) → List Key → List (Coin Digest Script) × Nat
  matched : ∀ blocks keys, (getUnspentMatches blocks keys).1.Perm
    (((unspent blocks).filter fun output => digest output.script ∈ keys).map coinOf)

/-- A read that may fail. -/
inductive Read (Key : Type) where
  | height
  | index (key : Key)
  | ancestry
  | scan

/-- The confirmed chain at each read.  Between two reads it may be extended and
    reorganized at will. -/
structure Timeline (Digest Script Key : Type) [DecidableEq Digest] where
  pinned : Branch Digest Script
  indexed : Key → Branch Digest Script
  tested : Branch Digest Script
  dated : Nat → Branch Digest Script
  reported : Branch Digest Script
  fails : Read Key → Bool

/-- An element of `unspents`. -/
structure Unspent (Digest Script : Type) where
  point : Point Digest
  scriptPubKey : Script
  desc : String
  amount : Nat
  coinbase : Bool
  height : Nat
  blockhash : Option Digest
  confirmations : Nat

structure ScanResult (Digest Script : Type) where
  txouts : Nat
  height : Nat
  bestblock : Option Digest
  unspents : List (Unspent Digest Script)
  totalAmount : Nat

inductive ScanFault where
  | invalidAddressOrKey
  | internalError
  deriving DecidableEq

variable (store : Store Digest Script Key) (timeline : Timeline Digest Script Key) (bip30 : Bool)

/-- The scripts that may be spent. -/
def needles (scripts : List Script) : List Script :=
  scripts.filter fun script => !store.isUnspendable script

/-- The keys of the needles. -/
def needleKeys (scripts : List Script) : List Key :=
  ((needles store scripts).map store.digest).dedup

/-- The coins of a script that a read of the index adds. -/
def indexCoins (script : Script) : List (Coin Digest Script) :=
  let key := store.digest script
  ((store.getConfirmedUnspent (timeline.indexed key) key).filter fun utxo =>
    !utxo.isGenesis).map fun utxo => { coinOf utxo with script := script }

/-- The walk of the index.  A key is erased when it is read. -/
def scanIndex : List Script → List Key → Option (List (Coin Digest Script))
  | [], _ => some []
  | script :: scripts, keys =>
      if store.digest script ∉ keys then scanIndex scripts keys
      else if timeline.fails (.index (store.digest script)) then none
      else
        (scanIndex scripts (keys.erase (store.digest script))).map
          (indexCoins store timeline script ++ ·)

/-- The coins of the needles, and the count of coins that were examined. -/
def gather (addressEnabled : Bool) (scripts : List Script) :
    Option (List (Coin Digest Script) × Nat) :=
  let keys := needleKeys store scripts
  if addressEnabled then
    (scanIndex store timeline scripts keys).map fun coins => (coins, coins.length)
  else if timeline.fails .ancestry || timeline.fails .scan then none
  else some (store.getUnspentMatches timeline.pinned.above keys)

/-- Duplicated coinbases are retained at the overwriting heights. -/
def overwritten (coin : Coin Digest Script) : Coin Digest Script :=
  if bip30 && coin.coinbase then
    { coin with height :=
        if coin.height = 91812 then 91842
        else if coin.height = 91722 then 91880
        else coin.height }
  else coin

/-- The key of the confirmed header at the height, or a null hash. -/
def headerKey (branch : Branch Digest Script) (height : Nat) : Option Digest :=
  branch.blocks[height]?.map CoinBlock.hash

def unspentOf (top index : Nat) (coin : Coin Digest Script) : Unspent Digest Script where
  point := coin.point
  scriptPubKey := coin.script
  desc := store.inferDescriptor coin.script
  amount := coin.value
  coinbase := coin.coinbase
  height := coin.height
  blockhash := headerKey (timeline.dated index) coin.height
  confirmations := top - coin.height + 1

/-- The coins in the order of their points, with the scripts of the needles. -/
def listed (scripts : List Script) (coins : List (Coin Digest Script)) :
    List (Coin Digest Script) :=
  (coins.mergeSort fun left right => left.point ≤ right.point).filterMap fun coin =>
    ((needles store scripts).find? fun script => store.digest script = store.digest coin.script).map
      fun script => { overwritten bip30 coin with script := script }

def scanResult (scripts : List Script) (coins : List (Coin Digest Script)) (txouts top : Nat) :
    ScanResult Digest Script :=
  let coins := listed store bip30 scripts coins
  { txouts := txouts
    height := top
    bestblock := headerKey timeline.reported top
    unspents := coins.mapIdx (unspentOf store timeline top)
    totalAmount := (coins.map Coin.value).sum }

/-- The pinned block is confirmed. -/
def IsConfirmedBlock (pinned branch : Branch Digest Script) : Prop :=
  pinned.blocks <+: branch.blocks

instance (pinned branch : Branch Digest Script) : Decidable (IsConfirmedBlock pinned branch) :=
  inferInstanceAs (Decidable (pinned.blocks <+: branch.blocks))

def doScanTxOutSet (parse : String → Option (Descriptor Script)) (addressEnabled : Bool)
    (objects : List ScanValue) : Except ScanFault (ScanResult Digest Script) :=
  match expandScanObjects parse objects with
  | none => .error .invalidAddressOrKey
  | some scripts =>
      if timeline.fails .height then .error .internalError
      else
        match gather store timeline addressEnabled scripts with
        | none => .error .internalError
        | some (coins, txouts) =>
            if ¬IsConfirmedBlock timeline.pinned timeline.tested then .error .internalError
            else .ok (scanResult store timeline bip30 scripts coins txouts timeline.pinned.top)

/-! ## What a scan is to report -/

/-- A script that is watched and may be spent. -/
def Sought (scripts : List Script) (script : Script) : Prop := script ∈ needles store scripts

/-- The coin of an output of the script that is unspent after the blocks. -/
def Holds (blocks : List (CoinBlock Digest Script)) (script : Script)
    (coin : Coin Digest Script) : Prop :=
  ∃ output ∈ unspent blocks, output.script = script ∧ overwritten bip30 (coinOf output) = coin

def Unspent.coin (entry : Unspent Digest Script) : Coin Digest Script :=
  ⟨entry.point, entry.amount, entry.height, entry.coinbase, entry.scriptPubKey⟩

/-- The result is the set of the chain that ends at its best block. -/
structure Snapshot (scripts : List Script) (result : ScanResult Digest Script) : Prop where
  best : ∃ block, timeline.reported.blocks[result.height]? = some block ∧
    result.bestblock = some block.hash
  ordered : (result.unspents.map Unspent.point).Pairwise (· < ·)
  exactly : ∀ coin, coin ∈ result.unspents.map Unspent.coin ↔
    Sought store scripts coin.script ∧
      Holds bip30 (timeline.reported.through result.height) coin.script coin
  total : result.totalAmount = (result.unspents.map Unspent.amount).sum

/-- Every success is a snapshot, and the paths differ in the count of examined coins. -/
structure Consistent (parse : String → Option (Descriptor Script)) (objects : List ScanValue) :
    Prop where
  snapshot : ∀ addressEnabled scripts result, expandScanObjects parse objects = some scripts →
    doScanTxOutSet store timeline bip30 parse addressEnabled objects = .ok result →
      Snapshot store timeline bip30 scripts result
  same : ∀ first second,
    doScanTxOutSet store timeline bip30 parse true objects = .ok first →
    doScanTxOutSet store timeline bip30 parse false objects = .ok second →
      { first with txouts := second.txouts } = second

/-- No read fails, and the pinned block is confirmed at the test. -/
structure Completes (addressEnabled : Bool) (scripts : List Script) : Prop where
  height : timeline.fails .height = false
  reads : if addressEnabled
    then ∀ script, Sought store scripts script →
      timeline.fails (.index (store.digest script)) = false
    else timeline.fails .ancestry = false ∧ timeline.fails .scan = false
  confirmed : IsConfirmedBlock timeline.pinned timeline.tested

/-- The blocks above genesis that answer for a script. -/
def examined (addressEnabled : Bool) (script : Script) : List (CoinBlock Digest Script) :=
  if addressEnabled then (timeline.indexed (store.digest script)).above
  else timeline.pinned.above

/-- What answers for each script agrees with the chain that is reported. -/
structure Settled (addressEnabled : Bool) (scripts : List Script) : Prop where
  reached : timeline.pinned.top ≤ timeline.reported.top
  agreed : ∀ script, Sought store scripts script → ∀ coin,
    Holds bip30 (examined store timeline addressEnabled script) script coin ↔
      Holds bip30 (timeline.reported.through timeline.pinned.top) script coin

/-! ## The coins that are gathered -/

/-- The coins of the needles, each once, as the blocks that answer for its script have it. -/
structure Gathered (blocks : Script → List (CoinBlock Digest Script)) (wanted : Script → Prop)
    (coins : List (Coin Digest Script)) : Prop where
  nodup : coins.Nodup
  mem : ∀ coin, coin ∈ coins ↔
    wanted coin.script ∧ ∃ output ∈ unspent (blocks coin.script), coinOf output = coin

section Gathering

variable {store timeline bip30} {scripts : List Script}

omit [LinearOrder Digest] [DecidableEq Script] in
theorem nodup_coins {outputs : List (Output Digest Script)}
    (distinct : (outputs.map Output.point).Nodup) (keep : Output Digest Script → Bool) :
    ((outputs.filter keep).map coinOf).Nodup := by
  have points : (((outputs.filter keep).map coinOf).map Coin.point).Nodup := by
    rw [List.map_map]
    exact distinct.sublist (List.filter_sublist.map Output.point)
  exact points.of_map

theorem mem_needleKeys {script : Script} :
    store.digest script ∈ needleKeys store scripts ↔ Sought store scripts script := by
  simp [needleKeys, Sought, store.injective.eq_iff]

/-- The index leaves out genesis by its place, and the walk by its block. -/
theorem indexCoins_perm (script : Script) :
    (indexCoins store timeline script).Perm
      (((unspent (timeline.indexed (store.digest script)).above).filter
        fun output => output.script = script).map coinOf) := by
  have found := store.confirmed (timeline.indexed (store.digest script)) (store.digest script)
  have kept := (found.filter fun utxo => !utxo.isGenesis).map
    fun utxo => { coinOf utxo with script := script }
  rw [List.filter_comm, Branch.unspent_above] at kept
  refine kept.trans (List.Perm.of_eq ?_)
  simp only [store.injective.eq_iff]
  refine List.map_congr_left fun output inside => ?_
  obtain rfl : output.script = script := by simpa using (List.mem_filter.mp inside).2
  rfl

theorem mem_indexCoins {script : Script} {coin : Coin Digest Script} :
    coin ∈ indexCoins store timeline script ↔ coin.script = script ∧
      ∃ output ∈ unspent (timeline.indexed (store.digest script)).above,
        coinOf output = coin := by
  rw [(indexCoins_perm script).mem_iff]
  simp only [List.mem_map, List.mem_filter, decide_eq_true_eq]
  constructor
  · rintro ⟨output, ⟨member, rfl⟩, rfl⟩
    exact ⟨rfl, output, member, rfl⟩
  · rintro ⟨rfl, output, member, rfl⟩
    exact ⟨output, ⟨member, rfl⟩, rfl⟩

theorem nodup_indexCoins (script : Script) : (indexCoins store timeline script).Nodup :=
  (indexCoins_perm script).nodup_iff.mpr (nodup_coins (Branch.nodup_unspent_above _) _)

theorem gathered_scanIndex {keys : List Key} {coins : List (Coin Digest Script)}
    (once : keys.Nodup) (read : scanIndex store timeline scripts keys = some coins) :
    Gathered (fun script => (timeline.indexed (store.digest script)).above)
      (fun script => script ∈ scripts ∧ store.digest script ∈ keys) coins := by
  induction scripts generalizing keys coins with
  | nil =>
      obtain rfl := Option.some.inj read
      exact ⟨.nil, by simp⟩
  | cons script scripts ih =>
      unfold scanIndex at read
      split at read
      · -- The key is erased or unspendable.
        rename_i absent
        obtain ⟨nodup, mem⟩ := ih once read
        refine ⟨nodup, fun coin => ?_⟩
        rw [mem, List.mem_cons]
        have other : store.digest coin.script ∈ keys → coin.script ≠ script := by
          rintro present rfl
          exact absent present
        tauto
      · split at read
        · cases read
        · rename_i present _
          obtain ⟨later, rest, rfl⟩ := Option.map_eq_some_iff.mp read
          obtain ⟨nodup, mem⟩ := ih (once.erase _) rest
          refine ⟨List.nodup_append'.mpr ⟨nodup_indexCoins script, nodup, ?_⟩, fun coin => ?_⟩
          · -- The key of the script is not read again.
            intro coin first second
            obtain ⟨rfl, -⟩ := mem_indexCoins.mp first
            exact once.not_mem_erase ((mem coin).mp second).1.2
          · rw [List.mem_append, mem_indexCoins, mem, List.mem_cons]
            by_cases same : coin.script = script
            · subst same
              simp [not_not.mp present, once.not_mem_erase]
            · have apart : store.digest coin.script ≠ store.digest script :=
                fun keyed => same (store.injective keyed)
              simp [same, List.mem_erase_of_ne apart]

theorem scanIndex_isSome {keys : List Key} :
    (scanIndex store timeline scripts keys).isSome ↔
      ∀ script ∈ scripts, store.digest script ∈ keys →
        timeline.fails (.index (store.digest script)) = false := by
  induction scripts generalizing keys with
  | nil => simp [scanIndex]
  | cons script scripts ih =>
      unfold scanIndex
      split
      · rename_i absent
        simp [ih, absent]
      · rename_i present
        split
        · rename_i failed
          simp [not_not.mp present, failed]
        · rename_i served
          have fine := Bool.eq_false_iff.mpr served
          simp only [Option.isSome_map, ih, List.forall_mem_cons, fine, implies_true, true_and]
          refine forall₂_congr fun other _ => ?_
          by_cases same : store.digest other = store.digest script
          · simp [same, fine]
          · rw [List.mem_erase_of_ne same]

theorem gathered_matches :
    Gathered (fun _ => timeline.pinned.above) (Sought store scripts)
      (store.getUnspentMatches timeline.pinned.above (needleKeys store scripts)).1 := by
  have found := store.matched timeline.pinned.above (needleKeys store scripts)
  refine ⟨found.nodup_iff.mpr (nodup_coins timeline.pinned.nodup_unspent_above _), fun coin => ?_⟩
  rw [found.mem_iff]
  simp only [List.mem_map, List.mem_filter, decide_eq_true_eq, mem_needleKeys]
  constructor
  · rintro ⟨output, ⟨member, sought⟩, rfl⟩
    exact ⟨sought, output, member, rfl⟩
  · rintro ⟨sought, output, member, rfl⟩
    exact ⟨output, ⟨member, sought⟩, rfl⟩

/-- Either path gathers the coins of the needles from the blocks that answer for them. -/
theorem gathered_gather {addressEnabled : Bool} {coins : List (Coin Digest Script)} {txouts : Nat}
    (found : gather store timeline addressEnabled scripts = some (coins, txouts)) :
    Gathered (examined store timeline addressEnabled) (Sought store scripts) coins := by
  cases addressEnabled with
  | true =>
      obtain ⟨_, read, same⟩ := Option.map_eq_some_iff.mp found
      obtain ⟨rfl, -⟩ := Prod.mk.inj same
      obtain ⟨nodup, mem⟩ := gathered_scanIndex (List.nodup_dedup _) read
      refine ⟨nodup, fun coin => (mem coin).trans (and_congr_left fun _ => ?_)⟩
      change coin.script ∈ scripts ∧ _ ∈ needleKeys store scripts ↔ _
      rw [mem_needleKeys]
      exact and_iff_right_of_imp fun sought => List.mem_of_mem_filter sought
  | false =>
      simp only [gather, Bool.false_eq_true, if_false] at found
      split at found
      · cases found
      · have same : (store.getUnspentMatches timeline.pinned.above
            (needleKeys store scripts)).1 = coins := by rw [Option.some.inj found]
        exact same ▸ gathered_matches

theorem gather_isSome {addressEnabled : Bool} :
    (gather store timeline addressEnabled scripts).isSome ↔
      if addressEnabled
      then ∀ script, Sought store scripts script →
        timeline.fails (.index (store.digest script)) = false
      else timeline.fails .ancestry = false ∧ timeline.fails .scan = false := by
  cases addressEnabled with
  | true =>
      simp only [gather, if_true, Option.isSome_map, scanIndex_isSome, mem_needleKeys]
      refine forall_congr' fun script => ?_
      have inside : Sought store scripts script → script ∈ scripts := List.mem_of_mem_filter
      tauto
  | false => cases first : timeline.fails .ancestry <;> cases second : timeline.fails .scan <;>
      simp [gather, first, second]

theorem doScanTxOutSet_eq_ok {parse : String → Option (Descriptor Script)} {addressEnabled : Bool}
    {objects : List ScanValue} {result : ScanResult Digest Script}
    (expanded : expandScanObjects parse objects = some scripts) :
    doScanTxOutSet store timeline bip30 parse addressEnabled objects = .ok result ↔
      timeline.fails .height = false ∧ IsConfirmedBlock timeline.pinned timeline.tested ∧
      ∃ coins txouts, gather store timeline addressEnabled scripts = some (coins, txouts) ∧
        scanResult store timeline bip30 scripts coins txouts timeline.pinned.top = result := by
  simp only [doScanTxOutSet, expanded]
  cases timeline.fails .height with
  | true => simp
  | false =>
      cases gather store timeline addressEnabled scripts with
      | none => simp
      | some found =>
          obtain ⟨coins, txouts⟩ := found
          by_cases confirmed : IsConfirmedBlock timeline.pinned timeline.tested <;>
            simp [confirmed]

theorem completes_iff {parse : String → Option (Descriptor Script)} {addressEnabled : Bool}
    {objects : List ScanValue} (expanded : expandScanObjects parse objects = some scripts) :
    (∃ result, doScanTxOutSet store timeline bip30 parse addressEnabled objects = .ok result) ↔
      Completes store timeline addressEnabled scripts := by
  simp only [doScanTxOutSet_eq_ok expanded]
  constructor
  · rintro ⟨_, height, confirmed, coins, txouts, found, -⟩
    exact ⟨height, gather_isSome.mp (by simp [found]), confirmed⟩
  · rintro ⟨height, reads, confirmed⟩
    obtain ⟨⟨coins, txouts⟩, found⟩ := Option.isSome_iff_exists.mp (gather_isSome.mpr reads)
    exact ⟨_, height, confirmed, coins, txouts, found, rfl⟩

end Gathering

/-! ## The coins that are listed -/

section Listing

variable {store timeline bip30} {scripts : List Script} {coins : List (Coin Digest Script)}
  {blocks : Script → List (CoinBlock Digest Script)}

omit [LinearOrder Digest] [DecidableEq Script] in
@[simp]
theorem overwritten_script (coin : Coin Digest Script) :
    (overwritten bip30 coin).script = coin.script := by
  unfold overwritten
  split <;> rfl

omit [LinearOrder Digest] [DecidableEq Script] in
@[simp]
theorem overwritten_point (coin : Coin Digest Script) :
    (overwritten bip30 coin).point = coin.point := by
  unfold overwritten
  split <;> rfl

omit [DecidableEq Script] in
theorem Holds.script_eq {blocks : List (CoinBlock Digest Script)} {script : Script}
    {coin : Coin Digest Script} (holds : Holds bip30 blocks script coin) :
    coin.script = script := by
  obtain ⟨output, -, rfl, rfl⟩ := holds
  simp [coinOf]

omit [DecidableEq Script] in
/-- A chain has one coin at a point. -/
theorem Holds.unique {branch : Branch Digest Script} {height : Nat} {first second : Script}
    {one two : Coin Digest Script} (holds : Holds bip30 (branch.through height) first one)
    (also : Holds bip30 (branch.through height) second two) (same : one.point = two.point) :
    one = two := by
  obtain ⟨output, here, -, rfl⟩ := holds
  obtain ⟨other, there, -, rfl⟩ := also
  have points : output.point = other.point := by simpa [coinOf] using same
  rw [List.inj_on_of_nodup_map (branch.nodup_unspent_through height) here there points]

theorem find_needle {script : Script} (sought : Sought store scripts script) :
    (needles store scripts).find? (fun other => store.digest other = store.digest script) =
      some script := by
  simp only [store.injective.eq_iff]
  cases found : (needles store scripts).find? fun other => other = script with
  | none => exact absurd (List.find?_eq_none.mp found script sought) (by simp)
  | some other => simpa using List.find?_some found

theorem listed_eq (gathered : Gathered blocks (Sought store scripts) coins) :
    listed store bip30 scripts coins =
      (coins.mergeSort fun left right => left.point ≤ right.point).map (overwritten bip30) := by
  rw [listed, ← List.filterMap_eq_map]
  refine List.filterMap_congr fun coin inside => ?_
  have sought := ((gathered.mem coin).mp ((List.mergeSort_perm _ _).mem_iff.mp inside)).1
  have kept : (overwritten bip30 coin).script = coin.script := overwritten_script coin
  rw [find_needle sought, Option.map_some, ← kept]
  rfl

theorem mem_listed (gathered : Gathered blocks (Sought store scripts) coins)
    {coin : Coin Digest Script} :
    coin ∈ listed store bip30 scripts coins ↔
      Sought store scripts coin.script ∧ Holds bip30 (blocks coin.script) coin.script coin := by
  rw [listed_eq gathered, List.mem_map]
  constructor
  · rintro ⟨before, inside, rfl⟩
    obtain ⟨sought, output, here, rfl⟩ :=
      (gathered.mem before).mp ((List.mergeSort_perm _ _).mem_iff.mp inside)
    rw [overwritten_script]
    exact ⟨sought, output, here, rfl, rfl⟩
  · rintro ⟨sought, output, here, script, rfl⟩
    rw [overwritten_script] at here sought
    exact ⟨coinOf output, (List.mergeSort_perm _ _).mem_iff.mpr
      ((gathered.mem _).mpr ⟨sought, output, here, rfl⟩), rfl⟩

theorem pairwise_listed (gathered : Gathered blocks (Sought store scripts) coins) :
    ((listed store bip30 scripts coins).map Coin.point).Pairwise (· ≤ ·) := by
  rw [listed_eq gathered, List.map_map, List.pairwise_map]
  have sorted : (coins.mergeSort fun left right => left.point ≤ right.point).Pairwise
      fun left right => decide (left.point ≤ right.point) = true :=
    List.pairwise_mergeSort (by simpa using fun _ _ _ => le_trans)
      (by simpa using fun _ _ => le_total _ _) coins
  simpa using sorted

theorem map_coin_scanResult (store : Store Digest Script Key)
    (timeline : Timeline Digest Script Key) (bip30 : Bool) (scripts : List Script)
    (coins : List (Coin Digest Script)) (txouts top : Nat) :
    (scanResult store timeline bip30 scripts coins txouts top).unspents.map Unspent.coin =
      listed store bip30 scripts coins := by
  refine List.ext_getElem? fun index => ?_
  simp only [scanResult, List.getElem?_map, List.getElem?_mapIdx, Option.map_map]
  exact Option.map_id'

/-- The coins determine a result, but for the count of examined coins. -/
theorem scanResult_congr {others : List (Coin Digest Script)} {txouts examinedCount top : Nat}
    (same : listed store bip30 scripts coins = listed store bip30 scripts others) :
    { scanResult store timeline bip30 scripts coins txouts top with txouts := examinedCount } =
      scanResult store timeline bip30 scripts others examinedCount top := by
  simp only [scanResult, same]

end Listing

/-! ## When a scan is a snapshot -/

section Snapshots

variable {store timeline bip30} {scripts : List Script} {coins : List (Coin Digest Script)}
  {addressEnabled : Bool} {txouts : Nat}

theorem nodup_examined (script : Script) :
    ((unspent (examined store timeline addressEnabled script)).map Output.point).Nodup := by
  cases addressEnabled with
  | true => exact Branch.nodup_unspent_above _
  | false => exact Branch.nodup_unspent_above _

/-- Coins that agree with one chain are at distinct points. -/
theorem nodup_points
    (gathered : Gathered (examined store timeline addressEnabled) (Sought store scripts) coins)
    (settled : Settled store timeline bip30 addressEnabled scripts) :
    (coins.map Coin.point).Nodup := by
  refine gathered.nodup.map_on fun first here second there points => ?_
  obtain ⟨sought, output, inside, rfl⟩ := (gathered.mem first).mp here
  obtain ⟨also, other, among, rfl⟩ := (gathered.mem second).mp there
  have one := (settled.agreed _ sought _).mp ⟨output, inside, rfl, rfl⟩
  have two := (settled.agreed _ also _).mp ⟨other, among, rfl, rfl⟩
  have coin := one.unique two (by simpa using points)
  have script : output.script = other.script := by
    simpa [coinOf] using congrArg Coin.script coin
  change output ∈ unspent (examined store timeline addressEnabled output.script) at inside
  change other ∈ unspent (examined store timeline addressEnabled other.script) at among
  rw [← script] at among
  rw [List.inj_on_of_nodup_map (nodup_examined _) inside among points]

theorem ordered_listed
    (gathered : Gathered (examined store timeline addressEnabled) (Sought store scripts) coins)
    (settled : Settled store timeline bip30 addressEnabled scripts) :
    ((listed store bip30 scripts coins).map Coin.point).Pairwise (· < ·) := by
  have distinct : ((listed store bip30 scripts coins).map Coin.point).Nodup := by
    rw [listed_eq gathered, List.map_map]
    have sorted := (List.mergeSort_perm coins
      fun left right => decide (left.point ≤ right.point)).map Coin.point
    simpa [Function.comp_def] using sorted.nodup_iff.mpr (nodup_points gathered settled)
  exact ((pairwise_listed gathered).and distinct).imp fun both => lt_of_le_of_ne both.1 both.2

/-- The result of gathered coins is a snapshot just when they agree with the chain that
    is reported. -/
theorem snapshot_iff_settled
    (gathered : Gathered (examined store timeline addressEnabled) (Sought store scripts) coins) :
    Snapshot store timeline bip30 scripts
        (scanResult store timeline bip30 scripts coins txouts timeline.pinned.top) ↔
      Settled store timeline bip30 addressEnabled scripts := by
  have whole :=
    map_coin_scanResult store timeline bip30 scripts coins txouts timeline.pinned.top
  constructor
  · intro snapshot
    obtain ⟨block, here, -⟩ := snapshot.best
    have inside : timeline.pinned.top < timeline.reported.blocks.length :=
      (List.getElem?_eq_some_iff.mp here).1
    refine ⟨Nat.le_of_lt_succ inside, fun script sought coin => ?_⟩
    have exactly := snapshot.exactly coin
    rw [whole, mem_listed gathered] at exactly
    constructor
    · intro holds
      obtain rfl := holds.script_eq
      exact (exactly.mp ⟨sought, holds⟩).2
    · intro holds
      obtain rfl := holds.script_eq
      exact (exactly.mpr ⟨sought, holds⟩).2
  · intro settled
    have inside : timeline.pinned.top < timeline.reported.blocks.length :=
      Nat.lt_succ_of_le settled.reached
    refine ⟨⟨_, List.getElem?_eq_getElem inside, ?_⟩, ?_, fun coin => ?_, ?_⟩
    · simp [scanResult, headerKey, inside]
    · have ordered := ordered_listed gathered settled
      rwa [← whole, List.map_map] at ordered
    · rw [whole, mem_listed gathered]
      exact and_congr_right fun sought => settled.agreed _ sought coin
    · change ((listed store bip30 scripts coins).map Coin.value).sum = _
      rw [← whole, List.map_map]
      rfl

/-- Two snapshots of one chain list the same coins. -/
theorem Snapshot.same_coins {first second : ScanResult Digest Script}
    (one : Snapshot store timeline bip30 scripts first)
    (two : Snapshot store timeline bip30 scripts second) (level : first.height = second.height) :
    first.unspents.map Unspent.coin = second.unspents.map Unspent.coin := by
  have sorted : ∀ {result}, Snapshot store timeline bip30 scripts result →
      (result.unspents.map Unspent.coin).Pairwise fun left right => left.point < right.point := by
    intro result snapshot
    have ordered := snapshot.ordered
    rw [List.pairwise_map] at ordered ⊢
    exact ordered
  have nodup : ∀ {result}, Snapshot store timeline bip30 scripts result →
      (result.unspents.map Unspent.coin).Nodup := by
    intro result snapshot
    refine (sorted snapshot).imp fun {left right} less same => ?_
    rw [same] at less
    exact lt_irrefl _ less
  have members : ∀ coin, coin ∈ first.unspents.map Unspent.coin ↔
      coin ∈ second.unspents.map Unspent.coin := by
    intro coin
    rw [one.exactly, two.exactly, level]
  refine List.Perm.eq_of_pairwise (fun left right _ _ less more => ?_) (sorted one) (sorted two)
    ((List.perm_ext_iff_of_nodup (nodup one) (nodup two)).mpr members)
  exact absurd more (lt_asymm less)

end Snapshots

/-- The index is read while the pinned block is the top, and the result is written while
    it is confirmed. -/
structure Undisturbed (addressEnabled : Bool) (scripts : List Script) : Prop where
  still : addressEnabled → ∀ script, Sought store scripts script →
    (timeline.indexed (store.digest script)).above = timeline.pinned.above
  kept : IsConfirmedBlock timeline.pinned timeline.reported

theorem Undisturbed.settled {store : Store Digest Script Key}
    {timeline : Timeline Digest Script Key} {addressEnabled : Bool} {scripts : List Script}
    (undisturbed : Undisturbed store timeline addressEnabled scripts) :
    Settled store timeline bip30 addressEnabled scripts := by
  obtain ⟨-, prefixed⟩ := List.cons_prefix_cons.mp undisturbed.kept
  have ends : timeline.reported.through timeline.pinned.top = timeline.pinned.above :=
    (List.prefix_iff_eq_take.mp prefixed).symm
  refine ⟨prefixed.length_le, fun script sought coin => ?_⟩
  have answers : examined store timeline addressEnabled script = timeline.pinned.above := by
    cases addressEnabled with
    | true => exact undisturbed.still rfl script sought
    | false => rfl
  rw [answers, ends]

end Scan

/-! ## A block after the pin -/

/-- A store of numbers for hashes and scripts. -/
def numbered : Store Nat Nat Nat where
  digest := id
  injective := Function.injective_id
  isUnspendable := fun _ => false
  inferDescriptor := toString
  getConfirmedUnspent := fun branch key =>
    (unspent branch.blocks).filter fun output => id output.script = key
  confirmed := fun _ _ => .refl _
  getUnspentMatches := fun blocks keys =>
    (((unspent blocks).filter fun output => id output.script ∈ keys).map coinOf,
      (unspent blocks).length)
  matched := fun _ _ => .refl _

def genesisBlock : CoinBlock Nat Nat := ⟨0, [⟨toLex (10, 0), 50, 1, 0, 0⟩], []⟩

def payingBlock : CoinBlock Nat Nat := ⟨1, [⟨toLex (11, 0), 50, 7, 1, 0⟩], []⟩

def spendingBlock : CoinBlock Nat Nat :=
  ⟨2, [⟨toLex (12, 0), 50, 2, 2, 0⟩, ⟨toLex (13, 0), 50, 3, 2, 1⟩], [toLex (11, 0)]⟩

theorem paying_placed : ∀ pair ∈ [genesisBlock, payingBlock].zipIdx,
    ∀ output ∈ pair.1.outputs, output.height = pair.2 := by decide

theorem spending_placed : ∀ pair ∈ [genesisBlock, payingBlock, spendingBlock].zipIdx,
    ∀ output ∈ pair.1.outputs, output.height = pair.2 := by decide

theorem genesis_coinbase : ∀ output ∈ genesisBlock.outputs, output.position = 0 := by decide

theorem paying_distinct :
    ((created [genesisBlock, payingBlock]).map Output.point).Nodup := by decide

theorem spending_distinct :
    ((created [genesisBlock, payingBlock, spendingBlock]).map Output.point).Nodup := by decide

def paid : Branch Nat Nat :=
  ⟨genesisBlock, [payingBlock], paying_placed, genesis_coinbase, paying_distinct⟩

def spent : Branch Nat Nat :=
  ⟨genesisBlock, [payingBlock, spendingBlock], spending_placed, genesis_coinbase,
    spending_distinct⟩

/-- The chain is extended after it is pinned. -/
def extended : Timeline Nat Nat Nat := ⟨paid, fun _ => spent, spent, fun _ => spent, spent,
  fun _ => false⟩

def watching : String → Option (Descriptor Nat) := fun _ => some ⟨false, fun _ => [7]⟩

end LibbitcoinServer.Bitcoind
