import LibbitcoinServer.Bitcoind.ScanTxOutSet
import LibbitcoinServer.Lib.Double
import LibbitcoinServer.Services.Tips
import LibbitcoinServer.Store.Ancestry

/-! # Ranges of a pinned branch

A scan of block filters, the statistics of a window and the hash rate of the network walk the
ancestors of one link that is read once.  Whatever becomes of the chain meanwhile, what they
say is said of one branch.
-/

namespace LibbitcoinServer.Bitcoind

open LibbitcoinServer.Store (Ancestry Change HeaderStore Indexes)

inductive RangeFault where
  | invalidParameter
  | invalidAddressOrKey
  | miscError
  | internalError
  deriving DecidableEq

structure ScanBlocks where
  fromHeight : Nat
  toHeight : Nat
  relevantBlocks : List String
  deriving DecidableEq

/-- The window of `getchaintxstats`, with the rate where time has passed in it, a double. -/
structure TxWindow where
  interval : Nat
  txCount : Nat
  txrate : Option ℚ

structure ChainTxStats where
  time : Nat
  txcount : Nat
  windowFinalBlockHash : String
  windowFinalBlockHeight : Nat
  windowBlockCount : Nat
  window : Option TxWindow

/-- The queries by link, and what the handlers use of the settings and of the libraries. -/
structure RangeQuery (Link Digest Filter Script : Type) where
  decodeHash : String → Option Digest
  encodeHash : Digest → String
  parse : String → Option (Descriptor Script)
  filterEnabled : Bool
  getFilterBody : Link → Option Filter
  matchFilter : Digest → Filter → List Script → Bool
  blockSpacingSeconds : Nat
  retargetingInterval : Nat
  /-- `uint256_t::convert_to<double>` -/
  convertTo : Nat → ℚ

section Handlers

variable {Link Digest Filter Script : Type} [DecidableEq Link] [DecidableEq Digest]
  {store : HeaderStore Link Digest} (ancestry : Ancestry store)
  (query : RangeQuery Link Digest Filter Script)
  (confirmedChainState : Indexes store → Digest → Option Nat)

/-! ## scanblocks -/

/-- The first and last heights, of which the last is at most the top. -/
def scanRange (top : Nat) (startHeight stopHeight : ℚ) : Option (Nat × Nat) := do
  let first ← Text.toInteger (2 ^ 64) startHeight
  let last ← (if 0 ≤ stopHeight then Text.toInteger (2 ^ 64) stopHeight else some top)
  let last := min last top
  if first > last then none else some (first, last)

variable (store) in
/-- One turn of the loop over the branch. -/
def scanBlock (scripts : List Script) (relevant : List String) (link : Link) :
    Option (List String) :=
  let hash := store.getHeaderKey link
  (query.getFilterBody link).map fun filter =>
    if query.matchFilter hash filter scripts then relevant ++ [query.encodeHash hash] else relevant

def handleScanBlocks (action : String) (scanobjects : List ScanValue)
    (startHeight stopHeight : ℚ) (filtertype : String) :
    Reads (Indexes store) (Except RangeFault ScanBlocks) :=
  if action ≠ "start" then return .error .invalidParameter
  else if filtertype ≠ "basic" then return .error .invalidAddressOrKey
  else if scanobjects.isEmpty then return .error .miscError
  else if !query.filterEnabled then return .error .miscError
  else do
    let top ← Reads.get Indexes.getTopConfirmed
    match scanRange top startHeight stopHeight, expandScanObjects query.parse scanobjects with
    | none, _ => return .error .miscError
    | some _, none => return .error .invalidAddressOrKey
    | some (first, last), some scripts =>
        let link ← Reads.get fun indexes => indexes.toConfirmed last
        match (ancestry.getAncestry link (last - first + 1)).bind fun branch =>
          branch.reverse.foldlM (scanBlock store query scripts) [] with
        | none => return .error .internalError
        | some relevant => return .ok ⟨first, last, relevant⟩

/-! ## getchaintxstats -/

/-- The default window is a month of blocks. -/
def statsWindow (height : Nat) (nblocks : ℚ) : Option Nat :=
  if nblocks < 0 then some (min (30 * 24 * 60 * 60 / query.blockSpacingSeconds) (height - 1))
  else
    (Text.toInteger (2 ^ 64) nblocks).bind fun window =>
      if window ≠ 0 ∧ window ≥ height then none else some window

def txWindow (link : Link) (window : Nat) : Reads (Indexes store) (Option TxWindow) :=
  match ancestry.getAncestry (some link) (window + 1) with
  | none => return none
  | some branch => do
      let start ← Services.medianTime confirmedChainState (branch.getLastD link)
      let stop ← Services.medianTime confirmedChainState link
      let interval := stop - start
      let txs := ((branch.take window).map ancestry.getTxCount).sum
      return some ⟨interval, txs,
        if interval ≠ 0 then some (Double.divide (Double.ofNat txs) interval) else none⟩

/-- The block that is named, or the top. -/
def statsLink (blockhash : String) : Reads (Indexes store) (Except RangeFault (Option Link)) := do
  let top ← Reads.get Indexes.toTopConfirmed
  if blockhash = "" then return .ok (some top)
  else
    match query.decodeHash blockhash with
    | none => return .error .invalidParameter
    | some hash => do
        let link ← Reads.get fun indexes => indexes.toHeader hash
        return .ok link

def chainTxStats (link : Link) (height window : Nat) (time : Nat) :
    Option TxWindow → ChainTxStats := fun counted => {
  time
  txcount := ancestry.getBranchTxCount link
  windowFinalBlockHash := query.encodeHash (store.getHeaderKey link)
  windowFinalBlockHeight := height
  windowBlockCount := window
  window := counted }

def handleGetChainTxStats (nblocks : ℚ) (blockhash : String) :
    Reads (Indexes store) (Except RangeFault ChainTxStats) := do
  let found ← statsLink query blockhash
  match found with
  | .error fault => return .error fault
  | .ok none => return .error .invalidAddressOrKey
  | .ok (some link) =>
      let confirmed ← Reads.get fun indexes =>
        decide (indexes.toConfirmed (store.height link) = some link)
      if !confirmed then return .error .invalidAddressOrKey
      else
        match store.getHeight link with
        | none => return .error .internalError
        | some height =>
            match statsWindow query height nblocks, store.getHeader link with
            | none, _ => return .error .invalidParameter
            | some _, none => return .error .internalError
            | some window, some header =>
                if window = 0 then
                  return .ok (chainTxStats ancestry query link height window header.timestamp none)
                else do
                  let counted ← txWindow ancestry confirmedChainState link window
                  match counted with
                  | none => return .error .internalError
                  | some counted =>
                      return .ok
                        (chainTxStats ancestry query link height window header.timestamp counted)

/-! ## getnetworkhashps -/

/-- A negative height selects the top. -/
def hashTarget (top : Nat) (height : ℚ) : Option Nat :=
  if height < 0 then some top else (Text.toInteger (2 ^ 64) height).map fun height => min height top

/-- A window that is not positive is the blocks since the last retarget. -/
def hashWindow (target : Nat) (nblocks : ℚ) : Option Nat :=
  (if nblocks ≤ 0 then some (target % query.retargetingInterval + 1)
    else Text.toInteger (2 ^ 64) nblocks).map fun window => min window target

variable (store) in
/-- The least and greatest timestamps of a branch, `none` where a header is not found. -/
def timestamps (branch : List Link) : Option (Nat × Nat) :=
  branch.foldlM (fun bounds link => (store.getHeader link).map fun header =>
    (min bounds.1 header.timestamp, max bounds.2 header.timestamp)) (2 ^ 32 - 1, 0)

/-- The work of the window over the time between its timestamps. -/
def hashRate (branch : List Link) (target : Link) : Option ℚ :=
  (timestamps store branch).bind fun bounds =>
    if bounds.1 = bounds.2 then some 0
    else do
      let startWork ← ancestry.getBranchWork (branch.getLastD target)
      let endWork ← ancestry.getBranchWork target
      return Double.divide (query.convertTo (endWork - startWork)) (bounds.2 - bounds.1 : Nat)

def handleGetNetworkHashPs (nblocks height : ℚ) : Reads (Indexes store) (Except RangeFault ℚ) := do
  let top ← Reads.get Indexes.getTopConfirmed
  match (hashTarget top height).bind fun target =>
    (hashWindow query target nblocks).map fun window => (target, window) with
  | none => return .error .invalidParameter
  | some (target, window) =>
      if window = 0 then return .ok 0
      else do
        let link ← Reads.get fun indexes => indexes.toConfirmed target
        match link, ancestry.getAncestry link (window + 1) with
        | some link, some branch =>
            match hashRate ancestry query branch link with
            | none => return .error .internalError
            | some rate => return .ok rate
        | _, _ => return .error .internalError

end Handlers

section Ranges

variable {Link Digest Filter Script : Type} [DecidableEq Link] [DecidableEq Digest]
  {store : HeaderStore Link Digest} {ancestry : Ancestry store}
  {query : RangeQuery Link Digest Filter Script}
  {confirmedChainState : Indexes store → Digest → Option Nat} {sees : Indexes store → Prop}

/-! ## A scan is of one chain -/

/-- The filter of a block is found and matches. -/
def Matches (store : HeaderStore Link Digest) (query : RangeQuery Link Digest Filter Script)
    (scripts : List Script) (link : Link) : Bool :=
  (query.getFilterBody link).any fun filter =>
    query.matchFilter (store.getHeaderKey link) filter scripts

omit [DecidableEq Link] [DecidableEq Digest] in
theorem foldlM_scanBlock {scripts : List Script} {branch : List Link} {out relevant : List String}
    (scanned : branch.foldlM (scanBlock store query scripts) out = some relevant) :
    (∀ link ∈ branch, (query.getFilterBody link).isSome) ∧
      relevant = out ++ (branch.filter (Matches store query scripts)).map fun link =>
        query.encodeHash (store.getHeaderKey link) := by
  induction branch generalizing out with
  | nil =>
      cases scanned
      simp
  | cons link branch ih =>
      rw [List.foldlM_cons] at scanned
      obtain ⟨next, turn, later⟩ := Option.bind_eq_some_iff.mp scanned
      obtain ⟨filter, found, rfl⟩ := Option.map_eq_some_iff.mp turn
      obtain ⟨filters, rest⟩ := ih later
      refine ⟨List.forall_mem_cons.mpr ⟨by rw [found]; rfl, filters⟩, ?_⟩
      have matched : Matches store query scripts link =
          query.matchFilter (store.getHeaderKey link) filter scripts := by
        rw [Matches, found, Option.any_some]
      rw [rest, List.filter_cons, matched]
      split_ifs
      · simp
      · rfl

/-- The range of heights that is asked for, cut at the top. -/
structure RangeAsked (top : Nat) (startHeight stopHeight : ℚ) (first last : Nat) : Prop where
  start : Text.toInteger (2 ^ 64) startHeight = some first
  stop : 0 ≤ stopHeight → ∃ stop, Text.toInteger (2 ^ 64) stopHeight = some stop ∧
    last = min stop top
  open_ended : stopHeight < 0 → last = top
  ordered : first ≤ last
  below : last ≤ top

theorem scanRange_asked {top first last : Nat} {startHeight stopHeight : ℚ}
    (range : scanRange top startHeight stopHeight = some (first, last)) :
    RangeAsked top startHeight stopHeight first last := by
  obtain ⟨start, started, range⟩ := Option.bind_eq_some_iff.mp range
  obtain ⟨stop, stopped, range⟩ := Option.bind_eq_some_iff.mp range
  dsimp only at range
  split_ifs at range with order
  cases range
  refine ⟨started, ?_, ?_, Nat.not_lt.mp order, Nat.min_le_right _ _⟩
  · intro bounded
    rw [if_pos bounded] at stopped
    exact ⟨stop, stopped, rfl⟩
  · intro negative
    rw [if_neg (not_le.mpr negative), Option.some.injEq] at stopped
    rw [← stopped, Nat.min_self]

omit [DecidableEq Link] [DecidableEq Digest] in
theorem getAncestry_eq_some {link : Option Link} {count : Nat} {branch : List Link}
    (found : ancestry.getAncestry link count = some branch) :
    ∃ pinned, link = some pinned ∧
      branch = List.iterate ancestry.toParent pinned (min count (store.height pinned + 1)) := by
  obtain ⟨pinned, same, found⟩ := Option.bind_eq_some_iff.mp found
  obtain ⟨height, read, made⟩ := Option.bind_eq_some_iff.mp found
  refine ⟨pinned, same, ?_⟩
  rw [← store.getHeight_eq read]
  exact (Option.some.inj made).symm

/-- The blocks of a range of heights in the chain of one moment. -/
structure Scanned (store : HeaderStore Link Digest) (query : RangeQuery Link Digest Filter Script)
    (chain : Store.Confirmed store) (scripts : List Script) (scan : ScanBlocks) : Prop where
  ordered : scan.fromHeight ≤ scan.toHeight
  below : scan.toHeight ≤ chain.top
  filtered : ∀ link ∈ chain.headers scan.fromHeight (scan.toHeight - scan.fromHeight + 1),
    (query.getFilterBody link).isSome
  relevant : scan.relevantBlocks =
    ((chain.headers scan.fromHeight (scan.toHeight - scan.fromHeight + 1)).filter
      (Matches store query scripts)).map fun link => query.encodeHash (store.getHeaderKey link)

omit [DecidableEq Link] [DecidableEq Digest] in
/-- In every interleaving of its reads with changes of the chain, a scan is of the range that is
    asked for, cut at the top of its first read, and lists the blocks of it whose filters match
    in the chain of its second read, and no other, in order. -/
theorem scanBlocks_snapshot (start : Indexes store) (schedule : Nat → List (Change Link))
    (action : String) (scanobjects : List ScanValue) (startHeight stopHeight : ℚ)
    (filtertype : String) :
    let seen := Reads.interleaved Indexes.step start schedule
    ancestry.Linked (seen 1).confirmed → ∀ scan,
      (handleScanBlocks ancestry query action scanobjects startHeight stopHeight filtertype).run
        seen = .ok scan →
      ∃ scripts, expandScanObjects query.parse scanobjects = some scripts ∧
        scan.toHeight ≤ (seen 0).confirmed.top ∧
        RangeAsked (seen 0).confirmed.top startHeight stopHeight scan.fromHeight scan.toHeight ∧
        Scanned store query (seen 1).confirmed scripts scan := by
  intro seen linked scan replied
  unfold handleScanBlocks at replied
  split_ifs at replied
  iterate 4 cases replied
  rw [Reads.run_get_bind] at replied
  cases range : scanRange (seen 0).getTopConfirmed startHeight stopHeight with
  | none =>
      rw [range] at replied
      cases replied
  | some bounds =>
  obtain ⟨first, last⟩ := bounds
  cases expanded : expandScanObjects query.parse scanobjects with
  | none =>
      rw [range, expanded] at replied
      cases replied
  | some scripts =>
  rw [range, expanded] at replied
  dsimp only at replied
  rw [Reads.run_get_bind] at replied
  have asked := scanRange_asked range
  have order := asked.ordered
  cases walked : (ancestry.getAncestry ((seen 1).toConfirmed last) (last - first + 1)).bind
      fun branch => branch.reverse.foldlM (scanBlock store query scripts) [] with
  | none =>
      rw [Nat.zero_add, walked] at replied
      cases replied
  | some relevant =>
      rw [Nat.zero_add, walked] at replied
      cases replied
      obtain ⟨branch, found, scanned⟩ := Option.bind_eq_some_iff.mp walked
      obtain ⟨pinned, here, rfl⟩ := getAncestry_eq_some found
      have height : store.height pinned = last := (seen 1).confirmed.placed last pinned here
      have few : min (last - first + 1) (store.height pinned + 1) = last - first + 1 := by omega
      have inside := (List.getElem?_eq_some_iff.mp here).1
      rw [Store.Confirmed.length_links] at inside
      have begins : last + 1 - (last - first + 1) = first := by omega
      rw [few, Ancestry.iterate_linked linked here (by omega), List.reverse_reverse, begins]
        at scanned
      obtain ⟨filters, listed⟩ := foldlM_scanBlock scanned
      exact ⟨scripts, rfl, asked.below, asked, order, Nat.le_of_lt_succ inside, filters, listed⟩

/-! ## A window is of one branch -/

omit [DecidableEq Link] [DecidableEq Digest] in
theorem statsWindow_le {height window : Nat} {nblocks : ℚ}
    (found : statsWindow query height nblocks = some window) : window ≤ height := by
  unfold statsWindow at found
  split_ifs at found
  · cases found
    exact (Nat.min_le_right _ _).trans (Nat.sub_le height 1)
  · obtain ⟨given, -, kept⟩ := Option.bind_eq_some_iff.mp found
    split_ifs at kept with refused
    cases kept
    by_contra above
    exact refused ⟨by omega, by omega⟩

/-- The window counts the transactions of the blocks down from a link. -/
structure TxWindow.Of (ancestry : Ancestry store) (link : Link) (count : Nat) (window : TxWindow) :
    Prop where
  counted : window.txCount =
    ((List.iterate ancestry.toParent link count).map ancestry.getTxCount).sum
  unrated : window.txrate = none ↔ window.interval = 0
  rate : ∀ rate, window.txrate = some rate →
    rate = Double.divide (Double.ofNat window.txCount) window.interval ∧
      |rate * window.interval - window.txCount| ≤ window.txCount / 2 ^ 51

omit [DecidableEq Digest] in
theorem txWindow_of {link : Link} {count : Nat} (enough : count ≤ store.height link) :
    (txWindow ancestry confirmedChainState link count).Whenever sees fun counted =>
      ∀ window, counted = some window → window.Of ancestry link count := by
  unfold txWindow
  cases found : ancestry.getAncestry (some link) (count + 1) with
  | none =>
      intro window made
      cases made
  | some branch =>
      obtain ⟨pinned, same, rfl⟩ := getAncestry_eq_some found
      cases same
      have few : min count (min (count + 1) (store.height link + 1)) = count := by omega
      dsimp only
      rw [List.take_iterate, few, Reads.whenever_bind]
      apply Reads.whenever_of_forall
      intro early
      rw [Reads.whenever_bind]
      apply Reads.whenever_of_forall
      intro late window made
      cases made
      refine ⟨rfl, ?_, fun rate rated => ?_⟩
      · dsimp only
        split_ifs with passed
        · simp [passed]
        · simpa using passed
      · dsimp only at rated ⊢
        split_ifs at rated with passed
        cases rated
        refine ⟨rfl, Double.abs_divide_ofNat_mul_sub_le _ ?_⟩
        exact_mod_cast Nat.pos_of_ne_zero passed

/-- The statistics of a block and of the window of blocks that it ends. -/
structure ChainTxStats.Of (ancestry : Ancestry store)
    (query : RangeQuery Link Digest Filter Script) (link : Link) (stats : ChainTxStats) : Prop where
  hash : stats.windowFinalBlockHash = query.encodeHash (store.getHeaderKey link)
  height : stats.windowFinalBlockHeight = store.height link
  txcount : stats.txcount = ancestry.getBranchTxCount link
  below : stats.windowBlockCount ≤ store.height link
  empty : stats.window = none ↔ stats.windowBlockCount = 0
  window : ∀ window, stats.window = some window → window.Of ancestry link stats.windowBlockCount

theorem chainTxStats_whenever (nblocks : ℚ) (blockhash : String) :
    (handleGetChainTxStats ancestry query confirmedChainState nblocks blockhash).Whenever sees
      fun reply => ∀ stats, reply = .ok stats → ∃ indexes link, sees indexes ∧
        indexes.toConfirmed (store.height link) = some link ∧ stats.Of ancestry query link := by
  unfold handleGetChainTxStats
  rw [Reads.whenever_bind]
  apply Reads.whenever_of_forall
  intro found
  cases found with
  | error fault =>
      intro stats replied
      cases replied
  | ok found =>
  cases found with
  | none =>
      intro stats replied
      cases replied
  | some link =>
  dsimp only
  rw [Reads.whenever_get_bind]
  intro indexes seen
  by_cases here : indexes.toConfirmed (store.height link) = some link
  · simp only [here, decide_true, Bool.not_true, Bool.false_eq_true, if_false]
    cases read : store.getHeight link with
    | none =>
        intro stats replied
        cases replied
    | some height =>
    have height_eq := store.getHeight_eq read
    dsimp only
    cases windowed : statsWindow query height nblocks with
    | none =>
        intro stats replied
        cases replied
    | some window =>
    have below := statsWindow_le windowed
    rw [height_eq] at below
    cases store.getHeader link with
    | none =>
        intro stats replied
        cases replied
    | some header =>
        dsimp only
        split_ifs with nothing
        · intro stats replied
          cases replied
          refine ⟨indexes, link, seen, here, rfl, height_eq, rfl, below, ?_, ?_⟩
          · simp [chainTxStats, nothing]
          · intro counted made
            cases made
        · rw [Reads.whenever_bind]
          refine (txWindow_of below).imp fun counted of => ?_
          cases counted with
          | none =>
              intro stats replied
              cases replied
          | some counted =>
              intro stats replied
              cases replied
              refine ⟨indexes, link, seen, here, rfl, height_eq, rfl, below, ?_, ?_⟩
              · simp [chainTxStats, nothing]
              · intro other made
                cases made
                exact of counted rfl
  · simp only [here, decide_false, Bool.not_false, if_true]
    intro stats replied
    cases replied

/-- The least and the greatest of the timestamps of a branch. -/
structure Spans (store : HeaderStore Link Digest) (branch : List Link) (low high : Nat) : Prop where
  between : ∀ link ∈ branch, ∃ header, store.getHeader link = some header ∧
    low ≤ header.timestamp ∧ header.timestamp ≤ high
  least : ∃ link ∈ branch, ∃ header, store.getHeader link = some header ∧ header.timestamp = low
  greatest : ∃ link ∈ branch, ∃ header, store.getHeader link = some header ∧
    header.timestamp = high

omit [DecidableEq Link] [DecidableEq Digest] in
theorem spans_single {link : Link} {header : Store.BlockHeader Digest}
    (found : store.getHeader link = some header) :
    Spans store [link] header.timestamp header.timestamp := by
  have here : ∃ other ∈ [link], ∃ read, store.getHeader other = some read ∧
      read.timestamp = header.timestamp := ⟨link, List.mem_singleton_self link, header, found, rfl⟩
  refine ⟨fun other member => ?_, here, here⟩
  cases List.mem_singleton.mp member
  exact ⟨header, found, Nat.le_refl _, Nat.le_refl _⟩

omit [DecidableEq Link] [DecidableEq Digest] in
theorem Spans.concat {branch : List Link} {low high : Nat} (spans : Spans store branch low high)
    {link : Link} {header : Store.BlockHeader Digest} (found : store.getHeader link = some header) :
    Spans store (branch ++ [link]) (min low header.timestamp) (max high header.timestamp) := by
  have last : link ∈ branch ++ [link] := List.mem_append_right _ (List.mem_singleton_self link)
  constructor
  · intro other member
    cases List.mem_append.mp member with
    | inl early =>
        obtain ⟨read, here, above, below⟩ := spans.between other early
        exact ⟨read, here, (Nat.min_le_left _ _).trans above, below.trans (Nat.le_max_left _ _)⟩
    | inr late =>
        cases List.mem_singleton.mp late
        exact ⟨header, found, Nat.min_le_right _ _, Nat.le_max_right _ _⟩
  · obtain ⟨other, member, read, here, same⟩ := spans.least
    cases Nat.le_total low header.timestamp with
    | inl less =>
        rw [Nat.min_eq_left less]
        exact ⟨other, List.mem_append_left _ member, read, here, same⟩
    | inr more =>
        rw [Nat.min_eq_right more]
        exact ⟨link, last, header, found, rfl⟩
  · obtain ⟨other, member, read, here, same⟩ := spans.greatest
    cases Nat.le_total header.timestamp high with
    | inl less =>
        rw [Nat.max_eq_left less]
        exact ⟨other, List.mem_append_left _ member, read, here, same⟩
    | inr more =>
        rw [Nat.max_eq_right more]
        exact ⟨link, last, header, found, rfl⟩

omit [DecidableEq Link] [DecidableEq Digest] in
theorem spans_foldlM {before branch : List Link} {bounds result : Nat × Nat}
    (spans : Spans store before bounds.1 bounds.2)
    (folded : branch.foldlM (fun bounds link => (store.getHeader link).map fun header =>
      (min bounds.1 header.timestamp, max bounds.2 header.timestamp)) bounds = some result) :
    Spans store (before ++ branch) result.1 result.2 := by
  induction branch generalizing before bounds with
  | nil =>
      cases folded
      rw [List.append_nil]
      exact spans
  | cons link branch ih =>
      rw [List.foldlM_cons] at folded
      obtain ⟨next, turn, later⟩ := Option.bind_eq_some_iff.mp folded
      obtain ⟨header, found, rfl⟩ := Option.map_eq_some_iff.mp turn
      rw [List.append_cons]
      exact ih (spans.concat found) later

omit [DecidableEq Link] [DecidableEq Digest] in
/-- A timestamp is a `uint32_t`. -/
theorem timestamps_spans
    (small : ∀ {link header}, store.getHeader link = some header → header.timestamp < 2 ^ 32)
    {branch : List Link} (some_links : branch ≠ []) {bounds : Nat × Nat}
    (found : timestamps store branch = some bounds) : Spans store branch bounds.1 bounds.2 := by
  cases branch with
  | nil => exact absurd rfl some_links
  | cons link branch =>
      rw [timestamps, List.foldlM_cons] at found
      obtain ⟨next, turn, later⟩ := Option.bind_eq_some_iff.mp found
      obtain ⟨header, read, rfl⟩ := Option.map_eq_some_iff.mp turn
      have first : min (2 ^ 32 - 1) header.timestamp = header.timestamp :=
        Nat.min_eq_right (Nat.le_sub_one_of_lt (small read))
      rw [first, Nat.zero_max] at later
      exact spans_foldlM (spans_single read) later

/-- A rate is the double of a window's work divided by the time that passes, rounded.  The work
    between its ends is the sum of the proofs of its blocks. -/
structure Worked (ancestry : Ancestry store) (query : RangeQuery Link Digest Filter Script)
    (link : Link) (window time work : Nat) (rate : ℚ) : Prop where
  proofs : work = ((List.iterate ancestry.toParent link window).map ancestry.proof).sum
  ends : ∃ startWork endWork, ancestry.getBranchWork (ancestry.toParent^[window] link) =
    some startWork ∧ ancestry.getBranchWork link = some endWork ∧ startWork + work = endWork
  divided : rate = Double.divide (query.convertTo work) time
  near : |rate * time - query.convertTo work| ≤ |query.convertTo work| / 2 ^ 53

/-- A rate over a window of blocks and the block below it. -/
structure RateOf (ancestry : Ancestry store) (query : RangeQuery Link Digest Filter Script)
    (link : Link) (window : Nat) (rate : ℚ) : Prop where
  spanned : ∃ low high, Spans store (List.iterate ancestry.toParent link (window + 1)) low high ∧
    (low = high → rate = 0) ∧
    (low ≠ high → low < high ∧ ∃ work, Worked ancestry query link window (high - low) work rate)

omit [DecidableEq Link] [DecidableEq Digest] in
theorem hashRate_of
    (small : ∀ {link header}, store.getHeader link = some header → header.timestamp < 2 ^ 32)
    {link : Link} {window : Nat} (below : window ≤ store.height link) {rate : ℚ}
    (rated : hashRate ancestry query (List.iterate ancestry.toParent link (window + 1)) link =
      some rate) : RateOf ancestry query link window rate := by
  obtain ⟨⟨low, high⟩, found, rated⟩ := Option.bind_eq_some_iff.mp rated
  have spans := timestamps_spans small (by simp [List.iterate]) found
  have last : (List.iterate ancestry.toParent link (window + 1)).getLastD link =
      ancestry.toParent^[window] link := by
    rw [List.getLastD_eq_getLast?, List.getLast?_eq_getElem?, List.length_iterate,
      Nat.add_sub_cancel, List.getElem?_iterate _ _ _ _ (Nat.lt_succ_self window)]
    rfl
  refine ⟨low, high, spans, ?_, ?_⟩
  · intro same
    rw [if_pos same] at rated
    exact (Option.some.inj rated).symm
  · intro different
    obtain ⟨first, -, header, read, at_low⟩ := spans.least
    have order : low ≤ high := by
      obtain ⟨other, member, -, -, -⟩ := spans.greatest
      obtain ⟨header, -, above, beneath⟩ := spans.between other member
      exact above.trans beneath
    have passed : low < high := Nat.lt_of_le_of_ne order different
    refine ⟨passed, ?_⟩
    rw [if_neg different, last] at rated
    obtain ⟨startWork, started, rated⟩ := Option.bind_eq_some_iff.mp rated
    obtain ⟨endWork, ended, rated⟩ := Option.bind_eq_some_iff.mp rated
    have total := Ancestry.sum_window ancestry.branch_work below
    rw [← ancestry.work_eq started, ← ancestry.work_eq ended] at total
    have work : endWork - startWork =
        ((List.iterate ancestry.toParent link window).map ancestry.proof).sum := by omega
    have time : (0 : ℚ) < (high - low : Nat) := by exact_mod_cast Nat.sub_pos_of_lt passed
    rw [work] at rated
    have same : rate = _ := (Option.some.inj rated).symm
    refine ⟨_, rfl, ⟨startWork, endWork, started, ended, by omega⟩, same, ?_⟩
    rw [same]
    exact Double.abs_divide_mul_sub_le time

omit [DecidableEq Link] [DecidableEq Digest] in
theorem hashWindow_le {target window : Nat} {nblocks : ℚ}
    (found : hashWindow query target nblocks = some window) : window ≤ target := by
  obtain ⟨given, -, rfl⟩ := Option.map_eq_some_iff.mp found
  exact Nat.min_le_right _ _

omit [DecidableEq Link] [DecidableEq Digest] in
/-- In every interleaving of its reads with changes of the chain, the rate of the network is
    the work of a window of one branch over the time that it spans, rounded, or none where no
    time passes in it. -/
theorem networkHashPs_window
    (small : ∀ {link header}, store.getHeader link = some header → header.timestamp < 2 ^ 32)
    (start : Indexes store) (schedule : Nat → List (Change Link)) (nblocks height : ℚ) :
    let seen := Reads.interleaved Indexes.step start schedule
    ∀ rate, (handleGetNetworkHashPs ancestry query nblocks height).run seen = .ok rate →
      ∃ target window, hashTarget (seen 0).confirmed.top height = some target ∧
        hashWindow query target nblocks = some window ∧
        (window = 0 → rate = 0) ∧
        (window ≠ 0 → ∃ link, (seen 1).toConfirmed target = some link ∧
          RateOf ancestry query link window rate) := by
  intro seen rate replied
  rw [handleGetNetworkHashPs, Reads.run_get_bind] at replied
  cases chosen : (hashTarget (seen 0).getTopConfirmed height).bind fun target =>
      (hashWindow query target nblocks).map fun window => (target, window) with
  | none =>
      rw [chosen] at replied
      cases replied
  | some pair =>
  obtain ⟨target, window⟩ := pair
  obtain ⟨aimed, here, windowed⟩ := Option.bind_eq_some_iff.mp chosen
  obtain ⟨width, wide, same⟩ := Option.map_eq_some_iff.mp windowed
  cases same
  rw [chosen] at replied
  refine ⟨target, window, here, wide, ?_⟩
  dsimp only at replied
  split_ifs at replied with nothing
  · cases replied
    exact ⟨fun _ => rfl, fun some_blocks => absurd nothing some_blocks⟩
  · refine ⟨fun none_left => absurd none_left nothing, fun _ => ?_⟩
    rw [Reads.run_get_bind, Nat.zero_add] at replied
    cases found : (seen 1).toConfirmed target with
    | none =>
        rw [found] at replied
        cases replied
    | some link =>
    rw [found] at replied
    cases walked : ancestry.getAncestry (some link) (window + 1) with
    | none =>
        rw [walked] at replied
        cases replied
    | some branch =>
    rw [walked] at replied
    obtain ⟨pinned, same, rfl⟩ := getAncestry_eq_some walked
    cases same
    have placed : store.height link = target := (seen 1).confirmed.placed target link found
    have below : window ≤ store.height link := placed ▸ hashWindow_le wide
    rw [Nat.min_eq_left (Nat.succ_le_succ below)] at replied
    dsimp only at replied
    cases rated : hashRate ancestry query
        (List.iterate ancestry.toParent link (window + 1)) link with
    | none =>
        rw [rated] at replied
        cases replied
    | some given =>
        rw [rated] at replied
        cases replied
        exact ⟨link, rfl, hashRate_of small below rated⟩

end Ranges

private theorem unread_length {wire : List UInt8} (same : none = some wire) :
    wire.length = 80 := by
  cases same

private def spacedHeader (link : Nat) : Option (Store.BlockHeader Nat) :=
  some ⟨link, 600 * min link 100, 0⟩

private theorem spacedHeader_hash {link : Nat} {header : Store.BlockHeader Nat}
    (same : spacedHeader link = some header) : header.hash = link := by
  cases same
  rfl

private theorem same_height {first second : Nat} (same : id first = id second) :
    id first = id second := same

private theorem some_height {link read : Nat} (same : some link = some read) : read = link :=
  (Option.some.inj same).symm

/-- Links that are their own keys and heights, ten minutes apart. -/
private def spacedHeaders : HeaderStore Nat Nat where
  getHeaderKey := id
  height := id
  getHeight := some
  getHeader := spacedHeader
  getWireHeader _ := none
  getContext link := some (600 * link)
  getHeight_eq := some_height
  hash_eq := spacedHeader_hash
  wire_length := unread_length
  height_of_key := same_height

private def spacedAncestry : Ancestry spacedHeaders where
  toParent := Nat.pred
  height_parent positive := Nat.succ_pred_eq_of_pos positive
  getTxCount _ := 2
  getBranchTxCount link := 2 * link
  branch_tx_count := by
    intro link positive
    change 2 * link = 2 + 2 * (link - 1)
    have : 0 < link := positive
    omega
  proof _ := 3
  work link := 3 * link
  getBranchWork link := some (3 * link)
  work_eq same := (Option.some.inj same).symm
  branch_work := by
    intro link positive
    change 3 * link = 3 + 3 * (link - 1)
    have : 0 < link := positive
    omega

/-- The filters of odd heights match. -/
private def oddFilters : RangeQuery Nat Nat Nat Unit where
  decodeHash text := text.toNat?
  encodeHash hash := String.ofList (List.replicate hash 'x')
  parse _ := some ⟨false, fun _ => [()]⟩
  filterEnabled := true
  getFilterBody := some
  matchFilter _ filter _ := filter % 2 = 1
  blockSpacingSeconds := 600
  retargetingInterval := 2016
  convertTo work := work

private def fourSpaced : Indexes spacedHeaders where
  archived := []
  candidateTop := 3
  confirmed := {
    genesis := 0
    above := [1, 2, 3]
    placed := by
      intro index link here
      rcases index with _ | _ | _ | _ | index
      all_goals cases here
      all_goals rfl
    bounded := Nat.lt_two_pow_self.trans_le (Nat.pow_le_pow_right Nat.two_pos
      (Nat.le_add_left 4 60)) }

/-- A block is connected after the top is read. -/
private def connected (index : Nat) : List (Change Nat) := if index = 1 then [.connect 4] else []

private theorem connected_linked :
    spacedAncestry.Linked (Reads.interleaved Indexes.step fourSpaced connected 1).confirmed := by
  intro height link above here there
  have chain : (Reads.interleaved Indexes.step fourSpaced connected 1).confirmed.links =
      [0, 1, 2, 3, 4] := rfl
  rw [chain] at here there
  rcases height with _ | _ | _ | _ | _ | height
  all_goals cases here
  all_goals cases there
  all_goals rfl

theorem scanBlocks_snapshot_four :
    let seen := Reads.interleaved Indexes.step fourSpaced connected
    ∃ scripts, expandScanObjects oddFilters.parse [.string "addr(x)"] = some scripts ∧
      3 ≤ (seen 0).confirmed.top ∧ RangeAsked (seen 0).confirmed.top 0 (-1) 0 3 ∧
      Scanned spacedHeaders oddFilters (seen 1).confirmed scripts ⟨0, 3, ["x", "xxx"]⟩ := by
  intro seen
  have replied : (handleScanBlocks spacedAncestry oddFilters "start" [.string "addr(x)"] 0 (-1)
      "basic").run seen = .ok ⟨0, 3, ["x", "xxx"]⟩ := by rfl
  exact scanBlocks_snapshot fourSpaced connected _ _ _ _ _ connected_linked _ replied

theorem networkHashPs_window_four :
    let seen := Reads.interleaved Indexes.step fourSpaced connected
    ∃ rate, (handleGetNetworkHashPs spacedAncestry oddFilters 2 (-1)).run seen = .ok rate ∧
      ∃ target window, hashTarget (seen 0).confirmed.top (-1) = some target ∧
        hashWindow oddFilters target 2 = some window ∧
        (window = 0 → rate = 0) ∧
        (window ≠ 0 → ∃ link, (seen 1).toConfirmed target = some link ∧
          RateOf spacedAncestry oddFilters link window rate) := by
  intro seen
  have small : ∀ {link header}, spacedHeaders.getHeader link = some header →
      header.timestamp < 2 ^ 32 := by
    intro link header found
    cases found
    change 600 * min link 100 < 2 ^ 32
    omega
  have replied : ∃ rate, (handleGetNetworkHashPs spacedAncestry oddFilters 2 (-1)).run seen =
      .ok rate := ⟨_, rfl⟩
  obtain ⟨rate, replied⟩ := replied
  exact ⟨rate, replied, networkHashPs_window small fourSpaced connected 2 (-1) rate replied⟩

end LibbitcoinServer.Bitcoind
