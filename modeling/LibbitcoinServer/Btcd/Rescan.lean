import LibbitcoinServer.Btcd.Matching

/-! # Rescanned blocks

A rescan resolves each named block to a height, and replays every watch against the
heights.  History is of the confirmed chain, so what is found at a height is of the
confirmed block there, and it is reported under the hash that was named.  A header that
is stored and not confirmed has the height of a block that it is not.
-/

namespace LibbitcoinServer.Btcd

/-- The block queries, with that of a header by its hash. -/
structure HeaderArchive (Digest : Type) extends BlockArchive Digest where
  toHeader : Digest → Option Nat

/-- A moment at which a rescan looks at `stopping_`.  A loop over a list is at the number
    of elements that it has left. -/
inductive RescanMoment (Digest : Type) where
  | name (left : Nat)
  | address (key : Digest)
  | outpoint (prevout : Point Digest)
  | discover (left : Nat)
  | serialize (left : Nat) (moment : Moment Digest)

/-- The channel is stopped before the protocol is told to stop. -/
structure Stop (Digest : Type) where
  stopping : RescanMoment Digest → Bool
  stopped : Bool
  lasting : ∀ moment, stopping moment → stopped

/-- An element of the result. -/
structure Discovered (Digest : Type) where
  hash : Digest
  transactions : List (Transaction Digest)

inductive RescanFault where
  | invalidAddressOrKey
  deriving DecidableEq

variable {Digest : Type} [LinearOrder Digest]

section Rescan

variable (options : Options) (archive : HeaderArchive Digest)
  (stopping : RescanMoment Digest → Bool)

def heightOf (hash : Digest) : Option Nat := (archive.toHeader hash).bind archive.getHeight

/-- The named blocks with their heights.  Without a value the rescan has returned. -/
def resolve : List Digest → Option (Except RescanFault (List (Digest × Nat)))
  | [] => some (.ok [])
  | hash :: hashes =>
      if stopping (.name hashes.length) then none
      else
        match heightOf archive hash with
        | none => some (.error .invalidAddressOrKey)
        | some height => (resolve hashes).map fun rest => rest.map ((hash, height) :: ·)

/-- A loop over watches that are replayed from the start. -/
def replay {Element Watch : Type} (visit : Element → Option (Watch × List (Match Digest))) :
    List Element → Option (List (Match Digest))
  | [] => some []
  | element :: elements =>
      match visit element, replay visit elements with
      | some (_, found), some rest => some (found ++ rest)
      | _, _ => none

/-- The matches of the snapshot at the heights. -/
def replayWatches (keys : List Digest) (points : List (Point Digest)) (heights : List Nat) :
    Option (List (Match Digest)) :=
  let address := fun key => visitAddress options archive.toBlockArchive
    (fun key => stopping (.address key)) heights key ⟨none⟩
  let outpoint := fun prevout => visitOutpoint archive.toBlockArchive
    (fun prevout => stopping (.outpoint prevout)) heights prevout ⟨[]⟩
  match replay address keys, replay outpoint points with
  | some touched, some spent => some (touched ++ spent)
  | _, _ => none

/-- The element of a named block, where something is matched at its height. -/
def discoverBlock (matched : Matches Digest) (left : Nat) (hash : Digest) (height : Nat) :
    Option (Discovered Digest) :=
  match matched.find? height with
  | none => none
  | some txs =>
      if txs.size = 0 then none
      else some ⟨hash, serializeMatches archive.toBlockArchive
        (fun moment => stopping (.serialize left moment)) txs⟩

def discover (matched : Matches Digest) :
    List (Digest × Nat) → Option (List (Discovered Digest))
  | [] => some []
  | (hash, height) :: named =>
      if stopping (.discover named.length) then none
      else (discover matched named).map
        ((discoverBlock archive stopping matched named.length hash height).toList ++ ·)

def doRescanWatches (hashes keys : List Digest) (points : List (Point Digest)) :
    Option (Except RescanFault (List (Discovered Digest))) :=
  match resolve archive stopping hashes with
  | none => none
  | some (.error fault) => some (.error fault)
  | some (.ok named) =>
      match replayWatches options archive stopping keys points (named.map Prod.snd) with
      | none => none
      | some found => (discover archive stopping (matchesOf found) named).map .ok

/-- The watches are a snapshot of the filter. -/
def doRescanBlocks (self : ProtocolBtcd Digest) (hashes : List Digest) :
    Option (Except RescanFault (List (Discovered Digest))) :=
  doRescanWatches options archive stopping hashes (self.addressWatches.entries.map Prod.fst)
    (self.outpointWatches.entries.map Prod.fst)

/-- What the client is sent by `complete_rescan_blocks`. -/
def rescanBlocks (stop : Stop Digest) (self : ProtocolBtcd Digest) (hashes : List Digest) :
    Option (Except RescanFault (List (Discovered Digest))) :=
  if stop.stopped then none else doRescanBlocks options archive stop.stopping self hashes

end Rescan

/-! ## What the store holds -/

/-- A stored header, with the transactions of its block. -/
structure StoredHeader (Digest : Type) where
  height : Nat
  block : Block Digest
  deriving DecidableEq

/-- A confirmed chain, and the headers that are stored, confirmed or not. -/
structure Holdings (Digest : Type) [DecidableEq Digest] where
  chain : Chain Digest
  hashAt : Nat → Digest
  headers : Digest → Option (StoredHeader Digest)
  confirmed : ∀ height block, chain.blocks[height]? = some block →
    headers (hashAt height) = some ⟨height, block⟩

/-- What the archive answers of the store.  The query of a history may fail. -/
structure Answers (options : Options) (archive : HeaderArchive Digest)
    (holdings : Holdings Digest) : Prop where
  located : ∀ hash, heightOf archive hash = (holdings.headers hash).map StoredHeader.height
  history : ∀ key cursor entries,
    archive.getHistory none key options.maximumHistory = .ok (cursor, entries) →
    ∀ height position hash,
      (∃ entry ∈ entries, entry.confirmed ∧ entry.height = height ∧
        entry.position = position ∧ entry.hash = hash) ↔
      ∃ tx, holdings.chain.At height position tx ∧ tx.hash = hash ∧ tx.Touches key
  spenders : ∀ prevout height position hash,
    (∃ entry ∈ archive.getSpendersHistory prevout, entry.confirmed ∧ entry.height = height ∧
      entry.position = position ∧ entry.hash = hash) ↔
    ∃ tx, holdings.chain.At height position tx ∧ tx.hash = hash ∧ tx.Spends prevout
  stored : ∀ height position tx, holdings.chain.At height position tx →
    archive.getTransaction tx.hash = some tx

section Attribution

variable (options : Options) (archive : HeaderArchive Digest) (holdings : Holdings Digest)
  (protocol : ProtocolBtcd Digest) (hashes : List Digest)

def Watched (tx : Transaction Digest) : Prop :=
  (∃ key ∈ protocol.addressWatches.entries.map Prod.fst, tx.Touches key) ∨
    ∃ prevout ∈ protocol.outpointWatches.entries.map Prod.fst, tx.Spends prevout

/-- The history of the script is not refused. -/
def Served (key : Digest) : Prop :=
  ∃ answer, archive.getHistory none key options.maximumHistory = .ok answer

/-- The transaction is watched by an outpoint, or by a script whose history is served. -/
def Replayed (tx : Transaction Digest) : Prop :=
  (∃ key ∈ protocol.addressWatches.entries.map Prod.fst,
      Served options archive key ∧ tx.Touches key) ∨
    ∃ prevout ∈ protocol.outpointWatches.entries.map Prod.fst, tx.Spends prevout

/-- The transactions of an entry are of its block, and none of a confirmed block is missing. -/
structure Attributed (entries : List (Discovered Digest)) : Prop where
  contained : ∀ entry ∈ entries, ∃ stored, holdings.headers entry.hash = some stored ∧
    ∀ tx ∈ entry.transactions, tx ∈ stored.block
  complete : ∀ height, holdings.hashAt height ∈ hashes → ∀ position tx,
    holdings.chain.At height position tx → Watched protocol tx →
      ∃ entry ∈ entries, entry.hash = holdings.hashAt height ∧ tx ∈ entry.transactions
  ordered : (entries.map Discovered.hash).Sublist hashes

/-- A named header has the matched transactions of the confirmed block at its height, and
    no history that matters is refused. -/
structure Separate : Prop where
  alike : ∀ hash ∈ hashes, ∀ stored, holdings.headers hash = some stored → ∀ position tx,
    holdings.chain.At stored.height position tx → Replayed options archive protocol tx →
      tx ∈ stored.block
  served : ∀ height, holdings.hashAt height ∈ hashes → ∀ position tx,
    holdings.chain.At height position tx → Watched protocol tx →
      Replayed options archive protocol tx

end Attribution

/-! ## What a rescan finds -/

section Found

variable {options : Options} {archive : HeaderArchive Digest} {holdings : Holdings Digest}
  {protocol : ProtocolBtcd Digest} {hashes : List Digest}

omit [LinearOrder Digest] in
theorem Stop.running (stop : Stop Digest) (running : stop.stopped = false) :
    stop.stopping = fun _ => false := by
  funext moment
  by_contra stopping
  rw [Bool.not_eq_false] at stopping
  simp [stop.lasting moment stopping] at running

omit [LinearOrder Digest] in
theorem resolve_ok {named : List (Digest × Nat)}
    (resolved : resolve archive (fun _ => false) hashes = some (.ok named)) :
    named.map Prod.fst = hashes ∧ ∀ pair ∈ named, heightOf archive pair.1 = some pair.2 := by
  induction hashes generalizing named with
  | nil =>
      cases resolved
      simp
  | cons hash hashes ih =>
      simp only [resolve, Bool.false_eq_true, if_false] at resolved
      cases found : heightOf archive hash with
      | none => simp [found] at resolved
      | some height =>
          rw [found] at resolved
          obtain ⟨answer, rest, same⟩ := Option.map_eq_some_iff.mp resolved
          cases answer with
          | error fault => cases same
          | ok later =>
              cases same
              obtain ⟨names, heights⟩ := ih rest
              exact ⟨by simp [names], List.forall_mem_cons.mpr ⟨found, heights⟩⟩

omit [LinearOrder Digest] in
theorem mem_named {named : List (Digest × Nat)} {hash : Digest} {height : Nat}
    (resolved : resolve archive (fun _ => false) hashes = some (.ok named)) :
    (hash, height) ∈ named ↔ hash ∈ hashes ∧ heightOf archive hash = some height := by
  obtain ⟨names, heights⟩ := resolve_ok resolved
  constructor
  · intro member
    exact ⟨names ▸ List.mem_map_of_mem member, heights _ member⟩
  · rintro ⟨member, located⟩
    rw [← names] at member
    obtain ⟨⟨name, level⟩, inside, rfl⟩ := List.mem_map.mp member
    obtain rfl := Option.some.inj ((heights _ inside).symm.trans located)
    exact inside

omit [LinearOrder Digest] in
/-- A loop that ends has what each of its visits finds. -/
theorem mem_replay {Element Watch : Type}
    {visit : Element → Option (Watch × List (Match Digest))} {holds : Element → Prop}
    {entry : Match Digest} (law : ∀ element watch events, visit element = some (watch, events) →
      (entry ∈ events ↔ holds element)) {elements : List Element} {found : List (Match Digest)}
    (replayed : replay visit elements = some found) :
    entry ∈ found ↔ ∃ element ∈ elements, holds element := by
  induction elements generalizing found with
  | nil =>
      cases replayed
      simp
  | cons element elements ih =>
      unfold replay at replayed
      split at replayed
      · rename_i watch events rest visited remaining
        cases replayed
        rw [List.mem_append, law element watch events visited, ih remaining]
        simp
      · cases replayed

theorem mem_visitAddress (answers : Answers options archive holdings) {heights : List Nat}
    {key : Digest} {watch : AddressWatch} {events : List (Match Digest)}
    (visited : visitAddress options archive.toBlockArchive (fun _ => false) heights key ⟨none⟩ =
      some (watch, events)) {height position : Nat} {hash : Digest} :
    ⟨height, position, hash⟩ ∈ events ↔ height ∈ heights ∧ Served options archive key ∧
      ∃ tx, holdings.chain.At height position tx ∧ tx.hash = hash ∧ tx.Touches key := by
  cases answered : archive.getHistory none key options.maximumHistory with
  | error code =>
      have refused : ¬Served options archive key := by simp [Served, answered]
      by_cases canceled : code = .queryCanceled
      · simp [visitAddress, matchAddresses, answered, canceled] at visited
      · simp only [visitAddress, matchAddresses, answered, canceled, Bool.false_eq_true,
          if_false] at visited
        cases visited
        simp [refused]
  | ok answer =>
      obtain ⟨cursor, delta⟩ := answer
      have served : Served options archive key := ⟨_, answered⟩
      simp only [visitAddress, matchAddresses, answered, Bool.false_eq_true, if_false] at visited
      cases visited
      rw [mem_matchEntries, answers.history key cursor delta answered]
      simp [served]

theorem mem_visitOutpoint (answers : Answers options archive holdings) {heights : List Nat}
    {prevout : Point Digest} {watch : OutpointWatch Digest} {events : List (Match Digest)}
    (visited : visitOutpoint archive.toBlockArchive (fun _ => false) heights prevout ⟨[]⟩ =
      some (watch, events)) {height position : Nat} {hash : Digest} :
    ⟨height, position, hash⟩ ∈ events ↔ height ∈ heights ∧
      ∃ tx, holdings.chain.At height position tx ∧ tx.hash = hash ∧ tx.Spends prevout := by
  simp only [visitOutpoint, matchOutpoints, difference, List.not_mem_nil, not_false_eq_true,
    decide_true, List.filter_true, Bool.false_eq_true, if_false] at visited
  cases visited
  rw [mem_matchEntries, answers.spenders]

/-- The matches are the replayed transactions of the confirmed chain at the heights. -/
theorem mem_replayWatches (answers : Answers options archive holdings) {heights : List Nat}
    {found : List (Match Digest)}
    (replayed : replayWatches options archive (fun _ => false)
      (protocol.addressWatches.entries.map Prod.fst) (protocol.outpointWatches.entries.map Prod.fst)
      heights = some found) {height position : Nat} {hash : Digest} :
    ⟨height, position, hash⟩ ∈ found ↔ height ∈ heights ∧
      ∃ tx, holdings.chain.At height position tx ∧ tx.hash = hash ∧
        Replayed options archive protocol tx := by
  simp only [replayWatches] at replayed
  split at replayed
  · rename_i touched spent addresses outpoints
    cases replayed
    rw [List.mem_append,
      mem_replay (fun key watch events visited => mem_visitAddress answers visited) addresses,
      mem_replay (fun prevout watch events visited => mem_visitOutpoint answers visited) outpoints]
    constructor
    · rintro (⟨key, member, listed, served, tx, stands, same, touches⟩ |
        ⟨prevout, member, listed, tx, stands, same, spends⟩)
      · exact ⟨listed, tx, stands, same, .inl ⟨key, member, served, touches⟩⟩
      · exact ⟨listed, tx, stands, same, .inr ⟨prevout, member, spends⟩⟩
    · rintro ⟨listed, tx, stands, same, ⟨key, member, served, touches⟩ | ⟨prevout, member, spends⟩⟩
      · exact .inl ⟨key, member, listed, served, tx, stands, same, touches⟩
      · exact .inr ⟨prevout, member, listed, tx, stands, same, spends⟩
  · cases replayed

omit [LinearOrder Digest] in
theorem discover_running (matched : Matches Digest) (named : List (Digest × Nat)) :
    discover archive (fun _ => false) matched named =
      some (named.filterMap fun pair =>
        discoverBlock archive (fun _ => false) matched 0 pair.1 pair.2) := by
  induction named with
  | nil => rfl
  | cons pair named ih =>
      obtain ⟨hash, height⟩ := pair
      simp only [discover, Bool.false_eq_true, if_false, ih, Option.map_some, List.filterMap_cons]
      change some ((discoverBlock archive (fun _ => false) matched 0 hash height).toList ++ _) = _
      cases discoverBlock archive (fun _ => false) matched 0 hash height <;> rfl

omit [LinearOrder Digest] in
theorem discoverBlock_eq_some {found : List (Match Digest)} {hash : Digest} {height : Nat}
    {entry : Discovered Digest}
    (listed : discoverBlock archive (fun _ => false) (matchesOf found) 0 hash height =
      some entry) :
    entry = ⟨hash, serialized archive.toBlockArchive found height⟩ := by
  unfold discoverBlock at listed
  split at listed
  · cases listed
  · rename_i txs at_height
    split at listed
    · cases listed
    · cases listed
      simp [serialized, at_height]

omit [LinearOrder Digest] in
theorem discoverBlock_of_lookup {found : List (Match Digest)} (hash : Digest)
    {height position : Nat} {matched : Digest}
    (held : (matchesOf found).lookup height position = some matched) :
    discoverBlock archive (fun _ => false) (matchesOf found) 0 hash height =
      some ⟨hash, serialized archive.toBlockArchive found height⟩ := by
  obtain ⟨txs, at_height, inside⟩ := Option.bind_eq_some_iff.mp held
  have some_tx : txs.size ≠ 0 := (OrderedMap.size_pos_of_find? inside).ne'
  simp only [discoverBlock, at_height, if_neg some_tx, serialized, Option.elim_some]

omit [LinearOrder Digest] in
theorem discover_sublist (found : List (Match Digest)) (named : List (Digest × Nat)) :
    ((named.filterMap fun pair => discoverBlock archive (fun _ => false) (matchesOf found) 0
      pair.1 pair.2).map Discovered.hash).Sublist (named.map Prod.fst) := by
  induction named with
  | nil => exact .slnil
  | cons pair named ih =>
      rw [List.filterMap_cons]
      cases listed : discoverBlock archive (fun _ => false) (matchesOf found) 0 pair.1 pair.2 with
      | none => exact ih.cons _
      | some entry =>
          rw [discoverBlock_eq_some listed]
          exact ih.cons_cons _

/-- The heights of the named blocks, the matches that are replayed at them, and the
    entries of the blocks that have some. -/
structure Rescanned (options : Options) (archive : HeaderArchive Digest)
    (holdings : Holdings Digest) (protocol : ProtocolBtcd Digest) (hashes : List Digest)
    (entries : List (Discovered Digest)) (found : List (Match Digest)) : Prop where
  placed : Placed holdings.chain found
  mem : ∀ {height position tx}, holdings.chain.At height position tx →
    (∃ hash ∈ hashes, heightOf archive hash = some height) →
      (⟨height, position, tx.hash⟩ ∈ found ↔ Replayed options archive protocol tx)
  listed : ∀ {entry}, entry ∈ entries → ∃ height, entry.hash ∈ hashes ∧
    heightOf archive entry.hash = some height ∧
      entry.transactions = serialized archive.toBlockArchive found height
  present : ∀ {hash height position tx}, hash ∈ hashes → heightOf archive hash = some height →
    holdings.chain.At height position tx → ⟨height, position, tx.hash⟩ ∈ found →
      ⟨hash, serialized archive.toBlockArchive found height⟩ ∈ entries
  ordered : (entries.map Discovered.hash).Sublist hashes

/-- A rescan that is replied to was never stopped, and each of its stages ended. -/
theorem rescanBlocks_eq_ok {stop : Stop Digest} {entries : List (Discovered Digest)}
    (replied : rescanBlocks options archive stop protocol hashes = some (.ok entries)) :
    ∃ named found, resolve archive (fun _ => false) hashes = some (.ok named) ∧
      replayWatches options archive (fun _ => false)
        (protocol.addressWatches.entries.map Prod.fst)
        (protocol.outpointWatches.entries.map Prod.fst) (named.map Prod.snd) = some found ∧
      (named.filterMap fun pair => discoverBlock archive (fun _ => false) (matchesOf found) 0
        pair.1 pair.2) = entries := by
  unfold rescanBlocks doRescanBlocks doRescanWatches at replied
  cases stopped : stop.stopped with
  | true => simp [stopped] at replied
  | false =>
      simp only [stopped, stop.running stopped, Bool.false_eq_true, if_false] at replied
      split at replied
      · cases replied
      · cases replied
      · rename_i named resolved
        split at replied
        · cases replied
        · rename_i found replayed
          rw [discover_running, Option.map_some] at replied
          cases replied
          exact ⟨named, found, resolved, replayed, rfl⟩

theorem placed_of_replayed (answers : Answers options archive holdings) {heights : List Nat}
    {found : List (Match Digest)}
    (replayed : replayWatches options archive (fun _ => false)
      (protocol.addressWatches.entries.map Prod.fst)
      (protocol.outpointWatches.entries.map Prod.fst) heights = some found) :
    Placed holdings.chain found := by
  intro height position hash member
  obtain ⟨-, tx, stands, same, -⟩ := (mem_replayWatches answers replayed).mp member
  exact ⟨tx, stands, same⟩

theorem rescanned_of_replied (answers : Answers options archive holdings) {stop : Stop Digest}
    {entries : List (Discovered Digest)}
    (replied : rescanBlocks options archive stop protocol hashes = some (.ok entries)) :
    ∃ found, Rescanned options archive holdings protocol hashes entries found := by
  obtain ⟨named, found, resolved, replayed, rfl⟩ := rescanBlocks_eq_ok replied
  have placed := placed_of_replayed answers replayed
  refine ⟨found, placed, ?_, ?_, ?_, ?_⟩
  · intro height position tx stands requested
    have listed : height ∈ named.map Prod.snd := by simpa [mem_named resolved] using requested
    rw [mem_replayWatches answers replayed]
    constructor
    · rintro ⟨-, other, also, -, matched⟩
      exact stands.same also ▸ matched
    · intro matched
      exact ⟨listed, tx, stands, rfl, matched⟩
  · intro entry member
    obtain ⟨⟨hash, height⟩, inside, listed⟩ := List.mem_filterMap.mp member
    obtain ⟨requested, located⟩ := (mem_named resolved).mp inside
    obtain rfl := discoverBlock_eq_some listed
    exact ⟨height, requested, located, rfl⟩
  · intro hash height position tx requested located stands member
    have inside : (hash, height) ∈ named := (mem_named resolved).mpr ⟨requested, located⟩
    have held := placed.lookup_of_mem stands member
    exact List.mem_filterMap.mpr ⟨_, inside, discoverBlock_of_lookup hash held⟩
  · rw [← (resolve_ok resolved).1]
    exact discover_sublist found named

variable {entries : List (Discovered Digest)} {found : List (Match Digest)}

/-- An entry has the replayed transactions of the confirmed block at its height. -/
theorem Rescanned.mem_serialized (answers : Answers options archive holdings)
    (rescanned : Rescanned options archive holdings protocol hashes entries found) {hash : Digest}
    {height : Nat} (requested : hash ∈ hashes) (located : heightOf archive hash = some height)
    {tx : Transaction Digest} :
    tx ∈ serialized archive.toBlockArchive found height ↔
      Replayed options archive protocol tx ∧ ∃ position, holdings.chain.At height position tx := by
  constructor
  · intro member
    obtain ⟨position, held, stands⟩ := rescanned.placed.at_of_mem answers.stored member
    exact ⟨(rescanned.mem stands ⟨hash, requested, located⟩).mp (mem_of_lookup held),
      position, stands⟩
  · rintro ⟨matched, position, stands⟩
    exact rescanned.placed.mem_of_found answers.stored stands
      ((rescanned.mem stands ⟨hash, requested, located⟩).mpr matched)

theorem heightOf_confirmed (answers : Answers options archive holdings) {height position : Nat}
    {tx : Transaction Digest} (stands : holdings.chain.At height position tx) :
    heightOf archive (holdings.hashAt height) = some height := by
  obtain ⟨block, here, -⟩ := stands
  rw [answers.located, holdings.confirmed height block here, Option.map_some]

/-- A replayed transaction at the height of a named block is listed under its hash. -/
theorem Rescanned.exists_entry (answers : Answers options archive holdings)
    (rescanned : Rescanned options archive holdings protocol hashes entries found) {hash : Digest}
    {height position : Nat} (requested : hash ∈ hashes)
    (located : heightOf archive hash = some height) {tx : Transaction Digest}
    (stands : holdings.chain.At height position tx)
    (matched : Replayed options archive protocol tx) :
    ∃ entry ∈ entries, entry.hash = hash ∧ tx ∈ entry.transactions := by
  have member := (rescanned.mem stands ⟨hash, requested, located⟩).mpr matched
  exact ⟨_, rescanned.present requested located stands member, rfl,
    (rescanned.mem_serialized answers requested located).mpr ⟨matched, position, stands⟩⟩

theorem Rescanned.attributed_iff (answers : Answers options archive holdings)
    (rescanned : Rescanned options archive holdings protocol hashes entries found) :
    Attributed holdings protocol hashes entries ↔
      Separate options archive holdings protocol hashes := by
  constructor
  · intro attributed
    refine ⟨fun hash requested stored held position tx stands matched => ?_,
      fun height requested position tx stands watched => ?_⟩
    · have located : heightOf archive hash = some stored.height := by
        rw [answers.located, held, Option.map_some]
      obtain ⟨entry, member, rfl, inside⟩ :=
        rescanned.exists_entry answers requested located stands matched
      obtain ⟨other, also, contained⟩ := attributed.contained entry member
      obtain rfl := Option.some.inj (held.symm.trans also)
      exact contained tx inside
    · obtain ⟨entry, member, same, inside⟩ :=
        attributed.complete height requested position tx stands watched
      obtain ⟨level, named, located, listed⟩ := rescanned.listed member
      rw [listed] at inside
      exact ((rescanned.mem_serialized answers named located).mp inside).1
  · intro separate
    refine ⟨fun entry member => ?_, fun height requested position tx stands watched => ?_,
      rescanned.ordered⟩
    · obtain ⟨height, requested, located, listed⟩ := rescanned.listed member
      have held := located
      rw [answers.located] at held
      obtain ⟨stored, kept, rfl⟩ := Option.map_eq_some_iff.mp held
      refine ⟨stored, kept, fun tx inside => ?_⟩
      rw [listed] at inside
      obtain ⟨matched, position, stands⟩ :=
        (rescanned.mem_serialized answers requested located).mp inside
      exact separate.alike _ requested stored kept position tx stands matched
    · exact rescanned.exists_entry answers requested (heightOf_confirmed answers stands) stands
        (separate.served height requested position tx stands watched)

end Found

/-- A rescan attributes transactions to their blocks just when the named headers have what
    the confirmed blocks at their heights have. -/
theorem rescan_attributed_iff (options : Options) (archive : HeaderArchive Digest)
    (holdings : Holdings Digest) (answers : Answers options archive holdings)
    (stop : Stop Digest) (protocol : ProtocolBtcd Digest) (hashes : List Digest)
    {entries : List (Discovered Digest)}
    (replied : rescanBlocks options archive stop protocol hashes = some (.ok entries)) :
    Attributed holdings protocol hashes entries ↔
      Separate options archive holdings protocol hashes := by
  obtain ⟨found, rescanned⟩ := rescanned_of_replied answers replied
  exact rescanned.attributed_iff answers

/-! ## A stale header at the height of a confirmed block -/

def paidTx : Transaction Nat := ⟨1, [], [7]⟩

def staleTx : Transaction Nat := ⟨2, [], [8]⟩

theorem forked_distinct : Distinct [([] : Block Nat), [paidTx]] := by decide

def forkedChain : Chain Nat := ⟨[], [[paidTx]], forked_distinct⟩

def forkedHeaders (hash : Nat) : Option (StoredHeader Nat) :=
  if hash = 100 then some ⟨0, []⟩
  else if hash = 101 then some ⟨1, [paidTx]⟩
  else if hash = 201 then some ⟨1, [staleTx]⟩
  else none

theorem forked_confirmed (height : Nat) (block : Block Nat)
    (here : forkedChain.blocks[height]? = some block) :
    forkedHeaders (100 + height) = some ⟨height, block⟩ := by
  rcases height with _ | _ | height
  · cases here
    rfl
  · cases here
    rfl
  · simp [forkedChain, Chain.blocks] at here

/-- A block that pays a watched script, and a stale header beside it. -/
def forked : Holdings Nat := ⟨forkedChain, fun height => 100 + height, forkedHeaders,
  forked_confirmed⟩

def forkedArchive : HeaderArchive Nat :=
  { forkedChain.archive fun height => ⟨100 + height, 0⟩ with
    getHeight := fun link => (forkedHeaders link).map StoredHeader.height
    toHeader := fun hash => if (forkedHeaders hash).isSome then some hash else none }

theorem forked_answers : Answers ⟨10, 100⟩ forkedArchive forked where
  located hash := by
    change (if (forkedHeaders hash).isSome then some hash else none).bind
      (fun link => (forkedHeaders link).map StoredHeader.height) = _
    cases held : forkedHeaders hash <;> simp [forked, held]
  history key cursor entries served height position hash := by
    have depicts := Chain.archive_depicts forkedChain fun height => ⟨100 + height, 0⟩
    obtain ⟨same, answered, law⟩ := depicts.history none key 100
    obtain ⟨-, rfl⟩ := Prod.mk.inj (Except.ok.inj (answered.symm.trans served))
    rw [law]
    simp [forked]
  spenders := (Chain.archive_depicts forkedChain fun height => ⟨100 + height, 0⟩).spenders
  stored := (Chain.archive_depicts forkedChain fun height => ⟨100 + height, 0⟩).stored

def watchingSeven : ProtocolBtcd Nat :=
  { ProtocolBtcd.initial with addressWatches := OrderedMap.empty.tryEmplace 7 ⟨none⟩ }

def unstopped : Stop Nat := ⟨fun _ => false, false, fun _ stopping => stopping⟩

theorem confirmed_separate : Separate ⟨10, 100⟩ forkedArchive forked watchingSeven [101] where
  alike hash requested stored held position tx stands _ := by
    obtain rfl := List.mem_singleton.mp requested
    obtain rfl : ⟨1, [paidTx]⟩ = stored := Option.some.inj held
    obtain ⟨block, here, inside⟩ := stands
    cases here
    exact List.mem_of_getElem? inside
  served height _ position tx _ watched := by
    rcases watched with ⟨key, member, touches⟩ | spends
    · exact .inl ⟨key, member, ⟨_, rfl⟩, touches⟩
    · exact .inr spends

theorem rescan_attributed_confirmed :
    Attributed forked watchingSeven [101] [⟨101, [paidTx]⟩] :=
  (rescan_attributed_iff ⟨10, 100⟩ forkedArchive forked forked_answers unstopped watchingSeven
    [101] rfl).mpr confirmed_separate

-- The payment is listed under the hash of the stale header.
theorem rescan_stale_header :
    rescanBlocks ⟨10, 100⟩ forkedArchive unstopped watchingSeven [201] =
        some (.ok [⟨201, [paidTx]⟩]) ∧
      ¬Attributed forked watchingSeven [201] [⟨201, [paidTx]⟩] := by
  refine ⟨rfl, fun attributed => ?_⟩
  obtain ⟨stored, held, contained⟩ := attributed.contained _ List.mem_cons_self
  obtain rfl : ⟨1, [staleTx]⟩ = stored := Option.some.inj held
  exact absurd (contained paidTx List.mem_cons_self) (by decide)

end LibbitcoinServer.Btcd
