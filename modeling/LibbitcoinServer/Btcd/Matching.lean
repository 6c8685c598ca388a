import Mathlib.Data.List.TakeWhile
import LibbitcoinServer.Btcd.Filter

/-! # What a connected block matches

Against an archive that depicts the chain, `do_connected` moves every filter watch to
the present and reports the unread matches of its own height, each once.  The legacy
watches take no part in that.
-/

namespace LibbitcoinServer.Btcd

variable {Digest : Type}

/-- The address watch has not passed the height. -/
def AddressWatch.Unread (watch : AddressWatch) (height : Nat) : Prop :=
  ∀ passed, watch.cursor = some passed → passed < height

/-- The outpoint watch has not seen the spender. -/
def OutpointWatch.Unread (watch : OutpointWatch Digest) (height position : Nat) (hash : Digest) :
    Prop :=
  ¬∃ entry ∈ watch.spenders, entry.confirmed ∧ entry.height = height ∧
    entry.position = position ∧ entry.hash = hash

namespace Matches

def lookup (matched : Matches Digest) (height position : Nat) : Option Digest :=
  (matched.find? height).bind (·.find? position)

variable {matched : Matches Digest} {entry : Match Digest} {height position : Nat}

theorem lookup_emplace : (matched.emplace entry).lookup height position =
    (matched.lookup height position).or
      (if entry.height = height ∧ entry.position = position then some entry.hash else none) := by
  rw [lookup, lookup, emplace, OrderedMap.find?_adjust, OrderedMap.find?_tryEmplace]
  by_cases level : height = entry.height
  · subst level
    cases matched.find? entry.height <;>
      simp [OrderedMap.find?_tryEmplace, eq_comm (a := position)]
  · simp [level, Ne.symm level]

end Matches

theorem lookup_matchesOf {entries : List (Match Digest)} {height position : Nat} :
    (matchesOf entries).lookup height position =
      (entries.find? fun entry => entry.height = height ∧ entry.position = position).map
        Match.hash := by
  have general : ∀ matched : Matches Digest,
      (entries.foldl Matches.emplace matched).lookup height position =
        (matched.lookup height position).or
          ((entries.find? fun entry => entry.height = height ∧ entry.position = position).map
            Match.hash) := by
    induction entries with
    | nil => simp
    | cons entry rest ih =>
        intro matched
        rw [List.foldl_cons, ih, Matches.lookup_emplace, Option.or_assoc, List.find?_cons]
        by_cases here : entry.height = height ∧ entry.position = position <;> simp [here]
  simpa [matchesOf, Matches.lookup] using general .empty

theorem mem_matchEntries {heights : List Nat} {entries : List (History Digest)}
    {height position : Nat} {hash : Digest} :
    ⟨height, position, hash⟩ ∈ matchEntries heights entries ↔ height ∈ heights ∧
      ∃ entry ∈ entries, entry.confirmed ∧ entry.height = height ∧
        entry.position = position ∧ entry.hash = hash := by
  simp only [matchEntries, List.mem_map, List.mem_filter, Bool.and_eq_true, decide_eq_true_eq,
    Match.mk.injEq]
  constructor
  · rintro ⟨entry, ⟨member, settled, listed⟩, rfl, rfl, rfl⟩
    exact ⟨listed, entry, member, settled, rfl, rfl, rfl⟩
  · rintro ⟨listed, entry, member, settled, rfl, rfl, rfl⟩
    exact ⟨entry, ⟨member, settled, listed⟩, rfl, rfl, rfl⟩

variable [LinearOrder Digest] {options : Options} {archive : BlockArchive Digest}
  {chain : Chain Digest} {heights : List Nat}

/-- What the visit of an address reports, once the archive depicts the chain. -/
theorem visitAddress_depicts (options : Options) (heights : List Nat)
    (depicts : archive.Depicts chain) (key : Digest) (sub : AddressWatch) :
    ∃ found, visitAddress options archive (fun _ => false) heights key sub =
        some (⟨some chain.top⟩, found) ∧
      ∀ height position hash, ⟨height, position, hash⟩ ∈ found ↔
        height ∈ heights ∧ sub.Unread height ∧
          ∃ tx, chain.At height position tx ∧ tx.hash = hash ∧ tx.Touches key := by
  obtain ⟨delta, served, confirmed⟩ := depicts.history sub.cursor key options.maximumHistory
  refine ⟨matchEntries heights delta, ?_, fun height position hash => ?_⟩
  · simp [visitAddress, matchAddresses, served]
  · rw [mem_matchEntries, confirmed]
    rfl

theorem visitOutpoint_depicts (heights : List Nat) (depicts : archive.Depicts chain)
    (prevout : Point Digest) (sub : OutpointWatch Digest) :
    ∃ found, visitOutpoint archive (fun _ => false) heights prevout sub =
        some (⟨archive.getSpendersHistory prevout⟩, found) ∧
      (∀ height position hash, ⟨height, position, hash⟩ ∈ found → height ∈ heights ∧
        ∃ tx, chain.At height position tx ∧ tx.hash = hash) ∧
      ∀ height position tx, height ∈ heights → chain.At height position tx → tx.Spends prevout →
        sub.Unread height position tx.hash → ⟨height, position, tx.hash⟩ ∈ found := by
  refine ⟨matchEntries heights (difference (archive.getSpendersHistory prevout) sub.spenders),
    by simp [visitOutpoint, matchOutpoints], ?_, ?_⟩
  · intro height position hash member
    obtain ⟨listed, entry, fresh, settled⟩ := mem_matchEntries.mp member
    have current := (List.mem_filter.mp fresh).1
    obtain ⟨tx, stands, same, -⟩ := (depicts.spenders _ _ _ _).mp ⟨entry, current, settled⟩
    exact ⟨listed, tx, stands, same⟩
  · intro height position tx listed stands spends unread
    obtain ⟨entry, current, settled⟩ :=
      (depicts.spenders prevout height position tx.hash).mpr ⟨tx, stands, rfl, spends⟩
    have fresh : entry ∉ sub.spenders := fun seen => unread ⟨entry, seen, settled⟩
    have changed : entry ∈ difference (archive.getSpendersHistory prevout) sub.spenders :=
      List.mem_filter.mpr ⟨current, by simpa using fresh⟩
    exact mem_matchEntries.mpr ⟨listed, entry, changed, settled⟩

/-- The matches are of the height, at the places of the chain. -/
def Stand (chain : Chain Digest) (link : Nat) (found : List (Match Digest)) : Prop :=
  ∀ height position hash, ⟨height, position, hash⟩ ∈ found →
    height = link ∧ ∃ tx, chain.At height position tx ∧ tx.hash = hash

/-- The matches are at the places of the chain. -/
def Placed (chain : Chain Digest) (found : List (Match Digest)) : Prop :=
  ∀ height position hash, ⟨height, position, hash⟩ ∈ found →
    ∃ tx, chain.At height position tx ∧ tx.hash = hash

theorem Stand.placed {link : Nat} {found : List (Match Digest)} (stand : Stand chain link found) :
    Placed chain found :=
  fun height position hash member => (stand height position hash member).2

/-- What `match_filters` serializes of the matches at its height. -/
def serialized (archive : BlockArchive Digest) (found : List (Match Digest)) (link : Nat) :
    List (Transaction Digest) :=
  ((matchesOf found).find? link).elim [] (serializeMatches archive fun _ => false)

section Serialized

variable {found : List (Match Digest)} {link : Nat}

omit [LinearOrder Digest] in
theorem mem_of_lookup {height position : Nat} {hash : Digest}
    (held : (matchesOf found).lookup height position = some hash) :
    ⟨height, position, hash⟩ ∈ found := by
  rw [lookup_matchesOf] at held
  obtain ⟨⟨level, place, matched⟩, first, rfl⟩ := Option.map_eq_some_iff.mp held
  obtain ⟨rfl, rfl⟩ : level = height ∧ place = position := by simpa using List.find?_some first
  exact List.mem_of_find?_eq_some first

/-- A position of the matches holds the hash of the transaction that stands there. -/
theorem Placed.lookup (placed : Placed chain found) {height position : Nat} {hash : Digest}
    (held : (matchesOf found).lookup height position = some hash) :
    ∃ tx, chain.At height position tx ∧ tx.hash = hash :=
  placed _ _ _ (mem_of_lookup held)

theorem Placed.lookup_of_mem (placed : Placed chain found) {position : Nat}
    {tx : Transaction Digest} (stands : chain.At link position tx)
    (member : ⟨link, position, tx.hash⟩ ∈ found) :
    (matchesOf found).lookup link position = some tx.hash := by
  cases held : (matchesOf found).lookup link position with
  | none =>
      rw [lookup_matchesOf, Option.map_eq_none_iff, List.find?_eq_none] at held
      simpa using held _ member
  | some hash =>
      obtain ⟨other, also, rfl⟩ := placed.lookup held
      rw [stands.same also]

omit [LinearOrder Digest] in
theorem serializeMatches_running {txs : OrderedMap Nat Digest} :
    serializeMatches archive (fun _ => false) txs =
      txs.entries.filterMap fun entry => archive.getTransaction entry.2 := by
  have all : txs.entries.takeWhile (fun _ => !false) = txs.entries :=
    List.takeWhile_eq_self_iff.mpr fun _ _ => rfl
  rw [serializeMatches, all]

omit [LinearOrder Digest] in
theorem mem_serialized {tx : Transaction Digest} :
    tx ∈ serialized archive found link ↔ ∃ position hash,
      (matchesOf found).lookup link position = some hash ∧
        archive.getTransaction hash = some tx := by
  cases at_link : (matchesOf found).find? link with
  | none => simp [serialized, Matches.lookup, at_link]
  | some txs =>
      simp [serialized, Matches.lookup, at_link, serializeMatches_running,
        OrderedMap.find?_eq_some]

variable (placed : Placed chain found) (stored : ∀ height position tx,
  chain.At height position tx → archive.getTransaction tx.hash = some tx)
include placed stored

theorem Placed.at_of_mem {tx : Transaction Digest} (member : tx ∈ serialized archive found link) :
    ∃ position, (matchesOf found).lookup link position = some tx.hash ∧
      chain.At link position tx := by
  obtain ⟨position, hash, held, kept⟩ := mem_serialized.mp member
  obtain ⟨other, stands, rfl⟩ := placed.lookup held
  rw [stored _ _ _ stands] at kept
  obtain rfl := Option.some.inj kept
  exact ⟨position, held, stands⟩

theorem Placed.mem_of_found {tx : Transaction Digest} {position : Nat}
    (stands : chain.At link position tx) (matched : ⟨link, position, tx.hash⟩ ∈ found) :
    tx ∈ serialized archive found link :=
  mem_serialized.mpr ⟨position, tx.hash, placed.lookup_of_mem stands matched,
    stored _ _ _ stands⟩

/-- Two positions of the block hold two transactions. -/
theorem Placed.nodup_serialized : (serialized archive found link).Nodup := by
  cases at_link : (matchesOf found).find? link with
  | none => simp [serialized, at_link]
  | some txs =>
      have standing : ∀ entry ∈ txs.entries, ∃ tx, chain.At link entry.1 tx ∧
          archive.getTransaction entry.2 = some tx := by
        intro entry member
        have held : (matchesOf found).lookup link entry.1 = some entry.2 := by
          simpa [Matches.lookup, at_link] using OrderedMap.find?_eq_some.mpr member
        obtain ⟨tx, stands, same⟩ := placed.lookup held
        exact ⟨tx, stands, same ▸ stored _ _ _ stands⟩
      simp only [serialized, at_link, Option.elim_some, serializeMatches_running]
      refine List.pairwise_filterMap.mpr (txs.sorted.imp_of_mem ?_)
      intro earlier later member also_member less first here second also_stored same
      obtain ⟨tx, stands, kept⟩ := standing earlier member
      obtain ⟨other, also, also_kept⟩ := standing later also_member
      obtain rfl : tx = first := Option.some.inj (kept.symm.trans here)
      obtain rfl : other = second := Option.some.inj (also_kept.symm.trans also_stored)
      exact less.ne (stands.unique also (congrArg _ same)).2

end Serialized

/-- Every filter watch has been moved to the present. -/
structure Swept (archive : BlockArchive Digest) (chain : Chain Digest)
    (before next : ProtocolBtcd Digest) : Prop where
  subscribed : next.subscribedBlocks = before.subscribedBlocks
  addresses : ∀ key watch, next.addressWatches.find? key = some watch →
    watch.cursor = some chain.top ∧ ∃ old, before.addressWatches.find? key = some old
  outpoints : ∀ prevout watch, next.outpointWatches.find? prevout = some watch →
    watch.spenders = archive.getSpendersHistory prevout ∧
      ∃ old, before.outpointWatches.find? prevout = some old

/-- The transactions are of the block, each once, and among them are the unread
    matches of every filter watch. -/
structure Matched (chain : Chain Digest) (before : ProtocolBtcd Digest) (link : Nat)
    (txs : List (Transaction Digest)) : Prop where
  once : txs.Nodup
  stand : ∀ tx ∈ txs, ∃ position, chain.At link position tx
  touching : ∀ key watch position tx, before.addressWatches.find? key = some watch →
    watch.Unread link → chain.At link position tx → tx.Touches key → tx ∈ txs
  spending : ∀ prevout watch position tx, before.outpointWatches.find? prevout = some watch →
    watch.Unread link position tx.hash → chain.At link position tx → tx.Spends prevout → tx ∈ txs

section MatchFilters

/-- The protocol after the loops of `match_filters`. -/
def sweptBy (options : Options) (archive : BlockArchive Digest) (link : Nat)
    (self : ProtocolBtcd Digest) : ProtocolBtcd Digest :=
  { self with
    addressWatches :=
      (self.addressWatches.sweep (visitAddress options archive (fun _ => false) [link])).1
    outpointWatches :=
      (self.outpointWatches.sweep (visitOutpoint archive (fun _ => false) [link])).1 }

/-- The matches that the loops of `match_filters` report. -/
def foundBy (options : Options) (archive : BlockArchive Digest) (link : Nat)
    (self : ProtocolBtcd Digest) : List (Match Digest) :=
  (self.addressWatches.sweep (visitAddress options archive (fun _ => false) [link])).2 ++
    (self.outpointWatches.sweep (visitOutpoint archive (fun _ => false) [link])).2

variable {self : ProtocolBtcd Digest} {link : Nat} (depicts : archive.Depicts chain)
include depicts

theorem visitAddress_isSome (key : Digest) (sub : AddressWatch) :
    (visitAddress options archive (fun _ => false) heights key sub).isSome := by
  obtain ⟨found, seen, -⟩ := visitAddress_depicts options heights depicts key sub
  simp [seen]

theorem visitOutpoint_isSome (prevout : Point Digest) (sub : OutpointWatch Digest) :
    (visitOutpoint archive (fun _ => false) heights prevout sub).isSome := by
  obtain ⟨found, seen, -⟩ := visitOutpoint_depicts heights depicts prevout sub
  simp [seen]

theorem matchFilters_eq : self.matchFilters options archive (fun _ => false) link [link] =
    (sweptBy options archive link self, .ok (serialized archive (foundBy options archive link self)
      link)) := by
  simp only [ProtocolBtcd.matchFilters,
    OrderedMap.completes_of_total (visitAddress_isSome depicts),
    OrderedMap.completes_of_total (visitOutpoint_isSome depicts), if_true]
  rfl

theorem swept_sweptBy : Swept archive chain self (sweptBy options archive link self) where
  subscribed := rfl
  addresses key watch found := by
    obtain ⟨old, events, present, seen⟩ :=
      OrderedMap.find?_of_sweep (visitAddress_isSome depicts) found
    obtain ⟨matched, same, -⟩ := visitAddress_depicts options [link] depicts key old
    obtain ⟨rfl, -⟩ := Prod.mk.inj (Option.some.inj (same.symm.trans seen))
    exact ⟨rfl, old, present⟩
  outpoints prevout watch found := by
    obtain ⟨old, events, present, seen⟩ :=
      OrderedMap.find?_of_sweep (visitOutpoint_isSome depicts) found
    obtain ⟨matched, same, -⟩ := visitOutpoint_depicts [link] depicts prevout old
    obtain ⟨rfl, -⟩ := Prod.mk.inj (Option.some.inj (same.symm.trans seen))
    exact ⟨rfl, old, present⟩

theorem stand_foundBy : Stand chain link (foundBy options archive link self) := by
  intro height position hash member
  cases List.mem_append.mp member with
  | inl touched =>
      obtain ⟨key, watch, next, events, present, seen, inside⟩ :=
        (OrderedMap.mem_sweep_of_total (visitAddress_isSome depicts)).mp touched
      obtain ⟨matched, same, law⟩ := visitAddress_depicts options [link] depicts key watch
      obtain ⟨-, rfl⟩ := Prod.mk.inj (Option.some.inj (same.symm.trans seen))
      obtain ⟨listed, -, tx, stands, hashed, -⟩ := (law _ _ _).mp inside
      exact ⟨List.mem_singleton.mp listed, tx, stands, hashed⟩
  | inr spent =>
      obtain ⟨prevout, watch, next, events, present, seen, inside⟩ :=
        (OrderedMap.mem_sweep_of_total (visitOutpoint_isSome depicts)).mp spent
      obtain ⟨matched, same, sound, -⟩ := visitOutpoint_depicts [link] depicts prevout watch
      obtain ⟨-, rfl⟩ := Prod.mk.inj (Option.some.inj (same.symm.trans seen))
      obtain ⟨listed, stands⟩ := sound _ _ _ inside
      exact ⟨List.mem_singleton.mp listed, stands⟩

theorem matched_foundBy :
    Matched chain self link (serialized archive (foundBy options archive link self) link) where
  once := (stand_foundBy depicts).placed.nodup_serialized depicts.stored
  stand _ member := by
    obtain ⟨position, -, stands⟩ := (stand_foundBy depicts).placed.at_of_mem depicts.stored member
    exact ⟨position, stands⟩
  touching key watch position tx present unread stands touches := by
    obtain ⟨matched, same, law⟩ := visitAddress_depicts options [link] depicts key watch
    have found : ⟨link, position, tx.hash⟩ ∈ matched :=
      (law _ _ _).mpr ⟨List.mem_cons_self, unread, tx, stands, rfl, touches⟩
    refine (stand_foundBy depicts).placed.mem_of_found depicts.stored stands
      (List.mem_append_left _ ?_)
    exact (OrderedMap.mem_sweep_of_total (visitAddress_isSome depicts)).mpr
      ⟨key, watch, _, matched, present, same, found⟩
  spending prevout watch position tx present unread stands spends := by
    obtain ⟨matched, same, -, complete⟩ := visitOutpoint_depicts [link] depicts prevout watch
    have found := complete _ _ _ List.mem_cons_self stands spends unread
    refine (stand_foundBy depicts).placed.mem_of_found depicts.stored stands
      (List.mem_append_right _ ?_)
    exact (OrderedMap.mem_sweep_of_total (visitOutpoint_isSome depicts)).mpr
      ⟨prevout, watch, _, matched, present, same, found⟩

end MatchFilters

/-- The filter watches and the block subscription are as they were. -/
structure SameFilter (before next : ProtocolBtcd Digest) : Prop where
  subscribed : next.subscribedBlocks = before.subscribedBlocks
  addresses : next.addressWatches = before.addressWatches
  outpoints : next.outpointWatches = before.outpointWatches

namespace SameFilter

variable {before next last : ProtocolBtcd Digest}

theorem refl (before : ProtocolBtcd Digest) : SameFilter before before := ⟨rfl, rfl, rfl⟩

theorem trans (first : SameFilter before next) (second : SameFilter next last) :
    SameFilter before last :=
  ⟨second.subscribed.trans first.subscribed, second.addresses.trans first.addresses,
    second.outpoints.trans first.outpoints⟩

/-- The filter stays swept while only legacy watches change. -/
theorem swept (same : SameFilter next last) (swept : Swept archive chain before next) :
    Swept archive chain before last :=
  ⟨same.subscribed.trans swept.subscribed,
    fun key watch found => swept.addresses key watch (same.addresses ▸ found),
    fun prevout watch found => swept.outpoints prevout watch (same.outpoints ▸ found)⟩

end SameFilter

section Legacy

variable (options) (archive) (heights) (header : Header Digest) (height : Nat)

/-- Arming changes no filter, and fails only for the budget. -/
theorem armOutputs_spec (hash : Digest) (outputs : List Digest) (index : Nat) (paid : Bool)
    (self : ProtocolBtcd Digest) :
    SameFilter self (self.armOutputs options hash index outputs paid).1 ∧
      ∀ fault, (self.armOutputs options hash index outputs paid).2 = .error fault →
        fault = .miscError := by
  induction outputs generalizing index paid self with
  | nil => exact ⟨.refl self, fun fault failed => by cases failed⟩
  | cons script rest ih =>
      rw [ProtocolBtcd.armOutputs]
      split_ifs with watched full
      · exact ⟨.refl self, fun fault failed => by cases failed; rfl⟩
      · obtain ⟨same, fails⟩ := ih (index + 1) true { self with
          spentWatches := self.spentWatches.tryEmplace (toLex (hash, index)) ⟨[]⟩ }
        exact ⟨⟨same.subscribed, same.addresses, same.outpoints⟩, fails⟩
      · exact ih (index + 1) paid self

theorem receiveMatched_spec (entries : List (Nat × Digest)) (self : ProtocolBtcd Digest) :
    SameFilter self (self.receiveMatched options archive header height entries).1 ∧
      ∀ fault, (self.receiveMatched options archive header height entries).2 = .error fault →
        fault = .miscError := by
  induction entries generalizing self with
  | nil => exact ⟨.refl self, fun fault failed => by cases failed⟩
  | cons entry rest ih =>
      obtain ⟨position, hash⟩ := entry
      rw [ProtocolBtcd.receiveMatched]
      cases archive.getTransaction hash with
      | none => exact ih self
      | some tx =>
          have arms := armOutputs_spec options hash tx.outputs 0 false self
          dsimp only [ProtocolBtcd.armSpentWatches]
          generalize self.armOutputs options hash 0 tx.outputs false = result at arms ⊢
          obtain ⟨armed, fault | paid⟩ := result
          · exact ⟨arms.1, fun other failed => arms.2 other (by cases failed; rfl)⟩
          · have later := ih armed
            dsimp only
            generalize armed.receiveMatched options archive header height rest = result at later ⊢
            obtain ⟨last, fault | notices⟩ := result
            · exact ⟨arms.1.trans later.1, later.2⟩
            · exact ⟨arms.1.trans later.1, fun fault failed => by cases failed⟩

theorem matchReceives_spec (depicts : archive.Depicts chain) (self : ProtocolBtcd Digest) :
    SameFilter self (self.matchReceives options archive (fun _ => false) header height heights).1 ∧
      ∀ fault, (self.matchReceives options archive (fun _ => false) header height heights).2 =
        .error fault → fault = .miscError := by
  simp only [ProtocolBtcd.matchReceives,
    OrderedMap.completes_of_total (visitAddress_isSome depicts), if_true]
  split
  · exact ⟨⟨rfl, rfl, rfl⟩, fun fault failed => by cases failed⟩
  · rename_i txs matched
    obtain ⟨same, fails⟩ := receiveMatched_spec options archive header height txs.entries
      { self with receiveWatches := (self.receiveWatches.sweep
          (visitAddress options archive (fun _ => false) heights)).1 }
    exact ⟨⟨same.subscribed, same.addresses, same.outpoints⟩, fails⟩

theorem matchSpends_spec (self : ProtocolBtcd Digest) :
    SameFilter self (self.matchSpends archive (fun _ => false) header height heights).1 ∧
      ∃ redeemed, (self.matchSpends archive (fun _ => false) header height heights).2 =
        .ok redeemed := by
  have visited : ∀ entry ∈ self.spentWatches.entries, (ProtocolBtcd.visitSpent archive
      (fun _ => false) header height heights entry.1 entry.2).isSome := by
    intro entry _
    simp only [ProtocolBtcd.visitSpent, Bool.false_eq_true, if_false]
    split
    · rfl
    · split <;> rfl
  simp only [ProtocolBtcd.matchSpends, List.all_eq_true.mpr visited, if_true]
  exact ⟨⟨rfl, rfl, rfl⟩, _, rfl⟩

end Legacy

/-- What a run of `do_connected` for a block of the chain does. -/
inductive Connected (archive : BlockArchive Digest) (chain : Chain Digest) (link : Nat)
    (self : ProtocolBtcd Digest) : ProtocolBtcd Digest × List (Post Digest) → Prop
  | overflowed {next : ProtocolBtcd Digest} (swept : Swept archive chain self next) :
      Connected archive chain link self (next, [.completeOverflow .miscError])
  | notified {next : ProtocolBtcd Digest} {header : Header Digest}
      {txs : List (Transaction Digest)} {received redeemed : List (Legacy Digest)}
      (swept : Swept archive chain self next) (matched : Matched chain self link txs) :
      Connected archive chain link self
        (next, [.notifyConnected header link txs received redeemed])

theorem doConnected_cases (depicts : archive.Depicts chain) {link : Nat} (low : link ≤ chain.top)
    (self : ProtocolBtcd Digest) : Connected archive chain link self
      (self.doConnected options archive (fun _ => false) link) := by
  obtain ⟨header, headed⟩ := Option.isSome_iff_exists.mp (depicts.headed link low)
  rw [ProtocolBtcd.doConnected, depicts.linked link low, headed]
  dsimp only
  rw [matchFilters_eq depicts]
  dsimp only
  have swept : Swept archive chain self (sweptBy options archive link self) :=
    swept_sweptBy depicts
  have matched : Matched chain self link
      (serialized archive (foundBy options archive link self) link) := matched_foundBy depicts
  generalize sweptBy options archive link self = filtered at swept ⊢
  have receives := matchReceives_spec options archive [link] header link depicts filtered
  generalize filtered.matchReceives options archive (fun _ => false) header link [link] = result
    at receives ⊢
  obtain ⟨received, fault | notices⟩ := result
  · obtain rfl := receives.2 fault rfl
    exact .overflowed (receives.1.swept swept)
  · have spends := matchSpends_spec archive [link] header link received
    dsimp only
    generalize received.matchSpends archive (fun _ => false) header link [link] = result
      at spends ⊢
    obtain ⟨last, outcome⟩ := result
    obtain ⟨same, redeemed, rfl⟩ := spends
    exact .notified ((receives.1.trans same).swept swept) matched

/-- What every added watch keeps, the loop keeps. -/
theorem addWatches_keeps {Element : Type}
    {watch : Element → ProtocolBtcd Digest → ProtocolBtcd Digest × Bool}
    (holds : ProtocolBtcd Digest → Prop)
    (each : ∀ element self, self.watchCount < options.maximumFilters → holds self →
      holds (watch element self).1) (stopping : Nat → Bool)
    (elements : List Element) (self : ProtocolBtcd Digest) (start : holds self) :
    holds (ProtocolBtcd.addWatches options stopping watch elements self).1 := by
  induction elements generalizing self with
  | nil => exact start
  | cons element rest ih =>
      rw [ProtocolBtcd.addWatches]
      split_ifs with stops full
      · exact start
      · exact start
      · have added := each element self (not_le.mp full) start
        generalize watch element self = result at added ⊢
        obtain ⟨next, _ | _⟩ := result
        · exact added
        · exact ih next added

theorem doLoadTxFilter_keeps {archive : Archive Digest} {stopping : Moment Digest → Bool}
    {reload : Bool} {keys : List Digest} {points : List (Point Digest)}
    {self : ProtocolBtcd Digest} (holds : ProtocolBtcd Digest → Prop)
    (start : holds (self.reloaded reload))
    (key : ∀ key self, self.watchCount < options.maximumFilters → holds self →
      holds (self.loadKey options archive key).1)
    (point : ∀ prevout self, self.watchCount < options.maximumFilters → holds self →
      holds (self.loadPoint archive prevout).1) :
    holds (self.doLoadTxFilter options archive stopping reload keys points).1 := by
  have keyed := addWatches_keeps holds key (fun left => stopping (.loadKey left)) keys _ start
  rw [ProtocolBtcd.doLoadTxFilter]
  generalize ProtocolBtcd.addWatches options _ _ keys (self.reloaded reload) = result at keyed ⊢
  obtain ⟨loaded, _ | _ | code⟩ := result
  · exact keyed
  · have filled := addWatches_keeps holds point (fun left => stopping (.loadPoint left)) points
      loaded keyed
    dsimp only
    generalize ProtocolBtcd.addWatches options _ _ points loaded = result at filled ⊢
    obtain ⟨next, _ | code⟩ := result <;> exact filled
  · dsimp only
    split_ifs <;> exact keyed

theorem doNotifyReceived_keeps {archive : Archive Digest} {stopping : Moment Digest → Bool}
    {keys : List Digest} {self : ProtocolBtcd Digest} (holds : ProtocolBtcd Digest → Prop)
    (start : holds self)
    (key : ∀ key self, self.watchCount < options.maximumFilters → holds self →
      holds (self.receiveKey options archive key).1) :
    holds (self.doNotifyReceived options archive stopping keys).1 := by
  have added := addWatches_keeps holds key (fun left => stopping (.receiveKey left)) keys _ start
  rw [ProtocolBtcd.doNotifyReceived]
  generalize ProtocolBtcd.addWatches options _ _ keys self = result at added ⊢
  obtain ⟨next, _ | code⟩ := result <;> exact added

theorem doNotifySpent_keeps {stopping : Moment Digest → Bool} {points : List (Point Digest)}
    {self : ProtocolBtcd Digest} (holds : ProtocolBtcd Digest → Prop) (start : holds self)
    (point : ∀ prevout self, self.watchCount < options.maximumFilters → holds self →
      holds (self.spentPoint prevout).1) :
    holds (self.doNotifySpent options stopping points).1 := by
  have added := addWatches_keeps holds point (fun left => stopping (.spentPoint left)) points _
    start
  rw [ProtocolBtcd.doNotifySpent]
  generalize ProtocolBtcd.addWatches options _ _ points self = result at added ⊢
  obtain ⟨next, _ | code⟩ := result <;> exact added

/-- The filter watches are those there were, and new ones at the present. -/
structure Loaded (archive : BlockArchive Digest) (chain : Chain Digest)
    (before next : ProtocolBtcd Digest) : Prop where
  subscribed : next.subscribedBlocks = before.subscribedBlocks
  addresses : OrderedMap.Grows (fun _ watch => watch.cursor = some chain.top)
    before.addressWatches next.addressWatches
  outpoints : OrderedMap.Grows
    (fun prevout watch => watch.spenders = archive.getSpendersHistory prevout)
    before.outpointWatches next.outpointWatches

section Load

variable {before : ProtocolBtcd Digest}

theorem Loaded.refl (before : ProtocolBtcd Digest) : Loaded archive chain before before :=
  ⟨rfl, .refl _ _, .refl _ _⟩

theorem loadKey_loaded (depicts : archive.Depicts chain) (key : Digest)
    (self : ProtocolBtcd Digest) (loaded : Loaded archive chain before self) :
    Loaded archive chain before (self.loadKey options archive.toArchive key).1 := by
  obtain ⟨entries, served, -⟩ := depicts.history none key options.maximumHistory
  rw [ProtocolBtcd.loadKey]
  split_ifs
  · exact loaded
  · simp only [ProtocolBtcd.primed, served]
    exact ⟨loaded.subscribed, loaded.addresses.tryEmplace rfl, loaded.outpoints⟩

theorem loadPoint_loaded (prevout : Point Digest) (self : ProtocolBtcd Digest)
    (loaded : Loaded archive chain before self) :
    Loaded archive chain before (self.loadPoint archive.toArchive prevout).1 :=
  ⟨loaded.subscribed, loaded.addresses, loaded.outpoints.tryEmplace rfl⟩

theorem doLoadTxFilter_loaded (depicts : archive.Depicts chain) (stopping : Moment Digest → Bool)
    (reload : Bool) (keys : List Digest) (points : List (Point Digest))
    (self : ProtocolBtcd Digest) : Loaded archive chain (self.reloaded reload)
      (self.doLoadTxFilter options archive.toArchive stopping reload keys points).1 :=
  doLoadTxFilter_keeps _ (.refl _) (fun key self _ => loadKey_loaded depicts key self)
    fun prevout self _ => loadPoint_loaded prevout self

end Load

theorem receiveKey_same (archive : Archive Digest) {before : ProtocolBtcd Digest} (key : Digest)
    (self : ProtocolBtcd Digest) (same : SameFilter before self) :
    SameFilter before (self.receiveKey options archive key).1 := by
  rw [ProtocolBtcd.receiveKey]
  split_ifs
  · exact same
  · exact ⟨same.subscribed, same.addresses, same.outpoints⟩

theorem spentPoint_same {before : ProtocolBtcd Digest} (prevout : Point Digest)
    (self : ProtocolBtcd Digest) (same : SameFilter before self) :
    SameFilter before (self.spentPoint prevout).1 := by
  rw [ProtocolBtcd.spentPoint]
  split_ifs
  · exact same
  · exact ⟨same.subscribed, same.addresses, same.outpoints⟩

theorem doNotifyReceived_same (archive : Archive Digest) (stopping : Moment Digest → Bool)
    (keys : List Digest) (self : ProtocolBtcd Digest) :
    SameFilter self (self.doNotifyReceived options archive stopping keys).1 :=
  doNotifyReceived_keeps _ (.refl self) fun key self _ => receiveKey_same archive key self

theorem doNotifySpent_same (stopping : Moment Digest → Bool) (points : List (Point Digest))
    (self : ProtocolBtcd Digest) :
    SameFilter self (self.doNotifySpent options stopping points).1 :=
  doNotifySpent_keeps _ (.refl self) fun prevout self _ => spentPoint_same prevout self

theorem gated_same (self : ProtocolBtcd Digest) : SameFilter self self.gated := by
  rw [ProtocolBtcd.gated]
  split_ifs
  · exact ⟨rfl, rfl, rfl⟩
  · exact .refl self

theorem doStopNotifyReceived_same (keys : List Digest) (self : ProtocolBtcd Digest) :
    SameFilter self (self.doStopNotifyReceived keys) :=
  have gated := gated_same { self with
    receiveWatches := keys.foldl OrderedMap.erase self.receiveWatches }
  ⟨gated.subscribed, gated.addresses, gated.outpoints⟩

theorem doStopNotifySpent_same (points : List (Point Digest)) (self : ProtocolBtcd Digest) :
    SameFilter self (self.doStopNotifySpent points) :=
  have gated := gated_same { self with
    spentWatches := points.foldl OrderedMap.erase self.spentWatches }
  ⟨gated.subscribed, gated.addresses, gated.outpoints⟩

end LibbitcoinServer.Btcd
