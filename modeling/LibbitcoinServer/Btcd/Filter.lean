import LibbitcoinServer.Lib.OrderedMap
import LibbitcoinServer.Store.Chain

/-! # The btcd filters

The handlers of the notification strand over the four watch maps: the addresses and
outpoints of loadtxfilter, and the legacy ones of notifyreceived and notifyspent.  A
watch holds how far it has read, and a connected block is matched by reading on from
there.  Each handler returns the protocol it leaves and the work it posts to the
channel strand.
-/

namespace LibbitcoinServer.Btcd

structure Options where
  maximumFilters : Nat
  maximumHistory : Nat

structure AddressWatch where
  cursor : Cursor
  deriving DecidableEq

structure OutpointWatch (Digest : Type) where
  spenders : List (History Digest)
  deriving DecidableEq

structure ProtocolBtcd (Digest : Type) [LinearOrder Digest] where
  addressWatches : OrderedMap Digest AddressWatch
  outpointWatches : OrderedMap (Point Digest) (OutpointWatch Digest)
  receiveWatches : OrderedMap Digest AddressWatch
  spentWatches : OrderedMap (Point Digest) (OutpointWatch Digest)
  subscribedBlocks : Bool
  watchingLegacy : Bool

/-- A moment at which a handler looks at `stopping_`.  A loop over a list is at the
    number of elements that it has left. -/
inductive Moment (Digest : Type) where
  | loadKey (left : Nat)
  | loadPoint (left : Nat)
  | receiveKey (left : Nat)
  | spentPoint (left : Nat)
  | matchAddress (key : Digest)
  | matchOutpoint (prevout : Point Digest)
  | matchReceive (key : Digest)
  | matchSpent (prevout : Point Digest)
  | serialize (position : Nat)

/-- The `[txHex, blockDetails]` of a legacy notification. -/
structure Legacy (Digest : Type) where
  tx : Transaction Digest
  height : Nat
  hash : Digest
  index : Nat
  time : Nat
  deriving DecidableEq

/-- Work posted to the channel strand. -/
inductive Post (Digest : Type) where
  | completeLoadTxFilter (code : Option Code)
  | completeNotifyReceived (code : Option Code)
  | completeNotifySpent (code : Option Code)
  | completeOverflow (code : Code)
  | notifyConnected (header : Header Digest) (height : Nat) (txs : List (Transaction Digest))
      (received redeemed : List (Legacy Digest))
  | notifyDisconnected (header : Header Digest) (height : Nat)
  deriving DecidableEq

/-- The work drops the channel. -/
def Post.overflows {Digest : Type} : Post Digest → Bool
  | .completeOverflow _ => true
  | _ => false

/-- Work posted to the notification strand by an event of the node. -/
inductive Task where
  | doConnected (link : Nat)
  | doDisconnected (link : Nat)
  deriving DecidableEq

inductive Chase where
  | organized (link : Nat)
  | reorganized (link : Nat)

/-- What the client is sent.  A transaction stands for its text. -/
inductive Notification (Digest : Type) where
  | blockconnected (hash : Digest) (height timestamp : Nat)
  | filteredblockconnected (height : Nat) (header : Header Digest)
      (txs : List (Transaction Digest))
  | recvtx (notice : Legacy Digest)
  | redeemingtx (notice : Legacy Digest)
  | blockdisconnected (hash : Digest) (height timestamp : Nat)
  | filteredblockdisconnected (height : Nat) (header : Header Digest)
  deriving DecidableEq

/-- How a loop that adds watches ends: by a return of the handler, or with its code. -/
inductive Ending where
  | returned
  | reached (code : Option Code)
  deriving DecidableEq

def ceilingedAdd (left right : Nat) : Nat := min (left + right) maxSize

variable {Digest : Type} [LinearOrder Digest]

namespace ProtocolBtcd

def initial : ProtocolBtcd Digest := ⟨.empty, .empty, .empty, .empty, false, false⟩

def handleChase (self : ProtocolBtcd Digest) : Chase → List Task
  | .organized link =>
      if self.subscribedBlocks || self.watchingLegacy then [.doConnected link] else []
  | .reorganized link =>
      if self.subscribedBlocks || self.watchingLegacy then [.doDisconnected link] else []

def handleNotifyBlocks (self : ProtocolBtcd Digest) : ProtocolBtcd Digest :=
  { self with subscribedBlocks := true }

def watchCount (self : ProtocolBtcd Digest) : Nat :=
  ceilingedAdd (ceilingedAdd (ceilingedAdd
    self.addressWatches.size self.outpointWatches.size)
    self.receiveWatches.size) self.spentWatches.size

variable (options : Options)

/-- A loop that adds a watch for each element while the budget lasts.  It returns from
    the handler where that is stopping or where the watch cannot be primed. -/
def addWatches {Element : Type} (stopping : Nat → Bool)
    (watch : Element → ProtocolBtcd Digest → ProtocolBtcd Digest × Bool) :
    List Element → ProtocolBtcd Digest → ProtocolBtcd Digest × Ending
  | [], self => (self, .reached none)
  | element :: rest, self =>
      if stopping rest.length then (self, .returned)
      else if self.watchCount ≥ options.maximumFilters then (self, .reached (some .miscError))
      else
        match watch element self with
        | (added, false) => (added, .returned)
        | (added, true) => addWatches stopping watch rest added

/-- A new address watch with its cursor primed to the present, and whether the query
    was not canceled. -/
def primed (archive : Archive Digest) (key : Digest) : AddressWatch × Bool :=
  match archive.getHistory none key options.maximumHistory with
  | .error code => (⟨none⟩, code ≠ .queryCanceled)
  | .ok (cursor, _) => (⟨cursor⟩, true)

def loadKey (archive : Archive Digest) (key : Digest) (self : ProtocolBtcd Digest) :
    ProtocolBtcd Digest × Bool :=
  if (self.addressWatches.find? key).isSome then (self, true)
  else
    let (watch, served) := primed options archive key
    ({ self with addressWatches := self.addressWatches.tryEmplace key watch }, served)

def loadPoint (archive : Archive Digest) (prevout : Point Digest) (self : ProtocolBtcd Digest) :
    ProtocolBtcd Digest × Bool :=
  let watch := ⟨archive.getSpendersHistory prevout⟩
  ({ self with outpointWatches := self.outpointWatches.tryEmplace prevout watch }, true)

/-- The body of `do_notify_received` for one key. -/
def receiveKey (archive : Archive Digest) (key : Digest) (self : ProtocolBtcd Digest) :
    ProtocolBtcd Digest × Bool :=
  if (self.receiveWatches.find? key).isSome then (self, true)
  else
    let (watch, served) := primed options archive key
    ({ self with
        receiveWatches := self.receiveWatches.tryEmplace key watch
        watchingLegacy := true }, served)

/-- The body of `do_notify_spent` for one outpoint. -/
def spentPoint (prevout : Point Digest) (self : ProtocolBtcd Digest) :
    ProtocolBtcd Digest × Bool :=
  if (self.spentWatches.find? prevout).isSome then (self, true)
  else ({ self with
      spentWatches := self.spentWatches.tryEmplace prevout ⟨[]⟩
      watchingLegacy := true }, true)

/-- Clears the filter on a reload. -/
def reloaded (reload : Bool) (self : ProtocolBtcd Digest) : ProtocolBtcd Digest :=
  if reload then { self with addressWatches := .empty, outpointWatches := .empty } else self

def doLoadTxFilter (archive : Archive Digest) (stopping : Moment Digest → Bool) (reload : Bool)
    (keys : List Digest) (points : List (Point Digest)) (self : ProtocolBtcd Digest) :
    ProtocolBtcd Digest × List (Post Digest) :=
  match addWatches options (fun left => stopping (.loadKey left)) (loadKey options archive)
      keys (self.reloaded reload) with
  | (loaded, .returned) => (loaded, [])
  | (loaded, .reached (some code)) =>
      -- The loop over the points stops at its first element.
      if points ≠ [] ∧ stopping (.loadPoint (points.length - 1)) then (loaded, [])
      else (loaded, [.completeLoadTxFilter (some code)])
  | (loaded, .reached none) =>
      match addWatches options (fun left => stopping (.loadPoint left)) (loadPoint archive)
          points loaded with
      | (filled, .returned) => (filled, [])
      | (filled, .reached code) => (filled, [.completeLoadTxFilter code])

def doNotifyReceived (archive : Archive Digest) (stopping : Moment Digest → Bool)
    (keys : List Digest) (self : ProtocolBtcd Digest) :
    ProtocolBtcd Digest × List (Post Digest) :=
  match addWatches options (fun left => stopping (.receiveKey left)) (receiveKey options archive)
      keys self with
  | (added, .returned) => (added, [])
  | (added, .reached code) => (added, [.completeNotifyReceived code])

def doNotifySpent (stopping : Moment Digest → Bool) (points : List (Point Digest))
    (self : ProtocolBtcd Digest) : ProtocolBtcd Digest × List (Post Digest) :=
  match addWatches options (fun left => stopping (.spentPoint left)) spentPoint points self with
  | (added, .returned) => (added, [])
  | (added, .reached code) => (added, [.completeNotifySpent code])

/-- The legacy gate closes with the last legacy watch. -/
def gated (self : ProtocolBtcd Digest) : ProtocolBtcd Digest :=
  if self.receiveWatches.size = 0 ∧ self.spentWatches.size = 0
  then { self with watchingLegacy := false } else self

def doStopNotifyReceived (keys : List Digest) (self : ProtocolBtcd Digest) :
    ProtocolBtcd Digest :=
  gated { self with receiveWatches := keys.foldl OrderedMap.erase self.receiveWatches }

def doStopNotifySpent (points : List (Point Digest)) (self : ProtocolBtcd Digest) :
    ProtocolBtcd Digest :=
  gated { self with spentWatches := points.foldl OrderedMap.erase self.spentWatches }

end ProtocolBtcd

/-- A confirmed transaction that a watch has read. -/
structure Match (Digest : Type) where
  height : Nat
  position : Nat
  hash : Digest
  deriving DecidableEq

/-- The matched hashes by height, then by position. -/
abbrev Matches (Digest : Type) := OrderedMap Nat (OrderedMap Nat Digest)

/-- `out[height].emplace(position, hash)`. -/
def Matches.emplace (matched : Matches Digest) (entry : Match Digest) : Matches Digest :=
  (matched.tryEmplace entry.height .empty).adjust entry.height
    (·.tryEmplace entry.position entry.hash)

def matchesOf (entries : List (Match Digest)) : Matches Digest :=
  entries.foldl Matches.emplace .empty

/-- The matches of the entries that are confirmed at one of the heights. -/
def matchEntries (heights : List Nat) (entries : List (History Digest)) : List (Match Digest) :=
  (entries.filter fun entry => entry.confirmed && entry.height ∈ heights).map fun entry =>
    ⟨entry.height, entry.position, entry.hash⟩

variable (options : Options) (archive : BlockArchive Digest) (stopping : Moment Digest → Bool)

/-- `match_addresses`, with what it emplaces into the matches of its caller. -/
def matchAddresses (sub : AddressWatch) (key : Digest) (heights : List Nat) :
    Except Code (AddressWatch × List (Match Digest)) :=
  match archive.getHistory sub.cursor key options.maximumHistory with
  | .error code => .error code
  | .ok (cursor, delta) => .ok (⟨cursor⟩, matchEntries heights delta)

/-- `match_outpoints`, with what it emplaces into the matches of its caller. -/
def matchOutpoints (sub : OutpointWatch Digest) (prevout : Point Digest) (heights : List Nat) :
    OutpointWatch Digest × List (Match Digest) :=
  let spenders := archive.getSpendersHistory prevout
  (⟨spenders⟩, matchEntries heights (difference spenders sub.spenders))

def serializeMatches (txs : OrderedMap Nat Digest) : List (Transaction Digest) :=
  (txs.entries.takeWhile fun entry => !stopping (.serialize entry.1)).filterMap fun entry =>
    archive.getTransaction entry.2

def serializeLegacy (tx : Transaction Digest) (header : Header Digest) (height position : Nat) :
    Legacy Digest :=
  ⟨tx, height, header.hash, position, header.timestamp⟩

/-- The body of a loop over address watches. -/
def visitAddress (stopping : Digest → Bool) (heights : List Nat) (key : Digest)
    (sub : AddressWatch) : Option (AddressWatch × List (Match Digest)) :=
  if stopping key then none
  else
    match matchAddresses options archive sub key heights with
    | .error code => if code = .queryCanceled then none else some (sub, [])
    | .ok answer => some answer

/-- The body of the loop over the outpoint watches. -/
def visitOutpoint (stopping : Point Digest → Bool) (heights : List Nat) (prevout : Point Digest)
    (sub : OutpointWatch Digest) : Option (OutpointWatch Digest × List (Match Digest)) :=
  if stopping prevout then none else some (matchOutpoints archive sub prevout heights)

namespace ProtocolBtcd

def matchFilters (height : Nat) (heights : List Nat) (self : ProtocolBtcd Digest) :
    ProtocolBtcd Digest × Except Code (List (Transaction Digest)) :=
  let address := visitAddress options archive (fun key => stopping (.matchAddress key)) heights
  let outpoint := visitOutpoint archive (fun prevout => stopping (.matchOutpoint prevout)) heights
  let (addresses, touched) := self.addressWatches.sweep address
  if self.addressWatches.completes address then
    let (outpoints, spent) := self.outpointWatches.sweep outpoint
    let swept := { self with addressWatches := addresses, outpointWatches := outpoints }
    if self.outpointWatches.completes outpoint then
      let matched := (matchesOf (touched ++ spent)).find? height
      (swept, .ok (matched.elim [] (serializeMatches archive stopping)))
    else (swept, .error .queryCanceled)
  else ({ self with addressWatches := addresses }, .error .queryCanceled)

/-- The loop of `arm_spent_watches` from an output index on. -/
def armOutputs (hash : Digest) :
    Nat → List Digest → Bool → ProtocolBtcd Digest → ProtocolBtcd Digest × Except Code Bool
  | _, [], paid, self => (self, .ok paid)
  | index, script :: rest, paid, self =>
      if (self.receiveWatches.find? script).isSome then
        if self.watchCount ≥ options.maximumFilters then (self, .error .miscError)
        else armOutputs hash (index + 1) rest true
          { self with spentWatches := self.spentWatches.tryEmplace (toLex (hash, index)) ⟨[]⟩ }
      else armOutputs hash (index + 1) rest paid self

def armSpentWatches (tx : Transaction Digest) (hash : Digest) (self : ProtocolBtcd Digest) :
    ProtocolBtcd Digest × Except Code Bool :=
  armOutputs options hash 0 tx.outputs false self

/-- The loop of `match_receives` over the transactions matched at its height. -/
def receiveMatched (header : Header Digest) (height : Nat) :
    List (Nat × Digest) → ProtocolBtcd Digest →
      ProtocolBtcd Digest × Except Code (List (Legacy Digest))
  | [], self => (self, .ok [])
  | (position, hash) :: rest, self =>
      match archive.getTransaction hash with
      | none => receiveMatched header height rest self
      | some tx =>
          match armSpentWatches options tx hash self with
          | (armed, .error fault) => (armed, .error fault)
          | (armed, .ok paid) =>
              let notices := if paid then [serializeLegacy tx header height position] else []
              match receiveMatched header height rest armed with
              | (last, .error fault) => (last, .error fault)
              | (last, .ok later) => (last, .ok (notices ++ later))

def matchReceives (header : Header Digest) (height : Nat) (heights : List Nat)
    (self : ProtocolBtcd Digest) : ProtocolBtcd Digest × Except Code (List (Legacy Digest)) :=
  let receive := visitAddress options archive (fun key => stopping (.matchReceive key)) heights
  let (receives, received) := self.receiveWatches.sweep receive
  let swept := { self with receiveWatches := receives }
  if self.receiveWatches.completes receive then
    match (matchesOf received).find? height with
    | none => (swept, .ok [])
    | some txs => receiveMatched options archive header height txs.entries swept
  else (swept, .error .queryCanceled)

/-- The body of the loop of `match_spends`.  A watch that matched is erased. -/
def visitSpent (header : Header Digest) (height : Nat) (heights : List Nat)
    (prevout : Point Digest) (sub : OutpointWatch Digest) :
    Option (Option (OutpointWatch Digest) × List (Legacy Digest)) :=
  if stopping (.matchSpent prevout) then none
  else
    let (next, spent) := matchOutpoints archive sub prevout heights
    match (matchesOf spent).find? height with
    | none => some (some next, [])
    | some txs =>
        if txs.size = 0 then some (some next, [])
        else some (none, txs.entries.filterMap fun entry =>
          (archive.getTransaction entry.2).map fun tx =>
            serializeLegacy tx header height entry.1)

def matchSpends (header : Header Digest) (height : Nat) (heights : List Nat)
    (self : ProtocolBtcd Digest) : ProtocolBtcd Digest × Except Code (List (Legacy Digest)) :=
  let visit := visitSpent archive stopping header height heights
  let (spents, redeemed) := self.spentWatches.prune visit
  let pruned := { self with spentWatches := spents }
  if self.spentWatches.entries.all fun entry => (visit entry.1 entry.2).isSome
  then (pruned, .ok redeemed) else (pruned, .error .queryCanceled)

def doConnected (link : Nat) (self : ProtocolBtcd Digest) :
    ProtocolBtcd Digest × List (Post Digest) :=
  match archive.getHeight link, archive.getHeader link with
  | some height, some header =>
      match self.matchFilters options archive stopping height [height] with
      | (filtered, .error _) => (filtered, [])
      | (filtered, .ok txs) =>
          match filtered.matchReceives options archive stopping header height [height] with
          | (received, .error fault) =>
              (received, if fault ≠ .queryCanceled then [.completeOverflow fault] else [])
          | (received, .ok receives) =>
              match received.matchSpends archive stopping header height [height] with
              | (spent, .error _) => (spent, [])
              | (spent, .ok spends) =>
                  (spent, [.notifyConnected header height txs receives spends])
  | _, _ => (self, [])

def doDisconnected (link : Nat) (self : ProtocolBtcd Digest) :
    ProtocolBtcd Digest × List (Post Digest) :=
  let reset := { self with
    addressWatches := self.addressWatches.mapValues fun _ => ⟨none⟩
    receiveWatches := self.receiveWatches.mapValues fun _ => ⟨none⟩ }
  match archive.getHeight link, archive.getHeader link with
  | some height, some header => (reset, [.notifyDisconnected header height])
  | _, _ => (reset, [])

/-- What the channel strand sends for the posted work. -/
def notify (self : ProtocolBtcd Digest) : Post Digest → List (Notification Digest)
  | .notifyConnected header height txs received redeemed =>
      (if self.subscribedBlocks then
        [.blockconnected header.hash height header.timestamp,
          .filteredblockconnected height header txs] else []) ++
        received.map .recvtx ++ redeemed.map .redeemingtx
  | .notifyDisconnected header height =>
      if self.subscribedBlocks then
        [.blockdisconnected header.hash height header.timestamp,
          .filteredblockdisconnected height header] else []
  | _ => []

end ProtocolBtcd

end LibbitcoinServer.Btcd
