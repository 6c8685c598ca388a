import LibbitcoinServer.Electrum.Status
import LibbitcoinServer.Lib.OrderedMap

/-! # The electrum subscriptions

The handlers of the notification strand over the two subscription maps.  Each
handler returns the protocol it leaves and the work it posts to the channel strand.
An archive stands for the answers a handler gets: a handler asks for each key once,
so its answers for two keys may be of two moments.
-/

namespace LibbitcoinServer.Electrum

structure Options where
  maximumSubscriptions : Nat
  maximumHistory : Nat

/-- An `outpoint_subscription`, with an invalid history as `none`. -/
structure OutpointSubscription (Digest : Type) where
  outpoint : Option (History Digest)
  spenders : List (History Digest)
  deriving DecidableEq

/-- The json object of an outpoint status. -/
inductive OutpointStatus where
  | missing
  | funded (funderHeight : Int)
  | spent (funderHeight : Int) (spenderTxhash : String) (spenderHeight : Int)
  deriving DecidableEq

/-- Work posted to the channel strand. -/
inductive Post (Digest : Type) where
  | completeScripthashSubscribe (code : Option Code) (status : Digest)
  | completeScripthashUnsubscribe (found : Bool)
  | scripthashNotify (status hash : Digest) (type : NotifyType)
  | completeOutpointSubscribe (code : Option Code) (sub : OutpointSubscription Digest)
      (prevout : Point Digest)
  | completeOutpointUnsubscribe (found : Bool)
  | outpointNotify (status : OutpointStatus) (prevout : Point Digest)

structure ProtocolElectrum (Digest : Type) [LinearOrder Digest] where
  addressSubscriptions : OrderedMap Digest (AddressSubscription Digest)
  outpointSubscriptions : OrderedMap (Point Digest) (OutpointSubscription Digest)
  subscribedAddress : Bool
  subscribedOutpoint : Bool

variable {Digest : Type} [LinearOrder Digest] (hashing : Hashing Digest) (options : Options)

namespace ProtocolElectrum

def initial : ProtocolElectrum Digest := ⟨.empty, .empty, false, false⟩

/-- A first subscription is limited by the configured history. -/
def subscribeLimit (self : ProtocolElectrum Digest) (hash : Digest) : Nat :=
  if (self.addressSubscriptions.find? hash).isNone then options.maximumHistory else maxSize

def doScripthashSubscribe (archive : Archive Digest) (hash : Digest) (type : NotifyType)
    (self : ProtocolElectrum Digest) : ProtocolElectrum Digest × List (Post Digest) :=
  if self.addressSubscriptions.size < options.maximumSubscriptions then
    let found := self.addressSubscriptions.find? hash
    let emplaced := self.addressSubscriptions.tryEmplace hash (.initial hashing type)
    let limit := self.subscribeLimit options hash
    match getScripthashHistory hashing archive (found.getD (.initial hashing type)) hash limit with
    | .error code =>
        let restored := if found.isNone then emplaced.erase hash else emplaced
        ({ self with addressSubscriptions := restored },
          [.completeScripthashSubscribe (some code) hashing.null])
    | .ok sub =>
        ({ self with
            addressSubscriptions := emplaced.adjust hash fun _ => sub
            subscribedAddress := true },
          [.completeScripthashSubscribe none sub.status])
  else (self, [.completeScripthashSubscribe (some .excessiveResourceUsage) hashing.null])

/-- What a subscription to a hash can do. -/
inductive ScripthashSubscribed (archive : Archive Digest) (hash : Digest) (type : NotifyType)
    (self : ProtocolElectrum Digest) : ProtocolElectrum Digest × List (Post Digest) → Prop
  | full (size : options.maximumSubscriptions ≤ self.addressSubscriptions.size) :
      ScripthashSubscribed archive hash type self
        (self, [.completeScripthashSubscribe (some .excessiveResourceUsage) hashing.null])
  | failed (size : self.addressSubscriptions.size < options.maximumSubscriptions)
      {code : Code}
      (faulted : getScripthashHistory hashing archive
        ((self.addressSubscriptions.find? hash).getD (.initial hashing type)) hash
          (self.subscribeLimit options hash) = .error code) :
      ScripthashSubscribed archive hash type self
        (self, [.completeScripthashSubscribe (some code) hashing.null])
  | subscribed (size : self.addressSubscriptions.size < options.maximumSubscriptions)
      {sub : AddressSubscription Digest}
      (read : getScripthashHistory hashing archive
        ((self.addressSubscriptions.find? hash).getD (.initial hashing type)) hash
          (self.subscribeLimit options hash) = .ok sub)
      {map : OrderedMap Digest (AddressSubscription Digest)}
      (here : map.find? hash = some sub)
      (elsewhere : ∀ key, key ≠ hash → map.find? key = self.addressSubscriptions.find? key)
      (bounded : map.size ≤ options.maximumSubscriptions) :
      ScripthashSubscribed archive hash type self
        ({ self with addressSubscriptions := map, subscribedAddress := true },
          [.completeScripthashSubscribe none sub.status])

theorem doScripthashSubscribe_cases (archive : Archive Digest) (hash : Digest)
    (type : NotifyType) (self : ProtocolElectrum Digest) :
    ScripthashSubscribed hashing options archive hash type self
      (doScripthashSubscribe hashing options archive hash type self) := by
  unfold doScripthashSubscribe
  split_ifs with size
  · cases found : self.addressSubscriptions.find? hash with
    | none =>
        dsimp only [Option.isNone_none, Option.getD_none, if_true]
        split
        · rename_i code faulted
          rw [OrderedMap.erase_tryEmplace found]
          exact .failed size (by rw [found]; exact faulted)
        · rename_i sub read
          refine .subscribed size (by rw [found]; exact read) ?_ ?_ ?_
          · rw [OrderedMap.find?_adjust, if_pos rfl, OrderedMap.find?_tryEmplace_absent found]
            rfl
          · intro key different
            rw [OrderedMap.find?_adjust, if_neg different,
              OrderedMap.find?_tryEmplace_ne different]
          · rw [OrderedMap.size_adjust, OrderedMap.size_tryEmplace_absent found]
            exact size
    | some old =>
        dsimp only [Option.isNone_some, Option.getD_some]
        rw [OrderedMap.tryEmplace_present found]
        split
        · rename_i code faulted
          exact .failed size (by rw [found]; exact faulted)
        · rename_i sub read
          refine .subscribed size (by rw [found]; exact read) ?_ ?_ ?_
          · rw [OrderedMap.find?_adjust, if_pos rfl, found]
            rfl
          · intro key different
            rw [OrderedMap.find?_adjust, if_neg different]
          · rw [OrderedMap.size_adjust]
            exact size.le
  · exact .full (not_lt.mp size)

def doScripthashUnsubscribe (hash : Digest) (self : ProtocolElectrum Digest) :
    ProtocolElectrum Digest × List (Post Digest) :=
  let found := (self.addressSubscriptions.find? hash).isSome
  let erased := self.addressSubscriptions.erase hash
  ({ self with
      addressSubscriptions := erased
      subscribedAddress := if erased.size = 0 then false else self.subscribedAddress },
    [.completeScripthashUnsubscribe found])

/-- The body of the loop of `do_scripthash`. -/
def visitScripthash (archive : Archive Digest) (key : Digest) (sub : AddressSubscription Digest) :
    Option (AddressSubscription Digest × List (Post Digest)) :=
  match getScripthashHistory hashing archive sub key maxSize with
  | .error code => if code = .queryCanceled then none else some (sub, [])
  | .ok after => some (after,
      if after.status ≠ sub.status then [.scripthashNotify after.status key after.type] else [])

def doScripthash (archive : Archive Digest) (self : ProtocolElectrum Digest) :
    ProtocolElectrum Digest × List (Post Digest) :=
  let (swept, posts) := self.addressSubscriptions.sweep (visitScripthash hashing archive)
  ({ self with addressSubscriptions := swept }, posts)

def doReorganized (self : ProtocolElectrum Digest) : ProtocolElectrum Digest :=
  { self with
    addressSubscriptions := self.addressSubscriptions.mapValues (·.reorganized hashing) }

end ProtocolElectrum

/-- `get_outpoint_history`; it returns false where the outpoint is left `none`. -/
def getOutpointHistory {Digest : Type} (archive : Archive Digest) (prevout : Point Digest) :
    OutpointSubscription Digest :=
  match archive.getTxHistory prevout.hash with
  | none => ⟨none, []⟩
  | some outpoint => ⟨some outpoint, archive.getSpendersHistory prevout⟩

def toOutpointStatus (height : Nat) : Option (History Digest) → OutpointStatus
  | none => .funded (toSigned height)
  | some spender =>
      .spent (toSigned height) (hashing.encodeHash spender.hash) (toSigned spender.height)

namespace ProtocolElectrum

def doOutpointSubscribe (archive : Archive Digest) (prevout : Point Digest)
    (self : ProtocolElectrum Digest) : ProtocolElectrum Digest × List (Post Digest) :=
  if self.outpointSubscriptions.size < options.maximumSubscriptions then
    let sub := getOutpointHistory archive prevout
    ({ self with
        outpointSubscriptions := self.outpointSubscriptions.tryEmplace prevout sub
        subscribedOutpoint := true },
      [.completeOutpointSubscribe none sub prevout])
  else (self, [.completeOutpointSubscribe (some .excessiveResourceUsage) ⟨none, []⟩ prevout])

def doOutpointUnsubscribe (prevout : Point Digest) (self : ProtocolElectrum Digest) :
    ProtocolElectrum Digest × List (Post Digest) :=
  let found := (self.outpointSubscriptions.find? prevout).isSome
  let erased := self.outpointSubscriptions.erase prevout
  ({ self with
      outpointSubscriptions := erased
      subscribedOutpoint := if erased.size = 0 then false else self.subscribedOutpoint },
    [.completeOutpointUnsubscribe found])

/-- The notifications of `do_outpoint` for one outpoint, from its cached state to
    the state just read. -/
def outpointPosts (prevout : Point Digest) (sub : OutpointSubscription Digest)
    (outpoint : History Digest) (spenders : List (History Digest)) : List (Post Digest) :=
  if sub.outpoint.map (·.height) ≠ some outpoint.height then
    if spenders.isEmpty then
      [.outpointNotify (toOutpointStatus hashing outpoint.height none) prevout]
    else spenders.map fun spender =>
      .outpointNotify (toOutpointStatus hashing outpoint.height (some spender)) prevout
  else (difference spenders sub.spenders).map fun spender =>
    .outpointNotify (toOutpointStatus hashing outpoint.height (some spender)) prevout

/-- The body of the loop of `do_outpoint`. -/
def visitOutpoint (archive : Archive Digest) (stopping : Point Digest → Bool)
    (prevout : Point Digest) (sub : OutpointSubscription Digest) :
    Option (OutpointSubscription Digest × List (Post Digest)) :=
  if stopping prevout then none
  else
    let out := getOutpointHistory archive prevout
    match out.outpoint with
    | none => some (sub, [])
    | some outpoint =>
        if sub = out then some (sub, [])
        else some (out, outpointPosts hashing prevout sub outpoint out.spenders)

def doOutpoint (archive : Archive Digest) (stopping : Point Digest → Bool)
    (self : ProtocolElectrum Digest) : ProtocolElectrum Digest × List (Post Digest) :=
  let (swept, posts) := self.outpointSubscriptions.sweep (visitOutpoint hashing archive stopping)
  ({ self with outpointSubscriptions := swept }, posts)

end ProtocolElectrum

end LibbitcoinServer.Electrum
