import LibbitcoinServer.Electrum.ScripthashFeed
import LibbitcoinServer.Electrum.OutpointFeed
import LibbitcoinServer.Electrum.HeaderFeed

/-! # Subscriptions being established

The four subscriptions of a client against a changing store.  A number of blocks
subscription stores its flag before it reads the store and loses nothing.  The three
others read first: a change between the read and the flag of a first subscription is
notified unless its callback runs before the flag is stored.
-/

namespace LibbitcoinServer.Electrum

section Established

variable {Digest : Type} [LinearOrder Digest]

/-- The runs of the script hash feed. -/
abbrev ScripthashEvent (Digest : Type) :=
  Feed.Event (Scripts.World Digest) (Archive Digest) (ScripthashRequest Digest)

/-- The runs of the outpoint feed. -/
abbrev OutpointFeedEvent (Digest : Type) :=
  Feed.Event (ProtocolElectrum.OutpointWorld Digest) (Archive Digest) (OutpointRequest Digest)

variable (hashing : Hashing Digest) (options : Options)

/-- A state of the script hash feed. -/
abbrev ScripthashState (Digest : Type) [LinearOrder Digest] :=
  Feed.State (Scripts.World Digest) (ScripthashRequest Digest) Digest Digest (Scripts Digest)

/-- A state of the outpoint feed. -/
abbrev OutpointState (Digest : Type) [LinearOrder Digest] :=
  Feed.State (ProtocolElectrum.OutpointWorld Digest) (OutpointRequest Digest) (Point Digest)
    (OutpointView Digest) (ProtocolElectrum Digest)

def scripthashStep : ScripthashState Digest → ScripthashEvent Digest → ScripthashState Digest :=
  Feed.step (Scripts.service hashing options)

def outpointStep : OutpointState Digest → OutpointFeedEvent Digest → OutpointState Digest :=
  Feed.step (ProtocolElectrum.outpointService hashing options)

def scripthashStart (world : Scripts.World Digest) : ScripthashState Digest :=
  Feed.start world .initial

def outpointStart (world : ProtocolElectrum.OutpointWorld Digest) : OutpointState Digest :=
  Feed.start world .initial

/-- What a step of the script hash feed is to meet. -/
def ScripthashMeets (state : ScripthashState Digest) (event : ScripthashEvent Digest) : Prop :=
  Feed.Meets (Scripts.service hashing options) Scripts.Grows Scripts.Finds Scripts.Scans state
    event

/-- What a step of the outpoint feed is to meet. -/
def OutpointMeets (state : OutpointState Digest) (event : OutpointFeedEvent Digest) : Prop :=
  Feed.Meets (ProtocolElectrum.outpointService hashing options) (fun _ _ => True)
    (ProtocolElectrum.FindsOutpoint options) ProtocolElectrum.ScansOutpoint state event

/-- In every quiescent state a subscriber has been told the current status of its
    hash, the current view of its outpoint, and every block after its top, provided
    that no step of the run misses what it is to meet. -/
theorem established_notified (hashing : Hashing Digest) (options : Options) :
    (∀ (world : Scripts.World Digest) (events : List (ScripthashEvent Digest)),
      (∀ visit ∈ Run.steps (scripthashStep hashing options) (scripthashStart world) events,
        ScripthashMeets hashing options visit.1 visit.2) →
      (Run.final (scripthashStep hashing options) (scripthashStart world) events).Quiescent →
      ∀ hash sub, (Run.final (scripthashStep hashing options) (scripthashStart world)
          events).inner.protocol.addressSubscriptions.find? hash = some sub →
        Feed.told (Run.final (scripthashStep hashing options) (scripthashStart world)
          events).sent hash =
            some (statusOf hashing ((Run.final (scripthashStep hashing options)
              (scripthashStart world) events).world hash).entries)) ∧
    (∀ (world : ProtocolElectrum.OutpointWorld Digest) (events : List (OutpointFeedEvent Digest)),
      (∀ visit ∈ Run.steps (outpointStep hashing options) (outpointStart world) events,
        OutpointMeets hashing options visit.1 visit.2) →
      (Run.final (outpointStep hashing options) (outpointStart world) events).Quiescent →
      ∀ prevout sub, (Run.final (outpointStep hashing options) (outpointStart world)
          events).inner.outpointSubscriptions.find? prevout = some sub →
        Feed.told (Run.final (outpointStep hashing options) (outpointStart world)
          events).sent prevout =
            some ((Run.final (outpointStep hashing options)
              (outpointStart world) events).world prevout).view) ∧
    (∀ (top : Nat) (events : List HeaderEvent),
      (∀ visit ∈ Run.steps (Headers.step .headersSubscribe) (.initial top) events,
        visit.1.Heeded visit.2) →
      (Run.final (Headers.step .headersSubscribe) (.initial top) events).Quiescent →
        (Run.final (Headers.step .headersSubscribe) (.initial top) events).Announced) ∧
    ∀ (top : Nat) (events : List HeaderEvent),
      (Run.final (Headers.step .numberOfBlocksSubscribe) (.initial top) events).Quiescent →
        (Run.final (Headers.step .numberOfBlocksSubscribe) (.initial top) events).Announced := by
  refine ⟨?_, ?_, ?_, ?_⟩
  · intro world events meets quiet hash sub present
    have initially : Scripts.initial.Holds hashing world := by
      intro hash sub absent
      cases absent
    exact Feed.quiescent_current (Scripts.laws hashing options) initially (fun _ => rfl) meets quiet
      (congrArg (Option.map AddressSubscription.status) present)
  · intro world events meets quiet prevout sub present
    have initially : ProtocolElectrum.initial.Bare world := by
      intro prevout sub absent
      cases absent
    exact Feed.quiescent_current (ProtocolElectrum.outpointLaws hashing options) initially
      (fun _ => rfl) meets quiet (congrArg (Option.map OutpointSubscription.view) present)
  · intro top events heeded quiet
    exact Headers.announced_of_heeded heeded quiet
  · intro top events quiet
    exact Headers.numberOfBlocks_announced quiet

end Established

section Lost

/-- A header subscription, with a block organized before or after its last steps. -/
def organizedLast : List HeaderEvent :=
  [.request, .run, .proceed false, .proceed false, .proceed false, .organize, .callback, .run]

/-- The callback of the block runs between the read and the flag. -/
def organizedBetween : List HeaderEvent :=
  [.request, .run, .proceed false, .organize, .callback, .proceed false, .proceed false]

theorem organizedLast_heeded :
    ∀ visit ∈ Run.steps (Headers.step .headersSubscribe) (.initial 100) organizedLast,
      visit.1.Heeded visit.2 := by
  intro visit member
  simp only [organizedLast, Run.steps, List.mem_cons, List.not_mem_nil, or_false] at member
  rcases member with rfl | rfl | rfl | rfl | rfl | rfl | rfl | rfl
  case inr.inr.inr.inr.inr.inr.inl =>
    intro link rest waiting down
    cases down
  all_goals trivial

/-- An archive that serves every history of a world. -/
def worldArchive (world : Scripts.World Nat) : Archive Nat where
  getHistory cursor hash _ := .ok (some (world hash).top, (world hash).since cursor)
  getTxHistory _ := none
  getSpendersHistory _ := []

theorem worldArchive_serves (world : Scripts.World Nat) (hash : Nat) :
    (worldArchive world).Serves hash (world hash) where
  returns := by
    intro cursor next limit histories served
    exact (Prod.mk.inj (Except.ok.inj served)).2.symm
  advances := by
    intro cursor next limit histories served entry member
    rw [← (Prod.mk.inj (Except.ok.inj served)).1]
    simpa [History.above] using ((world hash).settled entry member).2
  within := by
    intro cursor next limit histories _ served height same
    rw [← (Prod.mk.inj (Except.ok.inj served)).1] at same
    exact (Option.some.inj same).ge

/-- A subscription to an empty history, which then gains a transaction. -/
def pooledLast : List (ScripthashEvent Nat) :=
  [.request (.subscribe 7 .scripthash), .run (worldArchive fun _ => Watch.evicted), .raise,
    .finish, .send, .change fun _ => Watch.pooled, .callback,
    .run (worldArchive fun _ => Watch.pooled), .send]

theorem pooledLast_meets :
    ∀ visit ∈ Run.steps (scripthashStep Watch.sampleHashing ⟨10, 100⟩)
      (scripthashStart fun _ => Watch.evicted) pooledLast,
      ScripthashMeets Watch.sampleHashing ⟨10, 100⟩ visit.1 visit.2 := by
  intro visit member
  simp only [pooledLast, Run.steps, List.mem_cons, List.not_mem_nil, or_false] at member
  rcases member with rfl | rfl | rfl | rfl | rfl | rfl | rfl | rfl | rfl
  · trivial
  · intro _ job rest next
    cases next
    refine ⟨worldArchive_serves _ 7, fun sub present => ?_⟩
    cases present
  · trivial
  · trivial
  · trivial
  · exact fun _ => ⟨le_rfl, [], rfl, by simp⟩
  · intro link rest waiting down
    cases down
  · intro _ job rest next
    cases next
    refine ⟨worldArchive_serves _, fun _ _ _ => ⟨_, rfl⟩, fun hash sub present nothing => ?_⟩
    have bare : Watch.pooled.unconfirmed = [] := (List.append_eq_nil_iff.mp nothing).2
    cases bare
  · trivial

/-- A header subscriber hears of the next block, and a script hash subscriber of the
    next transaction. -/
theorem established_notified_later :
    (Run.final (Headers.step .headersSubscribe) (.initial 100) organizedLast).Announced ∧
      Feed.told (Run.final (scripthashStep Watch.sampleHashing ⟨10, 100⟩)
        (scripthashStart fun _ => Watch.evicted) pooledLast).sent 7 =
          some (statusOf Watch.sampleHashing Watch.pooled.entries) := by
  obtain ⟨scripthash, -, header, -⟩ := established_notified Watch.sampleHashing ⟨10, 100⟩
  refine ⟨header 100 organizedLast organizedLast_heeded ⟨rfl, rfl, rfl⟩, ?_⟩
  exact scripthash (fun _ => Watch.evicted) pooledLast pooledLast_meets ⟨rfl, rfl, rfl, rfl⟩ 7
    Watch.pooledSub (by decide +kernel)

/-- The block organized between the read and the flag is never notified. -/
theorem header_lost :
    ¬∀ (top : Nat) (events : List HeaderEvent),
      (Run.final (Headers.step .headersSubscribe) (.initial top) events).Quiescent →
        (Run.final (Headers.step .headersSubscribe) (.initial top) events).Announced := by
  intro announced
  have lost := announced 100 organizedBetween ⟨rfl, rfl, rfl⟩ 100 (by decide) 101 (by decide)
    (by decide)
  exact absurd lost (by decide)

end Lost

end LibbitcoinServer.Electrum
