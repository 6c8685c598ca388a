import LibbitcoinServer.Electrum.Told
import LibbitcoinServer.Lib.Feed

/-! # Script hash subscriptions as a feed

The notification strand serves the feed of script hash statuses: a subscription
reads the history and then stores `subscribed_address_`, and the notifier is
`do_scripthash`.
-/

namespace LibbitcoinServer.Electrum

variable {Digest : Type} [LinearOrder Digest]

/-- The protocol, with the unconfirmed tail that each cached status covers. -/
structure Scripts (Digest : Type) [LinearOrder Digest] where
  protocol : ProtocolElectrum Digest
  covered : Digest → List (History Digest)

inductive ScripthashRequest (Digest : Type) where
  | subscribe (hash : Digest) (type : NotifyType)
  | unsubscribe (hash : Digest)

/-- The status that a response carries to the subscriber of the hash. -/
def responseStatus (hash : Digest) : Post Digest → Option (Digest × Digest)
  | .completeScripthashSubscribe none status => some (hash, status)
  | _ => none

/-- The status that a notification carries. -/
def notifiedStatus {Digest : Type} : Post Digest → Option (Digest × Digest)
  | .scripthashNotify status hash _ => some (hash, status)
  | _ => none

/-- The unconfirmed tail of the status after a call. -/
def coveredAfter {Digest : Type} (archive : Archive Digest) (sub : AddressSubscription Digest)
    (hash : Digest) (limit : Nat) (covered : List (History Digest)) : List (History Digest) :=
  match archive.getHistory sub.cursor hash limit with
  | .error _ => covered
  | .ok (_, histories) =>
      if histories.isEmpty then covered else histories.dropWhile (·.confirmed)

namespace Scripts

variable (hashing : Hashing Digest) (options : Options)

def initial : Scripts Digest := ⟨.initial, fun _ => []⟩

/-- The subscription that a request finds or emplaces, with its tail. -/
def subject (inner : Scripts Digest) (hash : Digest) (type : NotifyType) :
    AddressSubscription Digest × List (History Digest) :=
  match inner.protocol.addressSubscriptions.find? hash with
  | none => (.initial hashing type, [])
  | some sub => (sub, inner.covered hash)

/-- A handler up to its store of the flag, with the flag and the deliveries to follow. -/
def handle (archive : Archive Digest) (inner : Scripts Digest) :
    ScripthashRequest Digest → Scripts Digest × Bool × List (Digest × Digest)
  | .subscribe hash type =>
      let (after, posts) := inner.protocol.doScripthashSubscribe hashing options archive hash type
      let deliveries := posts.filterMap (responseStatus hash)
      let (sub, covered) := inner.subject hashing hash type
      let limit := inner.protocol.subscribeLimit options hash
      (⟨{ after with subscribedAddress := inner.protocol.subscribedAddress },
          if deliveries.isEmpty then inner.covered
          else Function.update inner.covered hash (coveredAfter archive sub hash limit covered)⟩,
        after.subscribedAddress, deliveries)
  | .unsubscribe hash =>
      let (after, _) := inner.protocol.doScripthashUnsubscribe hash
      (⟨{ after with subscribedAddress := inner.protocol.subscribedAddress }, inner.covered⟩,
        after.subscribedAddress, [])

def notify (archive : Archive Digest) (inner : Scripts Digest) :
    Scripts Digest × List (Digest × Digest) :=
  let (after, posts) := inner.protocol.doScripthash hashing archive
  (⟨after, fun hash =>
      match inner.protocol.addressSubscriptions.find? hash with
      | none => inner.covered hash
      | some sub => coveredAfter archive sub hash maxSize (inner.covered hash)⟩,
    posts.filterMap notifiedStatus)

/-- The hash whose subscription a request reads. -/
def reads (archive : Archive Digest) (inner : Scripts Digest) :
    ScripthashRequest Digest → Option Digest
  | .subscribe hash type =>
      if (inner.handle hashing options archive (.subscribe hash type)).2.2.isEmpty then none
      else some hash
  | .unsubscribe _ => none

def service : Feed.Service (Archive Digest) (ScripthashRequest Digest) Digest Digest
    (Scripts Digest) where
  flag inner := inner.protocol.subscribedAddress
  handle archive request inner := inner.handle hashing options archive request
  raise flag inner :=
    { inner with protocol := { inner.protocol with subscribedAddress := flag } }
  notify archive inner := inner.notify hashing archive
  reads archive request inner := inner.reads hashing options archive request
  cached inner hash := (inner.protocol.addressSubscriptions.find? hash).map (·.status)

/-- A world is the history of every script. -/
abbrev World (Digest : Type) := Digest → ScriptHistory Digest

/-- Every subscription agrees with the history of its hash. -/
def Holds (world : World Digest) (inner : Scripts Digest) : Prop :=
  ∀ hash sub, inner.protocol.addressSubscriptions.find? hash = some sub →
    (Watch.mk sub (world hash) (inner.covered hash)).Consistent hashing

def Grows (world later : World Digest) : Prop := ∀ hash, (world hash).Extends (later hash)

/-- A call for the subscription does not find nothing new after a covered tail. -/
def Unmasked (world : World Digest) (inner : Scripts Digest) (hash : Digest) : Prop :=
  ∀ sub, inner.protocol.addressSubscriptions.find? hash = some sub →
    (world hash).since sub.cursor = [] → inner.covered hash = []

def Finds (world : World Digest) (inner : Scripts Digest) (archive : Archive Digest) :
    ScripthashRequest Digest → Prop
  | .subscribe hash _ => archive.Serves hash (world hash) ∧ inner.Unmasked world hash
  | .unsubscribe _ => True

structure Scans (world : World Digest) (inner : Scripts Digest) (archive : Archive Digest) :
    Prop where
  serves : ∀ hash, archive.Serves hash (world hash)
  succeeds : Archive.Succeeds archive
  unmasked : ∀ hash, inner.Unmasked world hash

def current (world : World Digest) (hash : Digest) : Digest :=
  statusOf hashing (world hash).entries

variable {hashing} {options} {world : World Digest} {inner : Scripts Digest}
  {archive : Archive Digest} {hash : Digest} {type : NotifyType}

omit [LinearOrder Digest] in
/-- A successful call keeps a subscription consistent with its new tail, and leaves
    the current status. -/
theorem consistent_call {sub after : AddressSubscription Digest} {store : ScriptHistory Digest}
    {covered : List (History Digest)} {limit : Nat}
    (consistent : (Watch.mk sub store covered).Consistent hashing)
    (serves : archive.Serves hash store) (unmasked : store.since sub.cursor = [] → covered = [])
    (called : getScripthashHistory hashing archive sub hash limit = .ok after) :
    (Watch.mk after store (coveredAfter archive sub hash limit covered)).Consistent hashing ∧
      after.status = statusOf hashing store.entries := by
  refine ⟨?_, (consistent.call serves unmasked called).2⟩
  have stepped : ((Watch.mk sub store covered).step hashing hash
      (.call archive limit)).Consistent hashing :=
    Watch.consistent_step consistent serves unmasked
  simp only [Watch.step, called] at stepped
  have same : coveredAfter archive sub hash limit covered =
      if (store.since sub.cursor).isEmpty then covered else store.unconfirmed := by
    cases answer : archive.getHistory sub.cursor hash limit with
    | error code => simp [getScripthashHistory, answer] at called
    | ok served =>
        have returned := serves.returns answer
        simp only [coveredAfter, answer, returned, dropWhile_since]
  rw [same]
  exact stepped

theorem subject_eq :
    (inner.subject hashing hash type).1 =
      (inner.protocol.addressSubscriptions.find? hash).getD (.initial hashing type) := by
  unfold subject
  cases inner.protocol.addressSubscriptions.find? hash <;> rfl

/-- A subscription changes nothing, or it is read and answered with its status. -/
theorem handle_subscribe_cases (hashing : Hashing Digest) (options : Options)
    (archive : Archive Digest) (inner : Scripts Digest) (hash : Digest) (type : NotifyType) :
    ((inner.handle hashing options archive (.subscribe hash type)).1 = inner ∧
        (inner.handle hashing options archive (.subscribe hash type)).2.2 = []) ∨
      ∃ after, getScripthashHistory hashing archive (inner.subject hashing hash type).1 hash
          (inner.protocol.subscribeLimit options hash) = .ok after ∧
        (inner.handle hashing options archive (.subscribe hash type)).2.2 =
          [(hash, after.status)] ∧
        (inner.handle hashing options archive
          (.subscribe hash type)).1.protocol.addressSubscriptions.find? hash = some after ∧
        (∀ key, key ≠ hash → (inner.handle hashing options archive
          (.subscribe hash type)).1.protocol.addressSubscriptions.find? key =
            inner.protocol.addressSubscriptions.find? key) ∧
        (inner.handle hashing options archive (.subscribe hash type)).1.covered =
          Function.update inner.covered hash (coveredAfter archive
            (inner.subject hashing hash type).1 hash (inner.protocol.subscribeLimit options hash)
            (inner.subject hashing hash type).2) := by
  have outcome := ProtocolElectrum.doScripthashSubscribe_cases hashing options archive hash type
    inner.protocol
  simp only [handle]
  generalize inner.protocol.doScripthashSubscribe hashing options archive hash type = result
    at outcome ⊢
  cases outcome with
  | full size => exact .inl ⟨rfl, rfl⟩
  | failed size faulted => exact .inl ⟨rfl, rfl⟩
  | subscribed size read here elsewhere bounded =>
      rw [← subject_eq] at read
      exact .inr ⟨_, read, rfl, here, elsewhere, rfl⟩

theorem consistent_subject (holds : inner.Holds hashing world) :
    (Watch.mk (inner.subject hashing hash type).1 (world hash)
      (inner.subject hashing hash type).2).Consistent hashing := by
  unfold subject
  cases present : inner.protocol.addressSubscriptions.find? hash with
  | none => exact Watch.consistent_start
  | some sub => exact holds hash sub present

theorem unmasked_subject (unmasked : inner.Unmasked world hash) :
    (world hash).since (inner.subject hashing hash type).1.cursor = [] →
      (inner.subject hashing hash type).2 = [] := by
  unfold subject
  cases present : inner.protocol.addressSubscriptions.find? hash with
  | none => exact fun _ => rfl
  | some sub => exact unmasked sub present

theorem holds_subscribe (holds : inner.Holds hashing world)
    (serves : archive.Serves hash (world hash)) (unmasked : inner.Unmasked world hash) :
    (inner.handle hashing options archive (.subscribe hash type)).1.Holds hashing world := by
  rcases handle_subscribe_cases hashing options archive inner hash type with
    ⟨same, -⟩ | ⟨after, read, -, here, elsewhere, covered⟩
  · rw [same]
    exact holds
  · intro key sub present
    rw [covered]
    by_cases about : key = hash
    · subst about
      obtain rfl := Option.some.inj (here.symm.trans present)
      rw [Function.update_self]
      exact (consistent_call (consistent_subject holds) serves (unmasked_subject unmasked) read).1
    · rw [Function.update_of_ne about]
      exact holds key sub ((elsewhere key about).symm.trans present)

theorem holds_unsubscribe (options : Options) (archive : Archive Digest)
    (holds : inner.Holds hashing world) :
    (inner.handle hashing options archive (.unsubscribe hash)).1.Holds hashing world := by
  intro key sub present
  have different : key ≠ hash := by
    rintro rfl
    simp [handle, ProtocolElectrum.doScripthashUnsubscribe] at present
  refine holds key sub ?_
  simpa [handle, ProtocolElectrum.doScripthashUnsubscribe, OrderedMap.find?_erase_ne different]
    using present

omit [LinearOrder Digest] in
theorem scanned_eq {sub : AddressSubscription Digest} (succeeds : Archive.Succeeds archive) :
    getScripthashHistory hashing archive sub hash maxSize =
      .ok (Client.scanned hashing archive hash sub) := by
  obtain ⟨answer, served⟩ := succeeds sub.cursor hash maxSize
  obtain ⟨after, read⟩ := getScripthashHistory_ok hashing served
  simp only [Client.scanned, read]

/-- What a notifier makes of one subscription. -/
theorem notify_present (holds : inner.Holds hashing world)
    (scans : inner.Scans world archive) {after : AddressSubscription Digest}
    (present : (inner.notify hashing archive).1.protocol.addressSubscriptions.find? hash =
      some after) :
    ∃ sub, inner.protocol.addressSubscriptions.find? hash = some sub ∧
      after = Client.scanned hashing archive hash sub ∧
      (Watch.mk after (world hash) ((inner.notify hashing archive).1.covered hash)).Consistent
        hashing ∧
      after.status = statusOf hashing (world hash).entries := by
  have found : (inner.protocol.addressSubscriptions.find? hash).map
      (Client.scanned hashing archive hash) = some after :=
    (Client.find?_doScripthash scans.succeeds).symm.trans present
  obtain ⟨sub, before, rfl⟩ := Option.map_eq_some_iff.mp found
  have kept := consistent_call (holds hash sub before) (scans.serves hash)
    (scans.unmasked hash sub before) (scanned_eq scans.succeeds)
  refine ⟨sub, before, rfl, ?_, kept.2⟩
  simpa [notify, before] using kept.1

/-- What a notifier delivers of one subscription. -/
theorem told_notify (succeeds : Archive.Succeeds archive) {sub : AddressSubscription Digest}
    (present : inner.protocol.addressSubscriptions.find? hash = some sub) :
    (Feed.told (inner.notify hashing archive).2 hash).getD sub.status =
      (Client.scanned hashing archive hash sub).status := by
  have about : ∀ status, (hash, status) ∈ (inner.notify hashing archive).2 ↔
      ∃ type, .scripthashNotify status hash type ∈
        (inner.protocol.doScripthash hashing archive).2 := by
    intro status
    simp only [notify, List.mem_filterMap]
    constructor
    · rintro ⟨post, member, carried⟩
      cases post with
      | scripthashNotify told key type =>
          obtain ⟨rfl, rfl⟩ : key = hash ∧ told = status := by simpa [notifiedStatus] using carried
          exact ⟨type, member⟩
      | _ => simp [notifiedStatus] at carried
    · rintro ⟨type, member⟩
      exact ⟨_, member, rfl⟩
  by_cases changed : (Client.scanned hashing archive hash sub).status = sub.status
  · have nothing : Feed.told (inner.notify hashing archive).2 hash = none := by
      refine Feed.told_eq_none fun status member => ?_
      obtain ⟨type, posted⟩ := (about status).mp member
      exact ((Client.notified_iff succeeds present).mp posted).1 changed
    rw [nothing, Option.getD_none, changed]
  · have delivered : Feed.told (inner.notify hashing archive).2 hash =
        some (Client.scanned hashing archive hash sub).status := by
      refine Feed.told_eq_some (fun status member => ?_) ((about _).mpr ⟨_,
        (Client.notified_iff succeeds present).mpr ⟨changed, rfl, rfl⟩⟩)
      obtain ⟨type, posted⟩ := (about status).mp member
      exact ((Client.notified_iff succeeds present).mp posted).2.1
    rw [delivered, Option.getD_some]

/-- The script hash subscriptions keep to the laws of a feed. -/
theorem laws (hashing : Hashing Digest) (options : Options) :
    Feed.Laws (service hashing options) (current hashing) (Holds hashing) Grows Finds Scans where
  change := by
    intro world later inner grows holds hash sub present
    have consistent := holds hash sub present
    have same := (grows hash).read consistent.within
    exact ⟨(grows hash).within consistent.within, by
      simpa [same] using consistent.accumulated, by simpa [same] using consistent.status⟩
  raise := by
    intro world inner flag holds
    exact holds
  cached_raise := rfl
  handle := by
    intro world inner archive request holds finds
    cases request with
    | subscribe hash type => exact holds_subscribe holds finds.1 finds.2
    | unsubscribe hash => exact holds_unsubscribe options archive holds
  handle_read := by
    intro world inner archive request key holds finds reading
    cases request with
    | unsubscribe hash => cases reading
    | subscribe hash type =>
        simp only [service, reads] at reading
        rcases handle_subscribe_cases hashing options archive inner hash type with
          ⟨-, nothing⟩ | ⟨after, read, delivered, here, -⟩
        · simp [nothing] at reading
        · obtain rfl : hash = key := by simpa [delivered] using reading
          have status := (consistent_call (consistent_subject holds) finds.1
            (unmasked_subject finds.2) read).2
          simp only [service, here, delivered]
          exact ⟨congrArg some status, by simp [Feed.told, status, current]⟩
  handle_other := by
    intro inner archive request key view other subscribed
    cases request with
    | unsubscribe hash =>
        have different : key ≠ hash := by
          rintro rfl
          simp [service, handle, ProtocolElectrum.doScripthashUnsubscribe] at subscribed
        refine ⟨?_, rfl⟩
        simpa [service, handle, ProtocolElectrum.doScripthashUnsubscribe,
          OrderedMap.find?_erase_ne different] using subscribed
    | subscribe hash type =>
        simp only [service, reads] at other subscribed ⊢
        rcases handle_subscribe_cases hashing options archive inner hash type with
          ⟨same, nothing⟩ | ⟨after, read, delivered, here, elsewhere, -⟩
        · rw [same] at subscribed
          exact ⟨subscribed, by rw [nothing, Feed.told_nil]⟩
        · have different : key ≠ hash := by
            rintro rfl
            exact other (by simp [delivered])
          rw [elsewhere key different] at subscribed
          exact ⟨subscribed, by simp [delivered, Feed.told, different.symm]⟩
  notify := by
    intro world inner archive holds scans hash after present
    obtain ⟨sub, -, -, consistent, -⟩ := notify_present holds scans present
    exact consistent
  notify_scan := by
    intro world inner archive hash view holds scans subscribed
    obtain ⟨after, present, rfl⟩ := Option.map_eq_some_iff.mp subscribed
    obtain ⟨sub, before, rfl, -, status⟩ := notify_present holds scans present
    exact ⟨status, sub.status, by simp [service, before], told_notify scans.succeeds before⟩

end Scripts

end LibbitcoinServer.Electrum
