import LibbitcoinServer.Electrum.Subscriptions

/-! # The status last told to a client

A notification is decided against the cached status, which `do_reorganized` clears
without a word to the client.  Until the next `do_scripthash` the cached status and
the one told last may therefore differ, and that step restores them exactly where
the history then has a status other than null and other than the one told.
-/

namespace LibbitcoinServer.Electrum

variable {Digest : Type} [LinearOrder Digest]

/-- The protocol, with the status last told for each hash. -/
structure Client (Digest : Type) [LinearOrder Digest] where
  protocol : ProtocolElectrum Digest
  told : Digest → Digest

/-- What runs on the notification strand: an organized and a transaction event both
    post `do_scripthash`. -/
inductive StrandEvent (Digest : Type) where
  | subscribe (archive : Archive Digest) (hash : Digest) (type : NotifyType)
  | unsubscribe (hash : Digest)
  | scripthash (archive : Archive Digest)
  | reorganized

/-- A posted notification reaches the client. -/
def hear (told : Digest → Digest) : Post Digest → Digest → Digest
  | .scripthashNotify status hash _ => Function.update told hash status
  | _ => told

/-- A posted response reaches the client. -/
def hearResponse (hash : Digest) (told : Digest → Digest) : Post Digest → Digest → Digest
  | .completeScripthashSubscribe none status => Function.update told hash status
  | _ => told

namespace Client

variable (hashing : Hashing Digest) (options : Options)

def initial : Client Digest := ⟨.initial, fun _ => hashing.null⟩

def step (client : Client Digest) : StrandEvent Digest → Client Digest
  | .subscribe archive hash type =>
      let (protocol, posts) :=
        client.protocol.doScripthashSubscribe hashing options archive hash type
      ⟨protocol, posts.foldl (hearResponse hash) client.told⟩
  | .unsubscribe hash =>
      { client with protocol := (client.protocol.doScripthashUnsubscribe hash).1 }
  | .scripthash archive =>
      let (protocol, posts) := client.protocol.doScripthash hashing archive
      ⟨protocol, posts.foldl hear client.told⟩
  | .reorganized => { client with protocol := client.protocol.doReorganized hashing }

end Client

/-- Every history query is answered. -/
def Archive.Succeeds {Digest : Type} (archive : Archive Digest) : Prop :=
  ∀ cursor hash limit, ∃ answer, archive.getHistory cursor hash limit = .ok answer

def StrandEvent.Succeeds {Digest : Type} : StrandEvent Digest → Prop
  | .subscribe archive _ _ | .scripthash archive => Archive.Succeeds archive
  | _ => True

namespace Client

variable (hashing : Hashing Digest)

/-- After `do_scripthash` the client has the status of each subscription, and was
    notified only of a change. -/
def Heard (client : Client Digest) : StrandEvent Digest → Prop
  | .scripthash archive => ∀ key sub, client.protocol.addressSubscriptions.find? key = some sub →
      (∃ after, (client.protocol.doScripthash hashing archive).1.addressSubscriptions.find? key =
          some after ∧
        (client.protocol.doScripthash hashing archive).2.foldl hear client.told key =
          after.status) ∧
      ∀ status type, .scripthashNotify status key type ∈
        (client.protocol.doScripthash hashing archive).2 → status ≠ client.told key
  | _ => True

/-- Each cached status is the one told, or the history has a status that is neither
    null nor the one told. -/
def Regained (client : Client Digest) : StrandEvent Digest → Prop
  | .scripthash archive => ∀ key sub, client.protocol.addressSubscriptions.find? key = some sub →
      sub.status = client.told key ∨
        ∀ next entries, archive.getHistory none key maxSize = .ok (next, entries) →
          statusOf hashing entries ≠ hashing.null ∧ statusOf hashing entries ≠ client.told key
  | _ => True

/-- A subscription as `do_reorganized` leaves it. -/
structure Cleared (sub : AddressSubscription Digest) : Prop where
  cursor : sub.cursor = none
  accumulator : sub.accumulator = ""
  status : sub.status = hashing.null

/-- Every cached status is the one told, or has been cleared. -/
def Tracked (client : Client Digest) : Prop :=
  ∀ key sub, client.protocol.addressSubscriptions.find? key = some sub →
    sub.status = client.told key ∨ Cleared hashing sub

variable {hashing} {options : Options} {client : Client Digest}
  {self : ProtocolElectrum Digest} {archive : Archive Digest}
  {key : Digest} {sub : AddressSubscription Digest}

/-- The notifications of one hash settle what is told of it. -/
theorem foldl_hear (told : Digest → Digest) {posts : List (Post Digest)} {agreed : Digest}
    (same : ∀ status type, .scripthashNotify status key type ∈ posts → status = agreed) :
    ((∃ status type, .scripthashNotify status key type ∈ posts) →
        posts.foldl hear told key = agreed) ∧
      ((¬∃ status type, .scripthashNotify status key type ∈ posts) →
        posts.foldl hear told key = told key) := by
  induction posts generalizing told with
  | nil => simp
  | cons post rest ih =>
      have later := ih (hear told post) fun status type member =>
        same status type (List.mem_cons_of_mem _ member)
      rw [List.foldl_cons]
      by_cases again : ∃ status type, .scripthashNotify status key type ∈ rest
      · refine ⟨fun _ => later.1 again, fun none => absurd ?_ none⟩
        obtain ⟨status, type, member⟩ := again
        exact ⟨status, type, List.mem_cons_of_mem _ member⟩
      · rw [later.2 again]
        constructor
        · rintro ⟨status, type, member⟩
          rcases List.mem_cons.mp member with rfl | member
          · simp [hear, same status type List.mem_cons_self]
          · exact absurd ⟨status, type, member⟩ again
        · intro none
          cases post with
          | scripthashNotify status hash type =>
              have apart : key ≠ hash := by
                rintro rfl
                exact none ⟨status, type, List.mem_cons_self⟩
              simp [hear, apart]
          | _ => rfl

/-- The subscription that a visit leaves. -/
def scanned (hashing : Hashing Digest) (archive : Archive Digest) (key : Digest)
    (sub : AddressSubscription Digest) : AddressSubscription Digest :=
  match getScripthashHistory hashing archive sub key maxSize with
  | .error _ => sub
  | .ok after => after

theorem visitScripthash_succeeds (succeeds : Archive.Succeeds archive) (key : Digest)
    (sub : AddressSubscription Digest) :
    ProtocolElectrum.visitScripthash hashing archive key sub =
      some (scanned hashing archive key sub,
        if (scanned hashing archive key sub).status ≠ sub.status
          then [.scripthashNotify (scanned hashing archive key sub).status key
            (scanned hashing archive key sub).type] else []) := by
  obtain ⟨answer, served⟩ := succeeds sub.cursor key maxSize
  obtain ⟨after, read⟩ := getScripthashHistory_ok hashing served
  simp only [ProtocolElectrum.visitScripthash, scanned, read]

theorem find?_doScripthash (succeeds : Archive.Succeeds archive) :
    (self.doScripthash hashing archive).1.addressSubscriptions.find? key =
      (self.addressSubscriptions.find? key).map (scanned hashing archive key) :=
  OrderedMap.find?_sweep fun key sub => visitScripthash_succeeds succeeds key sub

/-- A hash is notified of its new status where that differs from the cached one. -/
theorem notified_iff (succeeds : Archive.Succeeds archive)
    (present : self.addressSubscriptions.find? key = some sub) {status : Digest}
    {type : NotifyType} :
    .scripthashNotify status key type ∈ (self.doScripthash hashing archive).2 ↔
      (scanned hashing archive key sub).status ≠ sub.status ∧
        status = (scanned hashing archive key sub).status ∧
        type = (scanned hashing archive key sub).type := by
  refine OrderedMap.mem_sweep.trans ?_
  simp only [visitScripthash_succeeds succeeds, Option.some.injEq, Prod.mk.injEq]
  constructor
  · rintro ⟨other, found, _, _, present', -, ⟨rfl, rfl⟩, reported⟩
    split_ifs at reported with changed
    · obtain ⟨rfl, rfl, rfl⟩ : status = (scanned hashing archive other found).status ∧
          key = other ∧ type = (scanned hashing archive other found).type := by
        simpa using reported
      obtain rfl : found = sub := Option.some.inj (present'.symm.trans present)
      exact ⟨changed, rfl, rfl⟩
    · cases reported
  · rintro ⟨changed, rfl, rfl⟩
    have reaches : OrderedMap.Reaches self.addressSubscriptions.entries
        (ProtocolElectrum.visitScripthash hashing archive) key := fun entry _ _ => by
      rw [visitScripthash_succeeds succeeds, Option.isSome_some]
    exact ⟨key, sub, _, _, present, reaches, ⟨rfl, rfl⟩, by simp [changed]⟩

/-- What `do_scripthash` tells of one hash. -/
theorem told_doScripthash (succeeds : Archive.Succeeds archive)
    (present : client.protocol.addressSubscriptions.find? key = some sub) :
    (client.protocol.doScripthash hashing archive).2.foldl hear client.told key =
      if (scanned hashing archive key sub).status ≠ sub.status
        then (scanned hashing archive key sub).status else client.told key := by
  have settled := foldl_hear client.told
    (fun status type member => ((notified_iff succeeds present).mp member).2.1 :
      ∀ status type, .scripthashNotify status key type ∈
        (client.protocol.doScripthash hashing archive).2 → _)
  simp only [notified_iff succeeds present] at settled
  split_ifs with changed
  · exact settled.1 ⟨_, _, changed, rfl, rfl⟩
  · exact settled.2 fun ⟨_, _, wrong, _⟩ => changed wrong

omit [LinearOrder Digest] in
/-- A cleared subscription reads its whole history. -/
theorem scanned_cleared (cleared : Cleared hashing sub) {next : Cursor}
    {entries : List (History Digest)}
    (served : archive.getHistory none key maxSize = .ok (next, entries)) :
    (scanned hashing archive key sub).status = statusOf hashing entries := by
  simp only [scanned, getScripthashHistory, cleared.cursor, served]
  cases entries with
  | nil => simp [cleared.status, statusOf]
  | cons first rest =>
      simp only [List.isEmpty_cons, Bool.false_eq_true, if_false, foldl_writeStatus,
        cleared.accumulator, String.empty_append, ← textOf_append, List.takeWhile_append_dropWhile,
        statusOf]

/-- One subscription is told as promised exactly where its status is regained. -/
theorem heard_iff_regained (succeeds : Archive.Succeeds archive)
    (tracked : client.Tracked hashing) :
    client.Heard hashing (.scripthash archive) ↔ client.Regained hashing (.scripthash archive) := by
  refine forall₃_congr fun key sub present => ?_
  obtain ⟨⟨next, entries⟩, served⟩ := succeeds none key maxSize
  rw [find?_doScripthash succeeds, present, told_doScripthash succeeds present]
  simp only [Option.map_some, Option.some.injEq, exists_eq_left', notified_iff succeeds present]
  by_cases synced : sub.status = client.told key
  · refine iff_of_true ⟨?_, ?_⟩ (.inl synced)
    · split_ifs with changed
      · rfl
      · rw [← synced, not_not.mp changed]
    · rintro status type ⟨changed, rfl, rfl⟩
      rwa [← synced]
  · have cleared := (tracked key sub present).resolve_left synced
    have status := scanned_cleared cleared served
    rw [cleared.status] at synced ⊢
    simp only [status, synced, false_or, served, Except.ok.injEq, Prod.mk.injEq]
    constructor
    · rintro ⟨told, notified⟩ _ _ ⟨rfl, rfl⟩
      split_ifs at told with changed
      · exact ⟨changed, notified _ _ ⟨changed, rfl, rfl⟩⟩
      · exact absurd (told.trans (not_not.mp changed)).symm synced
    · intro regained
      obtain ⟨changed, different⟩ := regained _ _ ⟨rfl, rfl⟩
      refine ⟨by rw [if_pos changed], ?_⟩
      rintro _ _ ⟨-, rfl, -⟩
      exact different

/-- A subscription response tells the status it caches. -/
theorem tracked_subscribe (tracked : client.Tracked hashing) {hash : Digest} {type : NotifyType} :
    (client.step hashing options (.subscribe archive hash type)).Tracked hashing := by
  have outcome := ProtocolElectrum.doScripthashSubscribe_cases hashing options archive hash type
    client.protocol
  simp only [step]
  generalize client.protocol.doScripthashSubscribe hashing options archive hash type = after
    at outcome ⊢
  cases outcome with
  | full size => exact tracked
  | failed size faulted => exact tracked
  | @subscribed size sub read map here elsewhere bounded =>
      intro key found present
      by_cases same : key = hash
      · subst same
        obtain rfl : found = sub := Option.some.inj (present.symm.trans here)
        exact .inl (by simp [hearResponse])
      · simp only [List.foldl_cons, List.foldl_nil, hearResponse, Function.update_of_ne same]
        exact tracked key found ((elsewhere key same).symm.trans present)

theorem tracked_unsubscribe (tracked : client.Tracked hashing) {hash : Digest} :
    (client.step hashing options (.unsubscribe hash)).Tracked hashing := by
  intro key found present
  have different : key ≠ hash := by
    rintro rfl
    simp [step, ProtocolElectrum.doScripthashUnsubscribe] at present
  refine tracked key found ?_
  simpa [step, ProtocolElectrum.doScripthashUnsubscribe, OrderedMap.find?_erase_ne different]
    using present

theorem tracked_reorganized : (client.step hashing options .reorganized).Tracked hashing := by
  intro key found present
  simp only [step, ProtocolElectrum.doReorganized, OrderedMap.find?_mapValues] at present
  obtain ⟨old, -, rfl⟩ := Option.map_eq_some_iff.mp present
  exact .inr ⟨rfl, rfl, rfl⟩

theorem tracked_scripthash (heard : client.Heard hashing (.scripthash archive))
    (succeeds : Archive.Succeeds archive) :
    (client.step hashing options (.scripthash archive)).Tracked hashing := by
  intro key found present
  simp only [step] at present
  rw [find?_doScripthash succeeds] at present
  obtain ⟨old, before, -⟩ := Option.map_eq_some_iff.mp present
  obtain ⟨after, same, told⟩ := (heard key old before).1
  rw [find?_doScripthash succeeds, present] at same
  obtain rfl := Option.some.inj same
  exact .inl told.symm

theorem tracked_step {event : StrandEvent Digest} (tracked : client.Tracked hashing)
    (succeeds : event.Succeeds) (heard : client.Heard hashing event) :
    (client.step hashing options event).Tracked hashing := by
  cases event with
  | subscribe archive hash type => exact tracked_subscribe tracked
  | unsubscribe hash => exact tracked_unsubscribe tracked
  | scripthash archive => exact tracked_scripthash heard succeeds
  | reorganized => exact tracked_reorganized

theorem heard_iff {event : StrandEvent Digest} (tracked : client.Tracked hashing)
    (succeeds : event.Succeeds) : client.Heard hashing event ↔ client.Regained hashing event := by
  cases event with
  | scripthash archive => exact heard_iff_regained succeeds tracked
  | _ => exact Iff.rfl

/-- Over every run of the notification strand with answered queries, the client is
    told as promised exactly where every `do_scripthash` meets regained statuses. -/
theorem strand_heard_iff (hashing : Hashing Digest) (options : Options)
    (events : List (StrandEvent Digest)) (succeeds : ∀ event ∈ events, event.Succeeds) :
    (∀ visit ∈ Run.steps (step hashing options) (initial hashing) events,
        visit.1.Heard hashing visit.2) ↔
      ∀ visit ∈ Run.steps (step hashing options) (initial hashing) events,
        visit.1.Regained hashing visit.2 := by
  have start : (initial hashing).Tracked hashing := by
    intro key found present
    cases present
  exact Run.steps_congr (Tracked hashing) (Heard hashing) (fun _ event => event.Succeeds)
    (Regained hashing) (fun _ _ tracked fine heard => tracked_step tracked fine heard)
    (fun _ _ tracked fine => heard_iff tracked fine) start
    fun visit member => succeeds visit.2 (Run.label_mem member)

section Emptied

open Watch

theorem archive_succeeds (store : ScriptHistory Nat) : Archive.Succeeds (store.archive 7) := by
  intro cursor hash limit
  simp only [ScriptHistory.archive]
  split_ifs
  · exact ⟨_, rfl⟩
  · exact ⟨_, rfl⟩

def subscribeSeven : StrandEvent Nat := .subscribe (pooled.archive 7) 7 .scripthash

/-- The client after its subscription. -/
def subscribed : Client Nat := step sampleHashing ⟨10, 100⟩ (initial sampleHashing) subscribeSeven

theorem subscribed_entries :
    subscribed.protocol.addressSubscriptions.entries = [(7, pooledSub)] := by
  decide +kernel

/-- A transaction event after the subscription finds the client up to date. -/
theorem strand_heard_transaction :
    subscribed.Heard sampleHashing (.scripthash (pooled.archive 7)) := by
  have heard := (strand_heard_iff sampleHashing ⟨10, 100⟩
    [subscribeSeven, .scripthash (pooled.archive 7)]
    (by
      intro event member
      simp only [List.mem_cons, List.not_mem_nil, or_false] at member
      rcases member with rfl | rfl
      · exact archive_succeeds _
      · exact archive_succeeds _)).mpr
    (by
      intro visit member
      simp only [Run.steps, List.mem_cons, List.not_mem_nil, or_false] at member
      rcases member with rfl | rfl
      · trivial
      · intro key sub present
        have inside : (key, sub) ∈ subscribed.protocol.addressSubscriptions.entries :=
          OrderedMap.find?_eq_some.mp present
        rw [subscribed_entries, List.mem_singleton] at inside
        obtain ⟨rfl, rfl⟩ := Prod.mk.inj inside
        exact .inl (by decide +kernel))
  exact heard (subscribed, .scripthash (pooled.archive 7)) (by simp [Run.steps, subscribed])

/-- A reorganization that empties the history leaves the client with the old status. -/
theorem strand_unheard_reorganization :
    ¬∀ (options : Options) (events : List (StrandEvent Nat)),
      (∀ event ∈ events, event.Succeeds) →
        ∀ visit ∈ Run.steps (step sampleHashing options) (initial sampleHashing) events,
          visit.1.Heard sampleHashing visit.2 := by
  intro heard
  have last := heard ⟨10, 100⟩ [subscribeSeven, .reorganized, .scripthash (evicted.archive 7)]
    (by
      intro event member
      simp only [List.mem_cons, List.not_mem_nil, or_false] at member
      rcases member with rfl | rfl | rfl
      · exact archive_succeeds _
      · trivial
      · exact archive_succeeds _)
    (step sampleHashing ⟨10, 100⟩ subscribed .reorganized, .scripthash (evicted.archive 7))
    (by simp [Run.steps, subscribed]) 7 ⟨.scripthash, none, 0, ""⟩ (by decide +kernel)
  obtain ⟨⟨after, found, told⟩, -⟩ := last
  have read : ((step sampleHashing ⟨10, 100⟩ subscribed .reorganized).protocol.doScripthash
      sampleHashing (evicted.archive 7)).1.addressSubscriptions.find? 7 =
        some ⟨.scripthash, some 100, 0, ""⟩ := by decide +kernel
  obtain rfl := Option.some.inj (found.symm.trans read)
  exact absurd told (by decide +kernel)

end Emptied

end Client

end LibbitcoinServer.Electrum
